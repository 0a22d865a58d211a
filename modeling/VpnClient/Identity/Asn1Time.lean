import VpnClient.Identity.Asn1
import VpnClient.Utils.Text
import VpnClient.Lib.Calendar

/-!
# ASN.1 times

`asn1_to_time` and `asn1_from_time` of `libstrongswan/asn1/asn1.c`: the text of a UTCTIME
(`YYMMDDhhmm[ss]` and a zone) or a GENERALIZEDTIME (`YYYYMMDDhhmm[ss]` and a zone) and
the POSIX time it stands for.

`asn1_to_time` finds the zone by the first 'Z', else '+', else '-', reads the fields with
`sscanf` and tells whether there are seconds by where the zone starts. It then counts the
days from 1970 on its own: `(y - 1) / 4 - (y - 1) / 100 + (y - 1) / 400 - 477` leap days
and a table of month starts. For every year from 1 on this is the day count of the
calendar (`tmDays_eq`), so the time of every date and time of day, written with or without
seconds and with any zone, is read exactly (`asn1ToTime_timeText`). `asn1_from_time`
writes the time in UTC through `gmtime_r`, taken here as the conversion of the calendar
(`DateTime.ofPosix`), and from 2050 on as a GENERALIZEDTIME; from 1950 to 9999 the text it
writes is that of the same date and time (`asn1FromTime_eq`), which `asn1_to_time` reads
back.

A `time_t` has `8 * sizeofTimeT` bits. With 4 bytes, `asn1_to_time` gives up on years
outside 1901 to 2038 and on values that wrapped around.
-/

namespace VpnClient.Identity

open VpnClient.Utils VpnClient.Lib.Calendar

/-- `ASN1_UTCTIME`. -/
def asn1Utctime : UInt8 := 0x17

/-- `ASN1_GENERALIZEDTIME`. -/
def asn1Generalizedtime : UInt8 := 0x18

/-- `BUF_LEN`. -/
def bufLen : ℕ := 512

/-- `TIME_32_BIT_SIGNED_MAX`. -/
def time32BitSignedMax : ℤ := 0x7fffffff

/-- `days[]`: the days of a common year before each month. -/
def days : List ℤ := [0, 31, 59, 90, 120, 151, 181, 212, 243, 273, 304, 334]

/-- `tm_leap_1970`: the leap years from year 1 to 1969. -/
def tmLeap1970 : ℤ := 477

/-! ## `asn1_to_time` -/

/-- The offset after a '+' or a '-' at `eot`: `sscanf(eot+1, "%2d%2d", &tz_hour, &tz_min)`,
and `3600 * tz_hour + 60 * tz_min`. -/
def zoneOffset (buf : List Char) (eot : ℕ) : Option ℤ :=
  match sscanf [2, 2] (buf.drop (eot + 1)) with
  | [tzHour, tzMin] => some (3600 * tzHour + 60 * tzMin)
  | _ => none

/-- The zone of `asn1_to_time`: where the time ends (`eot`) and the offset of the zone.
A 'Z' anywhere in the text is taken first, then a '+', then a '-'; `none` is an error
return. -/
def timeZone (buf : List Char) : Option (ℕ × ℤ) :=
  match buf.idxOf? 'Z', buf.idxOf? '+', buf.idxOf? '-' with
  | some eot, _, _ => some (eot, 0)
  | none, some eot, _ => (zoneOffset buf eot).map fun tzOffset => (eot, tzOffset)
  | none, none, some eot => (zoneOffset buf eot).map fun tzOffset => (eot, -tzOffset)
  | none, none, none => none

/-- The seconds of `asn1_to_time`: read from the two characters before the zone when the
zone starts at 12 (UTCTIME) or 14 (GENERALIZEDTIME), 0 otherwise. -/
def secondsField (buf : List Char) (eot : ℕ) (type : UInt8) : Option ℤ :=
  if eot = (if type = asn1Utctime then 12 else 14) then
    match sscanf [2] (buf.drop (eot - 2)) with
    | [tmSec] => some tmSec
    | _ => none
  else some 0

/-- `tm_days` of `asn1_to_time`, for a month from 0 and a day from 0. C's `/` and `%` on
`int` truncate towards zero. -/
def tmDays (tmYear tmMon tmDay : ℤ) : ℤ :=
  -- number of leap years between last year and 1970
  let tmLeap4 := (tmYear - 1).tdiv 4
  let tmLeap100 := tmLeap4.tdiv 25
  let tmLeap400 := tmLeap100.tdiv 4
  let tmLeap := tmLeap4 - tmLeap100 + tmLeap400 - tmLeap1970
  -- if the date is later than February, is the current year a leap year?
  let tmLeap :=
    if tmMon > 1 ∧ tmYear.tmod 4 = 0 ∧ (tmYear.tmod 100 ≠ 0 ∨ tmYear.tmod 400 = 0) then tmLeap + 1
    else tmLeap
  365 * (tmYear - 1970) + days.getD tmMon.toNat 0 + tmDay + tmLeap

/-- The checks and the sum of `asn1_to_time` once the fields are read and the year has
four digits. `tm_secs` is a `time_t` of `8 * sizeofTimeT` bits, so the sum wraps around
in two's complement. -/
def calendarTime (sizeofTimeT : ℕ) (tmYear tmMon tmDay tmHour tmMin tmSec tzOffset : ℤ) : ℤ :=
  -- prevent obvious 32 bit integer overflows
  if sizeofTimeT = 4 ∧ (tmYear > 2038 ∨ tmYear < 1901) then time32BitSignedMax
  else if tmMon < 1 ∨ tmMon > 12 then 0
  else if tmDay < 1 ∨ tmDay > 31 then 0
  else if tmHour < 0 ∨ tmHour > 23 ∨ tmMin < 0 ∨ tmMin > 59 ∨ tmSec < 0 ∨ tmSec > 60 then 0
  else
    let tmSecs := Int.bmod (60 * (60 * (24 * tmDays tmYear (tmMon - 1) (tmDay - 1) + tmHour) + tmMin) + tmSec -
      tzOffset) (2 ^ (8 * sizeofTimeT))
    -- has a 32 bit signed integer overflow occurred?
    if sizeofTimeT = 4 ∧ (tmYear > 1970 ∧ tmSecs < 0 ∨ tmYear < 1969 ∧ tmSecs > 0) then time32BitSignedMax
    else tmSecs

/-- `asn1_to_time`. The text is copied to a buffer of `BUF_LEN` characters, up to a NUL. -/
def asn1ToTime (sizeofTimeT : ℕ) (utctime : List UInt8) (type : UInt8) : ℤ :=
  let buf := ((charsOf utctime).takeWhile (· ≠ '\x00')).take (bufLen - 1)
  match timeZone buf with
  | none => 0
  | some (eot, tzOffset) =>
    match sscanf (if type = asn1Utctime then [2, 2, 2, 2, 2] else [4, 2, 2, 2, 2]) buf with
    | [tmYear, tmMon, tmDay, tmHour, tmMin] =>
      match secondsField buf eot type with
      | none => 0
      | some tmSec =>
        -- representation of two-digit years
        let tmYear := if type = asn1Utctime then tmYear + (if tmYear < 50 then 2000 else 1900) else tmYear
        calendarTime sizeofTimeT tmYear tmMon tmDay tmHour tmMin tmSec tzOffset
    | _ => 0

example : asn1ToTime 8 (bytesOf "700105020304-0130".toList) asn1Utctime = 358384 := by decide
example : asn1ToTime 8 (bytesOf "700101-103Z".toList) asn1Utctime = 0 := by decide

/-! ## The text of a time -/

/-- The zone of a time: UTC, or an offset ahead of it or behind it, in hours and minutes of
two digits. -/
inductive Zone
  | utc
  | plus (hh mm : Fin 100)
  | minus (hh mm : Fin 100)

/-- The zone's suffix: `Z`, `+hhmm` or `-hhmm`. -/
def Zone.text : Zone → List Char
  | .utc => ['Z']
  | .plus hh mm => '+' :: (padded 2 hh.val ++ padded 2 mm.val)
  | .minus hh mm => '-' :: (padded 2 hh.val ++ padded 2 mm.val)

/-- The seconds by which the zone is ahead of UTC. -/
def Zone.offset : Zone → ℤ
  | .utc => 0
  | .plus hh mm => 3600 * hh.val + 60 * mm.val
  | .minus hh mm => -(3600 * hh.val + 60 * mm.val)

/-- The date and time of day of a time's text: the year in two digits for a UTCTIME and
in four otherwise, then month, day, hour and minute in two digits each, and the seconds if
`withSeconds`. -/
def dateText (type : UInt8) (t : DateTime) (withSeconds : Bool) : List Char :=
  (if type = asn1Utctime then padded 2 (t.year % 100).toNat else padded 4 t.year.toNat) ++
    padded 2 t.month.toNat ++ padded 2 t.day.toNat ++ padded 2 t.hour.toNat ++ padded 2 t.minute.toNat ++
    (if withSeconds then padded 2 t.second.toNat else [])

/-- The text of a UTCTIME or a GENERALIZEDTIME. -/
def timeText (type : UInt8) (t : DateTime) (withSeconds : Bool) (zone : Zone) : List Char :=
  dateText type t withSeconds ++ zone.text

/-! ## The day count of `asn1_to_time` -/

/-- The month starts of `days[]` are the sums of the month lengths of a common year. -/
theorem getD_days {k : ℕ} (hk : k < 12) : days.getD k 0 = (commonMonths.take k).sum := by
  revert k
  decide

/-- **`asn1_to_time` counts the days of the calendar** for every year from 1 on: C's
truncating division is the floor division there, and `(y - 1) / 4 / 25` is
`(y - 1) / 100`. -/
theorem tmDays_eq {y m d : ℤ} (hy : 1 ≤ y) (h1 : 1 ≤ m) (h12 : m ≤ 12) :
    tmDays y (m - 1) (d - 1) = daysFromCivil y m d := by
  have hleap4 : (y - 1).tdiv 4 = (y - 1) / 4 := Int.tdiv_eq_ediv_of_nonneg (by omega)
  have hleap100 : ((y - 1) / 4).tdiv 25 = (y - 1) / 100 := by
    rw [Int.tdiv_eq_ediv_of_nonneg (by omega)]
    omega
  have hleap400 : ((y - 1) / 100).tdiv 4 = (y - 1) / 400 := by
    rw [Int.tdiv_eq_ediv_of_nonneg (by omega)]
    omega
  have hmod : ∀ k : ℤ, y.tmod k = y % k := fun k => Int.tmod_eq_emod_of_nonneg (by omega)
  have hdays := getD_days (k := (m - 1).toNat) (by omega)
  rw [tmDays, daysFromCivil_eq h1 h12, leapsTo_1969]
  simp only [hleap4, hleap100, hleap400, hmod, hdays, daysBeforeMonth, leapsTo, IsLeap, tmLeap1970]
  split_ifs <;> omega

/-- **The time of a date and time of day from year 1 to 9999** with a 64-bit `time_t`:
every check passes and the sum does not wrap around. -/
theorem calendarTime_eq {y m d h min s tzOffset : ℤ} (hy : 1 ≤ y ∧ y ≤ 9999) (hm : 1 ≤ m ∧ m ≤ 12)
    (hd : 1 ≤ d ∧ d ≤ 31) (hh : 0 ≤ h ∧ h ≤ 23) (hmin : 0 ≤ min ∧ min ≤ 59) (hs : 0 ≤ s ∧ s ≤ 60)
    (hoff : tzOffset.natAbs < 2 ^ 32) :
    calendarTime 8 y m d h min s tzOffset = 86400 * daysFromCivil y m d + 3600 * h + 60 * min + s - tzOffset := by
  have hdays := tmDays_eq (d := d) hy.1 hm.1 hm.2
  -- the days are within a few million of 1970, far inside 64 bits
  have hrange : -9223372036854775808 ≤ 86400 * daysFromCivil y m d + 3600 * h + 60 * min + s - tzOffset ∧
      86400 * daysFromCivil y m d + 3600 * h + 60 * min + s - tzOffset < 9223372036854775808 := by
    have hcount := daysFromCivil_eq (y := y) (d := d) hm.1 hm.2
    have hbefore := daysBeforeMonth_mem y m
    rw [leapsTo_1969] at hcount
    unfold leapsTo at hcount
    omega
  have hwidth : ((2 ^ (8 * 8) : ℕ) : ℤ) = 18446744073709551616 := by norm_num
  have hsum : 60 * (60 * (24 * daysFromCivil y m d + h) + min) + s - tzOffset =
      86400 * daysFromCivil y m d + 3600 * h + 60 * min + s - tzOffset := by ring
  have h32 : (8 : ℕ) ≠ 4 := by decide
  rw [calendarTime, if_neg (fun hc => h32 hc.1), if_neg (by omega), if_neg (by omega), if_neg (by omega)]
  dsimp only
  rw [hdays, hsum, Int.bmod_eq_of_le (by rw [hwidth]; omega) (by rw [hwidth]; omega), if_neg (fun hc => h32 hc.1)]

/-! ## Reading a time's text -/

/-- `strchr` past a prefix without the character: the index in the rest, moved by the
prefix's length. -/
theorem idxOf?_append_of_not_mem {c : Char} {l : List Char} (h : c ∉ l) (r : List Char) :
    (l ++ r).idxOf? c = (r.idxOf? c).map (· + l.length) := by
  induction l with
  | nil => simp
  | cons b l ih =>
    have hb : (b == c) = false := beq_eq_false_iff_ne.mpr fun hbc => h (hbc ▸ List.mem_cons_self)
    rw [List.cons_append, List.idxOf?_cons, hb, if_neg Bool.false_ne_true,
      ih fun hc => h (List.mem_cons_of_mem b hc), Option.map_map, List.length_cons]
    congr 1

theorem isDigit_of_mem_dateText {type : UInt8} {t : DateTime} {withSeconds : Bool} {c : Char}
    (h : c ∈ dateText type t withSeconds) : c.isDigit := by
  unfold dateText at h
  simp only [List.mem_append] at h
  split_ifs at h <;> grind [isDigit_of_mem_padded]

/-- Month, day, hour, minute and second have at most two digits. -/
theorem two_digit_fields (t : DateTime) :
    (0 ≤ t.month ∧ t.month ≤ 99) ∧ (0 ≤ t.day ∧ t.day ≤ 99) ∧ (0 ≤ t.hour ∧ t.hour ≤ 99) ∧
      (0 ≤ t.minute ∧ t.minute ≤ 99) ∧ (0 ≤ t.second ∧ t.second ≤ 99) := by
  have := t.month_mem
  have := t.day_mem
  have := t.day_le
  have := t.hour_mem
  have := t.minute_mem
  have := t.second_mem
  omega

/-- The fields of a time, each below `10 ^` its width. -/
theorem length_dateText {type : UInt8} {t : DateTime} {withSeconds : Bool} (hy : 1 ≤ t.year ∧ t.year ≤ 9999) :
    (dateText type t withSeconds).length = (if type = asn1Utctime then 2 else 4) + 8 + if withSeconds then 2 else 0 := by
  have hfield : ∀ v : ℤ, 0 ≤ v ∧ v ≤ 99 → (padded 2 v.toNat).length = 2 := fun v hv =>
    length_padded (by decide) (by omega)
  obtain ⟨hm, hd, hh, hmin, hs⟩ := two_digit_fields t
  have hyear : (padded 4 t.year.toNat).length = 4 := length_padded (by decide) (by omega)
  have hcentury := hfield (t.year % 100) (by omega)
  unfold dateText
  simp only [List.length_append, hfield t.month hm, hfield t.day hd, hfield t.hour hh, hfield t.minute hmin]
  split_ifs
  · simp only [hcentury, hfield t.second hs]
  · simp only [hcentury, List.length_nil]
  · simp only [hyear, hfield t.second hs]
  · simp only [hyear, List.length_nil]

/-- The zone's hours and minutes are read back. -/
theorem sscanf_zone (hh mm : Fin 100) :
    sscanf [2, 2] (padded 2 hh.val ++ padded 2 mm.val) = [(hh.val : ℤ), (mm.val : ℤ)] := by
  rw [← List.append_nil (padded 2 mm.val), sscanf_padded (by decide) (by omega),
    sscanf_padded (by decide) (by omega)]
  rfl

theorem mem_zoneText {zone : Zone} {c : Char} (h : c ∈ zone.text) : c.isDigit ∨ c = 'Z' ∨ c = '+' ∨ c = '-' := by
  cases zone with
  | utc => simp_all [Zone.text]
  | plus hh mm =>
    simp only [Zone.text, List.mem_cons, List.mem_append] at h
    grind [isDigit_of_mem_padded]
  | minus hh mm =>
    simp only [Zone.text, List.mem_cons, List.mem_append] at h
    grind [isDigit_of_mem_padded]

/-- **The zone is found where the date ends**, with its offset. -/
theorem timeZone_timeText (type : UInt8) (t : DateTime) (withSeconds : Bool) (zone : Zone) :
    timeZone (timeText type t withSeconds zone) = some ((dateText type t withSeconds).length, zone.offset) := by
  -- no letter and no sign in the date
  have hdate : ∀ c, ¬c.isDigit → c ∉ dateText type t withSeconds := fun c hc hmem =>
    hc (isDigit_of_mem_dateText hmem)
  have hfind : ∀ c, ¬c.isDigit → ∀ r, (dateText type t withSeconds ++ r).idxOf? c =
      (r.idxOf? c).map (· + (dateText type t withSeconds).length) := fun c hc r =>
    idxOf?_append_of_not_mem (hdate c hc) r
  have hpadded : ∀ c, ¬c.isDigit → ∀ hh mm : Fin 100, (padded 2 hh.val ++ padded 2 mm.val).idxOf? c = none :=
    fun c hc hh mm => List.idxOf?_eq_none_iff.mpr fun hmem =>
      hc (by rcases List.mem_append.mp hmem with h | h <;> exact isDigit_of_mem_padded h)
  -- what `sscanf` reads after the sign
  have hoffset : ∀ (sign : Char) (hh mm : Fin 100), zoneOffset (dateText type t withSeconds ++
      sign :: (padded 2 hh.val ++ padded 2 mm.val)) (dateText type t withSeconds).length =
      some (3600 * (hh.val : ℤ) + 60 * (mm.val : ℤ)) := by
    intro sign hh mm
    rw [zoneOffset, List.drop_append, List.drop_eq_nil_of_le (Nat.le_succ _), List.nil_append,
      Nat.add_sub_cancel_left, List.drop_one, List.tail_cons, sscanf_zone]
  unfold timeText
  cases zone with
  | utc => simp [timeZone, hfind 'Z' (by decide), Zone.text, Zone.offset]
  | plus hh mm =>
    simp [timeZone, hfind 'Z' (by decide), hfind '+' (by decide), Zone.text, List.idxOf?_cons,
      hpadded 'Z' (by decide) hh mm, hoffset, Zone.offset]
  | minus hh mm =>
    simp [timeZone, hfind 'Z' (by decide), hfind '+' (by decide), hfind '-' (by decide), Zone.text,
      List.idxOf?_cons, hpadded 'Z' (by decide) hh mm, hpadded '+' (by decide) hh mm, hoffset, Zone.offset]

/-- A field of two digits is read back, whatever follows it. -/
theorem sscanf_two_digits {v : ℤ} (h0 : 0 ≤ v) (h1 : v ≤ 99) (widths : List ℕ) (rest : List Char) :
    sscanf (2 :: widths) (padded 2 v.toNat ++ rest) = v :: sscanf widths rest := by
  rw [sscanf_padded (by decide) (by omega), Int.toNat_of_nonneg h0]

/-- **The five fields are read back**: the year as written, then month, day, hour and
minute. -/
theorem sscanf_dateText (type : UInt8) (t : DateTime) (withSeconds : Bool) (hy : 1 ≤ t.year ∧ t.year ≤ 9999)
    (rest : List Char) :
    sscanf (if type = asn1Utctime then [2, 2, 2, 2, 2] else [4, 2, 2, 2, 2]) (dateText type t withSeconds ++ rest) =
      [if type = asn1Utctime then t.year % 100 else t.year, t.month, t.day, t.hour, t.minute] := by
  obtain ⟨hm, hd, hh, hmin, -⟩ := two_digit_fields t
  unfold dateText
  simp only [List.append_assoc]
  by_cases htype : type = asn1Utctime
  · simp only [htype, if_true]
    rw [sscanf_two_digits (by omega) (by omega), sscanf_two_digits hm.1 hm.2, sscanf_two_digits hd.1 hd.2,
      sscanf_two_digits hh.1 hh.2, sscanf_two_digits hmin.1 hmin.2]
    rfl
  · simp only [htype, if_false]
    rw [sscanf_padded (by decide) (by omega), Int.toNat_of_nonneg (by omega), sscanf_two_digits hm.1 hm.2,
      sscanf_two_digits hd.1 hd.2, sscanf_two_digits hh.1 hh.2, sscanf_two_digits hmin.1 hmin.2]
    rfl

/-- **The seconds are read where the date has them**, and are 0 where it has none. -/
theorem secondsField_timeText (type : UInt8) (t : DateTime) (withSeconds : Bool) (zone : Zone)
    (hy : 1 ≤ t.year ∧ t.year ≤ 9999) :
    secondsField (timeText type t withSeconds zone) (dateText type t withSeconds).length type =
      some (if withSeconds then t.second else 0) := by
  rw [secondsField, length_dateText hy]
  cases withSeconds with
  | false =>
    -- the zone starts at 10 or 12
    rw [if_neg (by split_ifs <;> simp_all)]
    rfl
  | true =>
    -- the zone starts at 12 or 14, after the seconds
    have hsplit : dateText type t true = dateText type t false ++ padded 2 t.second.toNat := by
      simp [dateText]
    have hlen : (dateText type t false).length = _ := length_dateText hy
    obtain ⟨-, -, -, -, hs⟩ := two_digit_fields t
    have hstart : (if type = asn1Utctime then 2 else 4) + 8 + (if true = true then 2 else 0) - 2 =
        (dateText type t false).length := by
      rw [hlen]
      split_ifs <;> simp_all
    rw [if_pos (by split_ifs <;> simp_all), hstart, timeText, hsplit, List.append_assoc, List.drop_left,
      sscanf_two_digits hs.1 hs.2]
    rfl

theorem length_zoneText (zone : Zone) : zone.text.length ≤ 5 := by
  cases zone with
  | utc => simp [Zone.text]
  | plus hh mm => simp [Zone.text, length_padded (by decide : 0 < 2) hh.isLt, length_padded (by decide : 0 < 2) mm.isLt]
  | minus hh mm => simp [Zone.text, length_padded (by decide : 0 < 2) hh.isLt, length_padded (by decide : 0 < 2) mm.isLt]

/-- **The buffer of `asn1_to_time` holds the whole text**: it is ASCII, has no NUL and fits
in `BUF_LEN`. -/
theorem buf_timeText (type : UInt8) (t : DateTime) (withSeconds : Bool) (zone : Zone)
    (hy : 1 ≤ t.year ∧ t.year ≤ 9999) :
    ((charsOf (bytesOf (timeText type t withSeconds zone))).takeWhile (· ≠ '\x00')).take (bufLen - 1) =
      timeText type t withSeconds zone := by
  have hchar : ∀ c ∈ timeText type t withSeconds zone, c.toNat < 256 ∧ c ≠ '\x00' := by
    intro c hc
    rcases List.mem_append.mp hc with hc | hc
    · have := toNat_of_isDigit (isDigit_of_mem_dateText hc)
      exact ⟨by omega, fun h0 => by rw [h0] at this; simp at this⟩
    · rcases mem_zoneText hc with hd | rfl | rfl | rfl
      · have := toNat_of_isDigit hd
        exact ⟨by omega, fun h0 => by rw [h0] at this; simp at this⟩
      all_goals decide
  have hlen : (timeText type t withSeconds zone).length ≤ bufLen - 1 := by
    have := length_zoneText zone
    rw [timeText, List.length_append, length_dateText hy, bufLen]
    split_ifs <;> omega
  rw [charsOf_bytesOf fun c hc => (hchar c hc).1,
    List.takeWhile_eq_self_iff.mpr fun c hc => decide_eq_true (hchar c hc).2, List.take_of_length_le hlen]

theorem natAbs_offset_lt (zone : Zone) : zone.offset.natAbs < 2 ^ 32 := by
  cases zone with
  | utc => decide
  | plus hh mm => simp only [Zone.offset]; omega
  | minus hh mm => simp only [Zone.offset]; omega

/-- **`asn1_to_time` reads the time of a date and time of day** from its text, with or
without the seconds and with any zone, for a UTCTIME of the years 1950 to 2049 and a
GENERALIZEDTIME of the years 1 to 9999. -/
theorem asn1ToTime_timeText (type : UInt8) (t : DateTime) (withSeconds : Bool) (zone : Zone)
    (hy : if type = asn1Utctime then 1950 ≤ t.year ∧ t.year ≤ 2049 else 1 ≤ t.year ∧ t.year ≤ 9999) :
    asn1ToTime 8 (bytesOf (timeText type t withSeconds zone)) type =
      86400 * daysFromCivil t.year t.month t.day + 3600 * t.hour + 60 * t.minute +
        (if withSeconds then t.second else 0) - zone.offset := by
  have hy' : 1 ≤ t.year ∧ t.year ≤ 9999 := by split_ifs at hy <;> omega
  have hfields : sscanf (if type = asn1Utctime then [2, 2, 2, 2, 2] else [4, 2, 2, 2, 2]) (timeText type t withSeconds zone) =
      [if type = asn1Utctime then t.year % 100 else t.year, t.month, t.day, t.hour, t.minute] :=
    sscanf_dateText type t withSeconds hy' zone.text
  -- the two-digit years of a UTCTIME are those from 1950 to 2049
  have hyear : (if type = asn1Utctime then
        (if type = asn1Utctime then t.year % 100 else t.year) +
          (if (if type = asn1Utctime then t.year % 100 else t.year) < 50 then 2000 else 1900)
      else if type = asn1Utctime then t.year % 100 else t.year) = t.year := by
    split_ifs at hy ⊢ <;> omega
  have hsec : 0 ≤ (if withSeconds then t.second else 0) ∧ (if withSeconds then t.second else 0) ≤ 60 := by
    have := t.second_mem
    split_ifs <;> omega
  rw [asn1ToTime]
  simp only [buf_timeText type t withSeconds zone hy', timeZone_timeText, hfields,
    secondsField_timeText type t withSeconds zone hy', hyear]
  rw [calendarTime_eq hy' t.month_mem ⟨t.day_mem.1, t.day_le⟩ t.hour_mem
    ⟨t.minute_mem.1, by have := t.minute_mem; omega⟩ hsec (natAbs_offset_lt zone)]

/-! ## `asn1_from_time` -/

/-- `struct tm` as `gmtime_r` fills it: years from 1900 and months from 0. -/
structure Tm where
  tmSec : ℤ
  tmMin : ℤ
  tmHour : ℤ
  tmMday : ℤ
  tmMon : ℤ
  tmYear : ℤ

/-- `gmtime_r` of the C library: the date and time of day in UTC of a POSIX time. -/
def gmtime (time : ℤ) : Tm :=
  let t := DateTime.ofPosix time
  ⟨t.second, t.minute, t.hour, t.day, t.month - 1, t.year - 1900⟩

/-- `asn1_from_time`. From 2050 on the time is a GENERALIZEDTIME whatever the caller asks
for; a UTCTIME writes the years since 1900 below 100 and those since 2000 above. -/
def asn1FromTime (time : ℤ) (type : UInt8) : List UInt8 :=
  let t := gmtime time
  let type := if t.tmYear ≥ 150 then asn1Generalizedtime else type
  let yearWidth := if type = asn1Generalizedtime then 4 else 2
  let offset : ℤ := if type = asn1Generalizedtime then 1900 else if t.tmYear < 100 then 0 else -100
  let buf := printInt yearWidth (t.tmYear + offset) ++ printInt 2 (t.tmMon + 1) ++ printInt 2 t.tmMday ++
    printInt 2 t.tmHour ++ printInt 2 t.tmMin ++ printInt 2 t.tmSec ++ ['Z']
  asn1SimpleObject type (bytesOf (buf.take (bufLen - 1)))

example : asn1FromTime 1078099200 asn1Utctime =
    [0x17, 0x0d, 0x30, 0x34, 0x30, 0x33, 0x30, 0x31, 0x30, 0x30, 0x30, 0x30, 0x30, 0x30, 0x5a] := by decide

/-! ## Writing a time -/

/-- **`asn1_from_time` writes the text of the date and time of day** in UTC with the
seconds, from 1950 to 9999: a UTCTIME before 2050 and a GENERALIZEDTIME from 2050 on. -/
theorem asn1FromTime_eq (time : ℤ)
    (hy : 1950 ≤ (DateTime.ofPosix time).year ∧ (DateTime.ofPosix time).year ≤ 9999) :
    asn1FromTime time asn1Utctime =
      asn1SimpleObject (if (DateTime.ofPosix time).year < 2050 then asn1Utctime else asn1Generalizedtime)
        (bytesOf (timeText (if (DateTime.ofPosix time).year < 2050 then asn1Utctime else asn1Generalizedtime)
          (DateTime.ofPosix time) true .utc)) := by
  unfold asn1FromTime gmtime
  dsimp only
  generalize DateTime.ofPosix time = t at hy ⊢
  obtain ⟨hm, hd, hh, hmin, hs⟩ := two_digit_fields t
  -- every field but the year is printed as it is read
  have hbuf : ∀ (type : UInt8) (yearText : List Char),
      yearText = (if type = asn1Utctime then padded 2 (t.year % 100).toNat else padded 4 t.year.toNat) →
      (yearText ++ printInt 2 (t.month - 1 + 1) ++ printInt 2 t.day ++ printInt 2 t.hour ++ printInt 2 t.minute ++
        printInt 2 t.second ++ ['Z']).take (bufLen - 1) = timeText type t true .utc := by
    intro type yearText hyear
    have htext : yearText ++ printInt 2 (t.month - 1 + 1) ++ printInt 2 t.day ++ printInt 2 t.hour ++
        printInt 2 t.minute ++ printInt 2 t.second ++ ['Z'] = timeText type t true .utc := by
      rw [Int.sub_add_cancel, printInt_of_nonneg hm.1, printInt_of_nonneg hd.1, printInt_of_nonneg hh.1,
        printInt_of_nonneg hmin.1, printInt_of_nonneg hs.1, hyear]
      simp [timeText, dateText, Zone.text]
    have hlen : (dateText type t true).length = _ := length_dateText ⟨by omega, hy.2⟩
    rw [htext, List.take_of_length_le]
    rw [timeText, List.length_append, hlen, bufLen]
    simp only [Zone.text, List.length_singleton]
    split_ifs <;> omega
  by_cases h2050 : t.year < 2050
  · -- a UTCTIME: the years since 1900, or since 2000 from 2000 on
    have hutc : asn1Utctime ≠ asn1Generalizedtime := by decide
    rw [if_neg (by omega), if_neg hutc, if_neg hutc, if_pos h2050,
      hbuf asn1Utctime _ (by rw [if_pos rfl, printInt_of_nonneg (by split_ifs <;> omega)]; congr 2; split_ifs <;> omega)]
  · rw [if_pos (by omega), if_pos rfl, if_pos rfl, if_neg h2050,
      hbuf asn1Generalizedtime _ (by rw [if_neg (by decide), printInt_of_nonneg (by omega)]; congr 2; omega)]

theorem length_timeText_le (type : UInt8) (t : DateTime) (withSeconds : Bool) (zone : Zone)
    (hy : 1 ≤ t.year ∧ t.year ≤ 9999) : (timeText type t withSeconds zone).length ≤ 19 := by
  have := length_zoneText zone
  rw [timeText, List.length_append, length_dateText hy]
  split_ifs <;> omega

theorem asn1_time_round_trip :
    (∀ (type : UInt8) (t : DateTime) (withSeconds : Bool) (zone : Zone),
      (type = asn1Utctime ∧ 1950 ≤ t.year ∧ t.year ≤ 2049 ∨ type = asn1Generalizedtime ∧ 1 ≤ t.year ∧ t.year ≤ 9999) →
      asn1ToTime 8 (bytesOf (timeText type t withSeconds zone)) type =
        86400 * daysFromCivil t.year t.month t.day + 3600 * t.hour + 60 * t.minute +
          (if withSeconds then t.second else 0) - zone.offset) ∧
    ∀ time : ℤ, 1950 ≤ (DateTime.ofPosix time).year → (DateTime.ofPosix time).year ≤ 9999 →
      ∃ type content, asn1Unwrap (asn1FromTime time asn1Utctime) = some (type, content, []) ∧
        type = (if (DateTime.ofPosix time).year < 2050 then asn1Utctime else asn1Generalizedtime) ∧
        asn1ToTime 8 content type = time := by
  refine ⟨fun type t withSeconds zone htype => asn1ToTime_timeText type t withSeconds zone ?_, ?_⟩
  · rcases htype with ⟨rfl, hy⟩ | ⟨rfl, hy⟩
    · rwa [if_pos rfl]
    · rwa [if_neg (by decide)]
  · intro time hy1 hy2
    have hlen := length_timeText_le (if (DateTime.ofPosix time).year < 2050 then asn1Utctime else asn1Generalizedtime)
      (DateTime.ofPosix time) true .utc ⟨by omega, hy2⟩
    refine ⟨_, bytesOf (timeText (if (DateTime.ofPosix time).year < 2050 then asn1Utctime else asn1Generalizedtime)
      (DateTime.ofPosix time) true .utc), ?_, rfl, ?_⟩
    · rw [asn1FromTime_eq time ⟨hy1, hy2⟩, ← List.append_nil (asn1SimpleObject _ _),
        asn1Unwrap_simpleObject _ (by rw [bytesOf, List.length_map]; omega)]
    · -- the time is written in UTC with its seconds
      have hposix := DateTime.posix_ofPosix time
      have hy : if (if (DateTime.ofPosix time).year < 2050 then asn1Utctime else asn1Generalizedtime) = asn1Utctime
          then 1950 ≤ (DateTime.ofPosix time).year ∧ (DateTime.ofPosix time).year ≤ 2049
          else 1 ≤ (DateTime.ofPosix time).year ∧ (DateTime.ofPosix time).year ≤ 9999 := by
        by_cases h2050 : (DateTime.ofPosix time).year < 2050
        · rw [if_pos h2050, if_pos rfl]
          omega
        · rw [if_neg h2050, if_neg (by decide)]
          omega
      rw [asn1ToTime_timeText _ _ true .utc hy]
      rw [DateTime.posix] at hposix
      simp only [if_true, Zone.offset, Int.sub_zero]
      exact hposix

/-- The time of 2100-03-01 00:00 written at `-0130` without seconds, and the same time
written by `asn1_from_time`, a GENERALIZEDTIME, both read back. -/
theorem asn1_time_round_trip_2100 :
    ((asn1Generalizedtime = asn1Utctime ∧ 1950 ≤ (DateTime.ofPosix 4107542400).year ∧
        (DateTime.ofPosix 4107542400).year ≤ 2049 ∨ asn1Generalizedtime = asn1Generalizedtime ∧
        1 ≤ (DateTime.ofPosix 4107542400).year ∧ (DateTime.ofPosix 4107542400).year ≤ 9999) ∧
      asn1ToTime 8 (bytesOf (timeText asn1Generalizedtime (DateTime.ofPosix 4107542400) false (.minus 1 30)))
        asn1Generalizedtime = 4107542400 + 5400) ∧
    (1950 ≤ (DateTime.ofPosix 4107542400).year ∧ (DateTime.ofPosix 4107542400).year ≤ 9999) ∧
      ∃ type content, asn1Unwrap (asn1FromTime 4107542400 asn1Utctime) = some (type, content, []) ∧
        type = asn1Generalizedtime ∧ asn1ToTime 8 content type = 4107542400 := by
  have hrange : 1950 ≤ (DateTime.ofPosix 4107542400).year ∧ (DateTime.ofPosix 4107542400).year ≤ 9999 := by decide
  have htype : asn1Generalizedtime = asn1Utctime ∧ 1950 ≤ (DateTime.ofPosix 4107542400).year ∧
      (DateTime.ofPosix 4107542400).year ≤ 2049 ∨ asn1Generalizedtime = asn1Generalizedtime ∧
      1 ≤ (DateTime.ofPosix 4107542400).year ∧ (DateTime.ofPosix 4107542400).year ≤ 9999 :=
    Or.inr ⟨rfl, by omega, hrange.2⟩
  have hread := asn1_time_round_trip.1 asn1Generalizedtime (DateTime.ofPosix 4107542400) false (.minus 1 30) htype
  obtain ⟨type, content, hunwrap, hsame, htime⟩ := asn1_time_round_trip.2 4107542400 hrange.1 hrange.2
  refine ⟨⟨htype, by rw [hread]; decide⟩, hrange, type, content, hunwrap, ?_, htime⟩
  rw [hsame, if_neg (by decide)]

end VpnClient.Identity
