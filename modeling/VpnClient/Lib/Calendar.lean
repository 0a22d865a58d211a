import Mathlib

/-!
# The proleptic Gregorian calendar

Days are counted from 1970-01-01, the POSIX epoch. `daysFromCivil` and `civilFromDays` are
the conversions of H. Hinnant's `chrono`-compatible date algorithms: a year is taken to
start on the first of March, so that the leap day is the last day of its year, and years
are grouped in eras of 400 years, which all have 146097 days.

The conversions are inverse to each other (`daysFromCivil_civilFromDays`), and
`civilFromDays` gives a valid date (`civilFromDays_valid`). `daysFromCivil_eq` counts the
same days the way a program usually does: the days of the years since 1970, the leap days
before the year and the days of the year before the date.
-/

namespace VpnClient.Lib.Calendar

/-! ## Months and years -/

/-- A leap year of the Gregorian calendar. -/
def IsLeap (y : ℤ) : Prop := y % 4 = 0 ∧ (y % 100 ≠ 0 ∨ y % 400 = 0)

instance : DecidablePred IsLeap := fun _ => inferInstanceAs (Decidable (_ ∧ _))

/-- The lengths of the months of a common year. -/
def commonMonths : List ℤ := [31, 28, 31, 30, 31, 30, 31, 31, 30, 31, 30, 31]

/-- The days of month `m` of year `y`. -/
def daysInMonth (y m : ℤ) : ℤ :=
  commonMonths.getD (m - 1).toNat 0 + if m = 2 ∧ IsLeap y then 1 else 0

/-- The days of year `y` before the first of month `m`. -/
def daysBeforeMonth (y m : ℤ) : ℤ :=
  (commonMonths.take (m - 1).toNat).sum + if 2 < m ∧ IsLeap y then 1 else 0

/-- The leap years from year 1 to year `n`, for `n ≥ 0`. -/
def leapsTo (n : ℤ) : ℤ := n / 4 - n / 100 + n / 400

/-- The leap years before a year are those before the year before, and that year if it
is one. -/
theorem leapsTo_eq_sub_one (y : ℤ) : leapsTo y = leapsTo (y - 1) + if IsLeap y then 1 else 0 := by
  unfold leapsTo IsLeap
  split_ifs <;> omega

/-! ## Hinnant's conversions -/

/-- The day of its era on which the year `yoe` of an era starts. -/
def startOfYear (yoe : ℤ) : ℤ := 365 * yoe + yoe / 4 - yoe / 100

/-- The year of an era in which its day `doe` lies: the leap days before it are
subtracted, `doe / 1460` of them in the four-year cycles, less one per century, more one
at the end of the era. -/
def yearOfEra (doe : ℤ) : ℤ := (doe - doe / 1460 + doe / 36524 - doe / 146096) / 365

/-- The day of the year, counted from the first of March, on which month `mp` starts,
`mp = 0` for March; the month lengths from March on repeat `31, 30, 31, 30, 31` with a
period of 153 days. -/
def startOfMonth (mp : ℤ) : ℤ := (153 * mp + 2) / 5

/-- The month, from March, in which day `doy` of a year from March lies. -/
def monthOfYear (doy : ℤ) : ℤ := (5 * doy + 2) / 153

/-- `days_from_civil`: the day of a date, counted from 1970-01-01. -/
def daysFromCivil (y m d : ℤ) : ℤ :=
  -- the year from March that the date lies in
  let y := if m ≤ 2 then y - 1 else y
  -- `/` is the floor division, which Hinnant's code spells out for negative years
  let era := y / 400
  let yoe := y - era * 400
  let doy := startOfMonth (if m > 2 then m - 3 else m + 9) + d - 1
  era * 146097 + (startOfYear yoe + doy) - 719468

/-- `civil_from_days`: the date of a day counted from 1970-01-01. -/
def civilFromDays (z : ℤ) : ℤ × ℤ × ℤ :=
  let z := z + 719468
  let era := z / 146097
  let doe := z - era * 146097
  let yoe := yearOfEra doe
  let doy := doe - startOfYear yoe
  let mp := monthOfYear doy
  let d := doy - startOfMonth mp + 1
  let m := if mp < 10 then mp + 3 else mp - 9
  (if m ≤ 2 then yoe + era * 400 + 1 else yoe + era * 400, m, d)

/-! ## The year of an era -/

/-- **The year of a day of an era.** `yearOfEra` gives a year of the era, the day lies in
it, and the day can be the 366th of that year only when the year is followed by a leap
year (the year from March holds the leap day of the next calendar year). -/
theorem yearOfEra_spec {doe : ℤ} (h0 : 0 ≤ doe) (h1 : doe ≤ 146096) :
    0 ≤ yearOfEra doe ∧ yearOfEra doe ≤ 399 ∧ startOfYear (yearOfEra doe) ≤ doe ∧
      doe - startOfYear (yearOfEra doe) ≤ 365 ∧
      (doe - startOfYear (yearOfEra doe) = 365 →
        (yearOfEra doe + 1) % 4 = 0 ∧ ((yearOfEra doe + 1) % 100 ≠ 0 ∨ yearOfEra doe = 399)) := by
  rcases Int.lt_or_eq_of_le h1 with h1 | rfl
  · -- centuries, four-year cycles and the days left of the era
    obtain ⟨p, q, r, hdoe, hp0, hp3, hq0, hr0, hr, hqr⟩ : ∃ p q r : ℤ, doe = 36524 * p + 1461 * q + r ∧
        0 ≤ p ∧ p ≤ 3 ∧ 0 ≤ q ∧ 0 ≤ r ∧ r ≤ 1460 ∧ 1461 * q + r < 36524 :=
      ⟨doe / 36524, doe % 36524 / 1461, doe % 36524 % 1461, by omega, by omega, by omega, by omega, by omega,
        by omega, by omega⟩
    have hf : doe / 36524 = p := by omega
    have hg : doe / 146096 = 0 := by omega
    have he : doe / 1460 = 25 * p + q + (24 * p + q + r) / 1460 := by omega
    -- the year is `100 p + 4 q + s`, with `s` the year of the four-year cycle
    have hs : yearOfEra doe = 100 * p + 4 * q + (r - (24 * p + q + r) / 1460) / 365 := by
      rw [yearOfEra, hf, hg, he]
      omega
    have hs3 : 0 ≤ (r - (24 * p + q + r) / 1460) / 365 ∧ (r - (24 * p + q + r) / 1460) / 365 ≤ 3 ∧
        365 * ((r - (24 * p + q + r) / 1460) / 365) ≤ r ∧
        r - 365 * ((r - (24 * p + q + r) / 1460) / 365) ≤ 365 ∧
        (r - 365 * ((r - (24 * p + q + r) / 1460) / 365) = 365 → r = 1460) := by
      omega
    generalize (r - (24 * p + q + r) / 1460) / 365 = s at hs hs3
    have h4 : yearOfEra doe / 4 = 25 * p + q := by omega
    have h100 : yearOfEra doe / 100 = p := by omega
    rw [startOfYear, h4, h100]
    omega
  · decide

/-! ## The month of a year from March -/

/-- **The month of a day of a year from March**: one of the twelve, and the day lies in
it. -/
theorem monthOfYear_spec {doy : ℤ} (h0 : 0 ≤ doy) (h1 : doy ≤ 365) :
    0 ≤ monthOfYear doy ∧ monthOfYear doy ≤ 11 ∧ startOfMonth (monthOfYear doy) ≤ doy ∧
      doy < startOfMonth (monthOfYear doy + 1) := by
  unfold monthOfYear startOfMonth
  omega

/-! ## Round trip -/

/-- **`civilFromDays` inverts `daysFromCivil`.** -/
theorem daysFromCivil_civilFromDays {z y m d : ℤ} (h : civilFromDays z = (y, m, d)) :
    daysFromCivil y m d = z := by
  simp only [civilFromDays, Prod.mk.injEq] at h
  obtain ⟨hy, hm, hd⟩ := h
  generalize hera : (z + 719468) / 146097 = era at hy hm hd
  generalize hdoe : z + 719468 - era * 146097 = doe at hy hm hd
  have hdoe0 : 0 ≤ doe ∧ doe ≤ 146096 := by omega
  obtain ⟨hyoe0, hyoe1, hstart, hlen, -⟩ := yearOfEra_spec hdoe0.1 hdoe0.2
  generalize hyoe : yearOfEra doe = yoe at hy hm hd hyoe0 hyoe1 hstart hlen
  have hdoy : 0 ≤ doe - startOfYear yoe := by omega
  obtain ⟨hmp0, hmp1, -, -⟩ := monthOfYear_spec hdoy hlen
  generalize monthOfYear (doe - startOfYear yoe) = mp at hy hm hd hmp0 hmp1
  -- the year from March and the month from March come back
  have hyear : (if m ≤ 2 then y - 1 else y) = yoe + era * 400 := by split_ifs at hy ⊢ <;> omega
  have hmonth : (if m > 2 then m - 3 else m + 9) = mp := by split_ifs <;> omega
  have hera' : (yoe + era * 400) / 400 = era := by omega
  rw [daysFromCivil, hyear, hera', hmonth, Int.add_sub_cancel]
  omega

/-! ## Valid dates -/

/-- The months from March to January have the lengths of a common year. -/
theorem startOfMonth_succ_sub {mp : ℤ} (h0 : 0 ≤ mp) (h1 : mp ≤ 10) :
    startOfMonth (mp + 1) - startOfMonth mp =
      commonMonths.getD ((if mp < 10 then mp + 3 else mp - 9) - 1).toNat 0 := by
  obtain ⟨k, rfl⟩ := Int.eq_ofNat_of_zero_le h0
  have hk : k < 11 := by omega
  clear h0 h1
  revert k
  decide

/-- **`civilFromDays` gives a valid date.** -/
theorem civilFromDays_valid {z y m d : ℤ} (h : civilFromDays z = (y, m, d)) :
    1 ≤ m ∧ m ≤ 12 ∧ 1 ≤ d ∧ d ≤ daysInMonth y m := by
  simp only [civilFromDays, Prod.mk.injEq] at h
  obtain ⟨hy, hm, hd⟩ := h
  generalize hera : (z + 719468) / 146097 = era at hy hm hd
  generalize hdoe : z + 719468 - era * 146097 = doe at hy hm hd
  have hdoe0 : 0 ≤ doe ∧ doe ≤ 146096 := by omega
  obtain ⟨hyoe0, hyoe1, hstart, hlen, hleap⟩ := yearOfEra_spec hdoe0.1 hdoe0.2
  generalize hyoe : yearOfEra doe = yoe at hy hm hd hyoe0 hyoe1 hstart hlen hleap
  have hdoy : 0 ≤ doe - startOfYear yoe := by omega
  obtain ⟨hmp0, hmp1, hlo, hhi⟩ := monthOfYear_spec hdoy hlen
  generalize monthOfYear (doe - startOfYear yoe) = mp at hy hm hd hmp0 hmp1 hlo hhi
  refine ⟨by split_ifs at hm <;> omega, by split_ifs at hm <;> omega, by omega, ?_⟩
  unfold daysInMonth
  rcases (show mp ≤ 10 ∨ mp = 11 by omega) with hmp | rfl
  · -- March to January: no leap day
    have hlen := startOfMonth_succ_sub hmp0 hmp
    rw [hm] at hlen
    rw [← hlen, if_neg (by split_ifs at hm <;> omega)]
    omega
  · -- February of the year after the year from March
    have hfeb : startOfMonth 11 = 337 ∧ commonMonths.getD ((11 : ℤ) - 9 - 1).toNat 0 = 28 := by decide
    simp only [show ¬(11 : ℤ) < 10 by decide, if_false] at hm hy
    subst hm
    rw [if_pos (by decide)] at hy
    rw [hfeb.2]
    by_cases h365 : doe - startOfYear yoe = 365
    · have hleap : IsLeap y := by
        obtain ⟨h4, h100⟩ := hleap h365
        unfold IsLeap
        omega
      rw [if_pos ⟨by decide, hleap⟩]
      omega
    · split_ifs <;> omega

/-! ## Days counted year by year -/

/-- The days of the eras before a year and of the years of its era before it are the days
of all years from year 0 on, with their leap days. -/
theorem era_days (y : ℤ) : y / 400 * 146097 + startOfYear (y - y / 400 * 400) = 365 * y + leapsTo y := by
  unfold startOfYear leapsTo
  omega

/-- The months from March, counted in days from the first of March, are those of a
common year shifted by January and February. -/
theorem startOfMonth_eq {m : ℤ} (h1 : 1 ≤ m) (h12 : m ≤ 12) :
    startOfMonth (if m > 2 then m - 3 else m + 9) =
      (commonMonths.take (m - 1).toNat).sum + if m > 2 then -59 else 306 := by
  obtain ⟨k, rfl⟩ : ∃ k : ℕ, m = k + 1 := ⟨(m - 1).toNat, by omega⟩
  have hk : k < 12 := by omega
  clear h1 h12
  revert k
  decide

theorem leapsTo_1969 : leapsTo 1969 = 477 := by decide

/-- **Days counted year by year**: the days of the years from 1970 to the date's, the leap
days of the years between, and the days of its year before it. -/
theorem daysFromCivil_eq {y m d : ℤ} (h1 : 1 ≤ m) (h12 : m ≤ 12) :
    daysFromCivil y m d = 365 * (y - 1970) + (leapsTo (y - 1) - leapsTo 1969) + daysBeforeMonth y m + (d - 1) := by
  have hmonth := startOfMonth_eq h1 h12
  have hleap := leapsTo_eq_sub_one y
  have hera := era_days (if m ≤ 2 then y - 1 else y)
  rw [daysFromCivil, hmonth, daysBeforeMonth, leapsTo_1969, ite_and]
  split_ifs at hera hleap ⊢ <;> omega

/-- A year has at most 366 days before a month. -/
theorem daysBeforeMonth_mem (y m : ℤ) : 0 ≤ daysBeforeMonth y m ∧ daysBeforeMonth y m ≤ 366 := by
  have htake : ∀ k < 13, 0 ≤ (commonMonths.take k).sum ∧ (commonMonths.take k).sum ≤ 365 := by decide
  have hmonths : 0 ≤ (commonMonths.take (m - 1).toNat).sum ∧ (commonMonths.take (m - 1).toNat).sum ≤ 365 := by
    rcases Nat.lt_or_ge (m - 1).toNat 13 with hk | hk
    · exact htake _ hk
    · rw [List.take_of_length_le (Nat.le_trans (by decide) hk)]
      exact htake 12 (by decide)
  unfold daysBeforeMonth
  split_ifs <;> omega

/-! ## Dates and times of day -/

/-- A date of the proleptic Gregorian calendar and a time of day in UTC, to the second. -/
structure DateTime where
  year : ℤ
  month : ℤ
  day : ℤ
  hour : ℤ
  minute : ℤ
  second : ℤ
  month_mem : 1 ≤ month ∧ month ≤ 12
  day_mem : 1 ≤ day ∧ day ≤ daysInMonth year month
  hour_mem : 0 ≤ hour ∧ hour ≤ 23
  minute_mem : 0 ≤ minute ∧ minute ≤ 59
  second_mem : 0 ≤ second ∧ second ≤ 59

namespace DateTime

/-- POSIX time: the seconds since 1970-01-01 00:00:00 UTC, with no leap seconds. -/
def posix (t : DateTime) : ℤ :=
  86400 * daysFromCivil t.year t.month t.day + 3600 * t.hour + 60 * t.minute + t.second

/-- The date and time of day of a POSIX time. -/
def ofPosix (s : ℤ) : DateTime where
  year := (civilFromDays (s / 86400)).1
  month := (civilFromDays (s / 86400)).2.1
  day := (civilFromDays (s / 86400)).2.2
  hour := s % 86400 / 3600
  minute := s % 3600 / 60
  second := s % 60
  month_mem := ⟨(civilFromDays_valid rfl).1, (civilFromDays_valid rfl).2.1⟩
  day_mem := (civilFromDays_valid rfl).2.2
  hour_mem := by omega
  minute_mem := by omega
  second_mem := by omega

/-- **A POSIX time is the time of its date and time of day.** -/
theorem posix_ofPosix (s : ℤ) : (ofPosix s).posix = s := by
  have hdays := daysFromCivil_civilFromDays (z := s / 86400) (y := (civilFromDays (s / 86400)).1)
    (m := (civilFromDays (s / 86400)).2.1) (d := (civilFromDays (s / 86400)).2.2) rfl
  rw [posix, ofPosix]
  dsimp only
  rw [hdays]
  omega

end DateTime

/-- No month has more than 31 days. -/
theorem daysInMonth_le (y m : ℤ) : daysInMonth y m ≤ 31 := by
  have hcommon : ∀ k < 12, commonMonths.getD k 0 + (if k = 1 then 1 else 0) ≤ 31 := by decide
  unfold daysInMonth
  rcases Nat.lt_or_ge (m - 1).toNat 12 with hk | hk
  · have := hcommon _ hk
    split_ifs at this ⊢ <;> omega
  · have hlen : commonMonths.length ≤ (m - 1).toNat := hk
    rw [List.getD_eq_getElem?_getD, List.getElem?_eq_none hlen, Option.getD_none]
    split_ifs <;> omega

/-- The day of a date is at most the 31st. -/
theorem DateTime.day_le (t : DateTime) : t.day ≤ 31 := Int.le_trans t.day_mem.2 (daysInMonth_le t.year t.month)

end VpnClient.Lib.Calendar
