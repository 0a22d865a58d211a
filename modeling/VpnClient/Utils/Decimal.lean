import VpnClient.Utils.Codec
import VpnClient.Lib.Bytes
import VpnClient.Lib.Memory
import Mathlib.Data.List.TakeWhile
import Mathlib.Data.Nat.Digits.Defs

/-!
# Decimal text of chunks

`chunk_to_dec` of `utils/chunk.c` reads a chunk as a big-endian number. It divides a
copy of the chunk by ten in place, byte by byte with a `uint16_t` remainder, and writes
each remainder as a digit from the right end of a buffer of `len` digits, until no byte
of the quotient is left; then it moves the digits to the start of the buffer. `len` is
`(int)(2.4083 * (double)chunk.len) + 1`; the product is taken here as the exact number
`24083 * chunk.len / 10000`.

A pass is schoolbook division (`divPass_spec`, over `Lib.Bytes.carried`): the bytes from
`i_bin` on become the quotient, the last remainder is the number modulo ten, and `i_bin`
moves past the quotient's leading zeros. So the loop ends once the quotient is zero,
having written the number's digits (`decLoop_spec`), and `len` digits always suffice
(`pow_lt_pow_decLen`): `chunk_to_dec` is `Nat.toDigits 10` of the chunk's number
(`chunkToDec_eq`).

Lengths are natural numbers here. `chunk.c` keeps `len` and the indices in `int`; they
agree with the model on every chunk below 512 MiB, where `len` stays below `2 ^ 31`.
-/

namespace VpnClient.Utils

open VpnClient.Lib.Bytes VpnClient.Lib.Memory

/-- `len` of `chunk_to_dec`: `(int)(2.4083 * (double)chunk.len) + 1`, with the product
taken exactly. -/
def decLen (n : ℕ) : ℕ := 24083 * n / 10000 + 1

/-- The inner loop of `chunk_to_dec` from `i` on: the bytes of `bin` are divided by
ten in place, `remainder` carried from one byte to the next in a `uint16_t`; `i_bin`
moves past each byte at `i_bin` that becomes zero. -/
def divPass (bin : List UInt8) (i iBin remainder : ℕ) : List UInt8 × ℕ × ℕ :=
  if h : i < bin.length then
    let remainder := (bin[i].toNat + (remainder <<< 8)) % 2 ^ 16
    if remainder < 10 then
      divPass (bin.set i 0) (i + 1) (if i = iBin then iBin + 1 else iBin) bin[i].toNat
    else
      divPass (bin.set i (UInt8.ofNat (remainder / 10))) (i + 1) iBin (remainder % 10)
  else (bin, iBin, remainder)
termination_by bin.length - i
decreasing_by
  all_goals
    rw [List.length_set]
    omega

/-- What a pass leaves from `i` on, for a carry `rem` below ten: the quotient by ten of
the number under the carry, its remainder, and `i_bin`, moved past the quotient's
leading zero bytes where it stood at `i`. -/
structure PassSpec (bin : List UInt8) (i iBin rem : ℕ) (out : List UInt8 × ℕ × ℕ) : Prop where
  length_eq : out.1.length = bin.length
  take_eq : out.1.take i = bin.take i
  value_eq : value (out.1.drop i) = carried rem (bin.drop i) / 10
  rem_eq : out.2.2 = carried rem (bin.drop i) % 10
  iBin_eq : out.2.1 = if iBin < i then iBin else i + ((out.1.drop i).takeWhile (· == 0)).length

theorem drop_eq_cons_of_getElem? {α : Type*} {l : List α} {i : ℕ} {x : α} (h : l[i]? = some x) :
    l.drop i = x :: l.drop (i + 1) := by
  obtain ⟨hi, hx⟩ := List.getElem?_eq_some_iff.mp h
  rw [List.drop_eq_getElem_cons hi, hx]

/-- A pass after the byte at `i`, whose quotient byte is `q`. -/
theorem PassSpec.cons {bin : List UInt8} {i iBin iBin' rem rem' : ℕ} {q : UInt8} {out : List UInt8 × ℕ × ℕ}
    (hi : i < bin.length) (h : PassSpec (bin.set i q) (i + 1) iBin' rem' out)
    (hiBin : iBin' = if iBin < i then iBin else if q = 0 then i + 1 else i)
    (hdiv : carried rem (bin.drop i) / 10 = q.toNat * 256 ^ (bin.length - (i + 1)) + carried rem' (bin.drop (i + 1)) / 10)
    (hmod : carried rem (bin.drop i) % 10 = carried rem' (bin.drop (i + 1)) % 10) :
    PassSpec bin i iBin rem out := by
  have hset := List.drop_set_of_lt (a := q) (l := bin) (Nat.lt_succ_self i)
  have hq : out.1[i]? = some q := by
    rw [← List.getElem?_take_of_lt (Nat.lt_succ_self i), h.take_eq, List.getElem?_take_of_lt (Nat.lt_succ_self i),
      List.getElem?_set_self hi]
  have hdrop := drop_eq_cons_of_getElem? hq
  have hlen : (out.1.drop (i + 1)).length = bin.length - (i + 1) := by
    rw [List.length_drop, h.length_eq, List.length_set]
  refine ⟨by rw [h.length_eq, List.length_set], ?_, ?_, ?_, ?_⟩
  · have htake := congrArg (List.take i) h.take_eq
    rwa [List.take_take, List.take_take, Nat.min_eq_left (Nat.le_succ i), List.take_set_of_le (Nat.le_refl i)]
      at htake
  · rw [hdrop, value_cons, h.value_eq, hset, hlen, hdiv]
  · rw [h.rem_eq, hset, hmod]
  · rw [h.iBin_eq, hiBin, hdrop]
    by_cases hlt : iBin < i
    · simp [hlt, show iBin < i + 1 by omega]
    · by_cases hq0 : q = 0
      · simp [hlt, hq0]
        omega
      · simp [hlt, hq0]

/-- The `uint16_t` remainder never wraps: a carry below ten and a byte make at most `2559`. -/
theorem remainder_no_wrap (b : UInt8) {rem : ℕ} (hrem : rem < 10) :
    (b.toNat + (rem <<< 8)) % 2 ^ 16 = rem * 256 + b.toNat := by
  have hb := b.toNat_lt
  rw [Nat.shiftLeft_eq]
  omega

/-- **A pass is schoolbook division by ten** of the bytes from `i` on, under the carry. -/
theorem divPass_spec (bin : List UInt8) (i iBin rem : ℕ) (hi : i ≤ bin.length) (hiBin : iBin ≤ i)
    (hrem : rem < 10) : PassSpec bin i iBin rem (divPass bin i iBin rem) := by
  induction bin, i, iBin, rem using divPass.induct with
  | case1 bin i iBin rem h r hr ih =>
    -- the carry and the byte are below ten: the quotient byte is zero, the byte the remainder
    have hsum := remainder_no_wrap bin[i] hrem
    simp only [r, hsum] at hr
    rw [divPass, dif_pos h]
    simp only [hsum, if_pos hr]
    have hs := ih (by rw [List.length_set]; omega) (by split_ifs <;> omega) (by omega)
    have hcons := carried_drop rem h
    refine hs.cons (q := 0) h (by rw [if_pos rfl]; split_ifs <;> omega) ?_ ?_
    · rw [hcons, show rem * 256 + bin[i].toNat = bin[i].toNat by omega]
      simp
    · rw [hcons, show rem * 256 + bin[i].toNat = bin[i].toNat by omega]
  | case2 bin i iBin rem h r hr ih =>
    -- a quotient byte of at least one, below `256` as the carry is below ten
    have hb := bin[i].toNat_lt
    have hsum := remainder_no_wrap bin[i] hrem
    simp only [r, hsum] at hr
    rw [divPass, dif_pos h]
    simp only [hsum, if_neg hr]
    have hs := ih (by rw [List.length_set]; omega) (by omega) (Nat.mod_lt _ (by decide))
    simp only [r, hsum] at hs
    have hcons := carried_drop rem h
    have hq : (UInt8.ofNat ((rem * 256 + bin[i].toNat) / 10)).toNat = (rem * 256 + bin[i].toNat) / 10 := by
      rw [UInt8.toNat_ofNat']
      omega
    have hq0 : UInt8.ofNat ((rem * 256 + bin[i].toNat) / 10) ≠ 0 := by
      rw [Ne, ← UInt8.toNat_inj, hq, UInt8.toNat_zero]
      omega
    have hdm := carried_div_mod (d := 10) (by decide) (rem * 256 + bin[i].toNat) (bin.drop (i + 1))
    refine hs.cons h (by simp only [hq0, if_false]; split_ifs <;> omega) ?_ ?_
    · rw [hcons, hdm.1, hq, List.length_drop]
    · rw [hcons, hdm.2]
  | case3 bin i iBin rem h =>
    have hlen : i = bin.length := by omega
    subst hlen
    rw [divPass, dif_neg h]
    refine ⟨rfl, rfl, ?_, ?_, ?_⟩
    · simp [Nat.div_eq_of_lt hrem]
    · simp [Nat.mod_eq_of_lt hrem]
    · split_ifs with hlt
      · rfl
      · simp only [List.drop_length, List.takeWhile_nil, List.length_nil, Nat.add_zero]
        omega

/-- A whole pass from `i_bin`: the number from `i_bin` on becomes its quotient by ten,
whose leading zero bytes `i_bin` moves past, so that bytes are left exactly while the
quotient is not zero; the remainder is the last digit. -/
theorem divPass_from (bin : List UInt8) {iBin : ℕ} (h : iBin ≤ bin.length) :
    (divPass bin iBin iBin 0).1.length = bin.length ∧ iBin ≤ (divPass bin iBin iBin 0).2.1 ∧
      (divPass bin iBin iBin 0).2.1 ≤ bin.length ∧
      value ((divPass bin iBin iBin 0).1.drop (divPass bin iBin iBin 0).2.1) = value (bin.drop iBin) / 10 ∧
      (divPass bin iBin iBin 0).2.2 = value (bin.drop iBin) % 10 ∧
      ((divPass bin iBin iBin 0).2.1 < bin.length ↔ 0 < value (bin.drop iBin) / 10) := by
  have hs := divPass_spec bin iBin iBin 0 h (Nat.le_refl _) (by decide)
  set out := divPass bin iBin iBin 0
  have hiBin : out.2.1 = iBin + ((out.1.drop iBin).takeWhile (· == 0)).length := by
    rw [hs.iBin_eq, if_neg (Nat.lt_irrefl _)]
  have hq : value (out.1.drop iBin) = value (bin.drop iBin) / 10 := by rw [hs.value_eq, carried_zero]
  -- from `i_bin` on, the quotient's leading zeros and then the rest of it
  have hsplit := List.takeWhile_append_dropWhile (p := (· == (0 : UInt8))) (l := out.1.drop iBin)
  have hlenq : (out.1.drop iBin).length = bin.length - iBin := by rw [List.length_drop, hs.length_eq]
  have hrest : out.1.drop out.2.1 = (out.1.drop iBin).dropWhile (· == 0) := by
    rw [hiBin, ← List.drop_drop]
    conv_lhs => arg 2; rw [← hsplit]
    exact List.drop_left
  have htw := congrArg List.length hsplit
  rw [List.length_append, hlenq] at htw
  have hall : (∀ b ∈ out.1.drop iBin, b = 0) ↔ ((out.1.drop iBin).dropWhile (· == 0)).length = 0 := by
    rw [List.length_eq_zero_iff, List.dropWhile_eq_nil_iff]
    simp only [beq_iff_eq]
  refine ⟨hs.length_eq, by omega, by omega, by rw [hrest, value_dropWhile_zero, hq], by rw [hs.rem_eq, carried_zero], ?_⟩
  rw [← hq, Nat.pos_iff_ne_zero, Ne, value_eq_zero_iff, hall]
  constructor <;> intro <;> omega

/-- A pass from `i_bin` leaves less to do: the number is divided by ten, or, where it
was zero already, no byte is left. -/
theorem divPass_decreases {bin : List UInt8} {iBin : ℕ} (h : iBin < bin.length) :
    value ((divPass bin iBin iBin 0).1.drop (divPass bin iBin iBin 0).2.1) +
        ((divPass bin iBin iBin 0).1.length - (divPass bin iBin iBin 0).2.1) <
      value (bin.drop iBin) + (bin.length - iBin) := by
  obtain ⟨hlen, hle, -, hval, -, hleft⟩ := divPass_from bin h.le
  rw [hval, hlen]
  by_cases hq : 0 < value (bin.drop iBin) / 10
  · omega
  · have := hleft.not.mpr hq
    omega

/-- The outer loop of `chunk_to_dec`: while bytes are left from `i_bin` on, a pass
divides them by ten and its remainder is written as a digit before `i_buf`. -/
def decLoop (bin : List UInt8) (iBin iBuf : ℕ) (buf : List Char) : List Char × ℕ :=
  if h : iBin < bin.length then
    let pass := divPass bin iBin iBin 0
    if iBuf > 0 then decLoop pass.1 pass.2.1 (iBuf - 1) (buf.set (iBuf - 1) (Char.ofNat (0x30 + pass.2.2)))
    else decLoop pass.1 pass.2.1 iBuf buf
  else (buf, iBuf)
termination_by value (bin.drop iBin) + (bin.length - iBin)
decreasing_by all_goals exact divPass_decreases h

/-- The digit `0x30 + remainder` that `chunk_to_dec` writes. -/
theorem ofNat_add_0x30 : ∀ r < 10, Char.ofNat (0x30 + r) = Nat.digitChar r := by decide

/-- The digits of a number from ten on are those of its quotient by ten, then its last. -/
theorem toDigits_ten_of_le {v : ℕ} (hv : 10 ≤ v) :
    Nat.toDigits 10 v = Nat.toDigits 10 (v / 10) ++ [Nat.digitChar (v % 10)] := by
  rw [← Nat.toDigits_of_lt_base (Nat.mod_lt v (by decide)),
    Nat.toDigits_append_toDigits (by decide) (by omega) (Nat.mod_lt v (by decide)), Nat.div_add_mod]

/-- **The outer loop writes the digits** of the number left from `i_bin` on, right
before `i_buf`, where they fit, and leaves the buffer from `i_buf` on as it was. -/
theorem decLoop_spec (bin : List UInt8) (iBin iBuf : ℕ) (buf : List Char) (hbin : iBin < bin.length)
    (hroom : (Nat.toDigits 10 (value (bin.drop iBin))).length ≤ iBuf) (hbuf : iBuf ≤ buf.length) :
    (decLoop bin iBin iBuf buf).2 = iBuf - (Nat.toDigits 10 (value (bin.drop iBin))).length ∧
      Stored (decLoop bin iBin iBuf buf).1 (iBuf - (Nat.toDigits 10 (value (bin.drop iBin))).length)
        (Nat.toDigits 10 (value (bin.drop iBin))) ∧
      ∀ k, iBuf ≤ k → (decLoop bin iBin iBuf buf).1[k]? = buf[k]? := by
  induction bin, iBin, iBuf, buf using decLoop.induct with
  | case1 bin iBin iBuf buf h pass hpos ih =>
    obtain ⟨hlen, -, -, hval, hrem, hleft⟩ := divPass_from bin h.le
    have hc : Char.ofNat (0x30 + pass.2.2) = Nat.digitChar (value (bin.drop iBin) % 10) := by
      rw [hrem]
      exact ofNat_add_0x30 _ (Nat.mod_lt _ (by decide))
    have hset : (buf.set (iBuf - 1) (Char.ofNat (0x30 + pass.2.2)))[iBuf - 1]? =
        some (Nat.digitChar (value (bin.drop iBin) % 10)) := by
      rw [List.getElem?_set_self (by omega), hc]
    rw [decLoop, dif_pos h, if_pos hpos]
    by_cases hq : 0 < value (bin.drop iBin) / 10
    · -- more digits to come: the last one is written at `i_buf - 1`, the others before it
      have hD := toDigits_ten_of_le (v := value (bin.drop iBin)) (by omega)
      rw [hD, List.length_append, List.length_singleton] at hroom ⊢
      obtain ⟨hi, hst, hframe⟩ := ih (by rw [hlen]; exact hleft.mpr hq) (by rw [hval]; omega)
        (by rw [List.length_set]; omega)
      rw [hval] at hi hst
      refine ⟨by rw [hi]; omega, ?_, fun k hk => ?_⟩
      · rw [stored_append, stored_singleton]
        refine ⟨by rwa [show iBuf - ((Nat.toDigits 10 (value (bin.drop iBin) / 10)).length + 1) =
            iBuf - 1 - (Nat.toDigits 10 (value (bin.drop iBin) / 10)).length by omega], ?_⟩
        rw [show iBuf - ((Nat.toDigits 10 (value (bin.drop iBin) / 10)).length + 1) +
            (Nat.toDigits 10 (value (bin.drop iBin) / 10)).length = iBuf - 1 by omega, hframe _ (Nat.le_refl _), hset]
      · rw [hframe k (by omega), List.getElem?_set_ne (by omega)]
    · -- the last digit: no byte of the quotient is left
      have hdone : ¬pass.2.1 < pass.1.length := by rw [hlen]; exact hleft.not.mpr hq
      have hD : Nat.toDigits 10 (value (bin.drop iBin)) = [Nat.digitChar (value (bin.drop iBin) % 10)] := by
        rw [Nat.mod_eq_of_lt (by omega), Nat.toDigits_of_lt_base (by omega)]
      rw [decLoop, dif_neg hdone, hD]
      refine ⟨rfl, stored_singleton.mpr hset, fun k hk => List.getElem?_set_ne (by omega)⟩
  | case2 bin iBin iBuf buf h pass hpos ih =>
    -- no room is left for the digits, which are never none
    have := List.length_pos_of_ne_nil (Nat.toDigits_ne_nil (n := value (bin.drop iBin)) (b := 10))
    omega
  | case3 bin iBin iBuf buf h => exact absurd hbin h

/-- `chunk_to_dec`. -/
def chunkToDec (chunk : List UInt8) : List Char :=
  let len := decLen chunk.length
  -- `bin` is a copy of the chunk; of the buffer only the digits written are read
  let (buf, iBuf) := decLoop chunk 0 len (List.replicate (len + 1) '\x00')
  -- align decimal number to the start of the string
  if iBuf > 0 then (buf.drop iBuf).take (len - iBuf) else buf.take len

/-- `len` digits hold every number of `n` bytes: `256 ^ n < 10 ^ len`, as
`256 ^ 10000 ≤ 10 ^ 24083` and `len` exceeds `2.4083 n`. -/
theorem pow_lt_pow_decLen (n : ℕ) : 256 ^ n < 10 ^ decLen n := by
  have hbase : 256 ^ 10000 ≤ 10 ^ 24083 := by decide +kernel
  have hlen : 24083 * n < 10000 * decLen n := by
    unfold decLen
    omega
  rw [← Nat.pow_lt_pow_iff_left (n := 10000) (by decide)]
  calc (256 ^ n) ^ 10000 = (256 ^ 10000) ^ n := by rw [← pow_mul, ← pow_mul, Nat.mul_comm]
    _ ≤ (10 ^ 24083) ^ n := Nat.pow_le_pow_left hbase n
    _ = 10 ^ (24083 * n) := by rw [← pow_mul]
    _ < 10 ^ (10000 * decLen n) := Nat.pow_lt_pow_right (by decide) hlen
    _ = (10 ^ decLen n) ^ 10000 := by rw [← pow_mul, Nat.mul_comm]

/-- **`chunk_to_dec` writes the decimal digits** of the chunk's big-endian number, and
nothing for the empty chunk. -/
theorem chunkToDec_eq (chunk : List UInt8) :
    chunkToDec chunk = if chunk = [] then [] else Nat.toDigits 10 (value chunk) := by
  split_ifs with hnil
  · -- no pass at all: `i_buf` stays at `len`, and nothing is moved to the start
    subst hnil
    have hloop : decLoop [] 0 (decLen 0) (List.replicate (decLen 0 + 1) '\x00') =
        (List.replicate (decLen 0 + 1) '\x00', decLen 0) := by
      rw [decLoop, dif_neg (show ¬0 < ([] : List UInt8).length from Nat.lt_irrefl 0)]
    simp only [chunkToDec, List.length_nil, hloop]
    simp [decLen]
  · have hpos : 0 < chunk.length := List.length_pos_of_ne_nil hnil
    have hroom : (Nat.toDigits 10 (value chunk)).length ≤ decLen chunk.length :=
      Nat.toDigits_length 10 _ _ (by unfold decLen; omega)
        ((value_lt chunk).trans (pow_lt_pow_decLen chunk.length))
    obtain ⟨hi, hst, -⟩ := decLoop_spec chunk 0 (decLen chunk.length) (List.replicate (decLen chunk.length + 1) '\x00')
      hpos hroom (by simp)
    rw [List.drop_zero] at hi hst
    simp only [chunkToDec, hi]
    split_ifs with hgap
    · rw [show decLen chunk.length - (decLen chunk.length - (Nat.toDigits 10 (value chunk)).length) =
          (Nat.toDigits 10 (value chunk)).length by omega]
      exact hst.drop_take
    · have hlenEq : decLen chunk.length = (Nat.toDigits 10 (value chunk)).length := by omega
      rw [show decLen chunk.length - (Nat.toDigits 10 (value chunk)).length = 0 by omega] at hst
      have htake := hst.take_eq
      rw [← hlenEq] at htake
      exact htake

/-- **Round trips of the text codecs**: base64 and hex, plain, joined by `:` or behind
`0x`, read back every chunk, and `chunk_to_dec` writes its number in decimal. -/
theorem text_codecs_round_trip (c : List UInt8) :
    chunkFromBase64 (chunkToBase64 c) = c ∧
      (∀ uppercase : Bool, chunkFromHex (chunkToHex c uppercase) = c ∧ chunkFromHex (colonHex c uppercase) = c ∧
        chunkFromHex ('0' :: 'x' :: chunkToHex c uppercase) = c) ∧
      chunkToDec c = if c = [] then [] else Nat.toDigits 10 (value c) :=
  ⟨chunkFromBase64_chunkToBase64 c,
    fun uppercase => ⟨chunkFromHex_chunkToHex uppercase c, chunkFromHex_colonHex uppercase c,
      chunkFromHex_prefixHex uppercase c⟩,
    chunkToDec_eq c⟩

end VpnClient.Utils
