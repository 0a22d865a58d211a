import VpnClient.Lib.Bytes
import Mathlib.Data.Prod.Lex

/-!
# `IPRange`

`org.perfectprivacy.android.utils.IPRange`, the range of addresses the Android
frontend computes its routes with. A range is its first and last address, as the
byte arrays `InetAddress.getAddress` returns (4 bytes for IPv4, 16 for IPv6), and
the prefix length cached when the range happens to be a proper subnet.

The methods are translated one by one, loops as structural recursions over the
bytes: `compareAddr`'s scan, the carry loops of `inc` and `dec`, and
`determinePrefix`'s scan over every bit under `mBitmask`. `toSubnets` has its own
module (`Android/Subnets.lean`).

The second half of the file reads the byte-level code numerically through
`Bytes.value`: `compareAddr` is the order of `(length, value)` pairs
(`compareAddr_eq_compare`), and at a fixed length `inc` and `dec` add and subtract
one modulo `256 ^ length` (`value_inc`, `value_dec`). Everything later about
ranges is proved from these three facts and never unfolds the loops again.
-/

namespace VpnClient.Android

open VpnClient.Lib

/-- An `IPRange`: `mFrom` and `mTo` are the first and last address, `mPrefix` the
cached prefix length, `none` (Java `null`) when the range is not a proper subnet. -/
structure IPRange where
  mFrom : List UInt8
  mTo : List UInt8
  mPrefix : Option Nat
  deriving DecidableEq, Repr

namespace IPRange

/-! ## 1. The byte-level code -/

/-- `mBitmask`: the masks of the bits of a byte, most significant first. -/
def mBitmask : List UInt8 := [0x80, 0x40, 0x20, 0x10, 0x08, 0x04, 0x02, 0x01]

/-- The loop of `compareAddr`: the first byte in which the addresses differ
decides, read unsigned (`& 0xff`). -/
def compareBytes : List UInt8 → List UInt8 → Ordering
  | x :: xs, y :: ys =>
    if x ≠ y then (if x.toNat < y.toNat then .lt else .gt) else compareBytes xs ys
  | _, _ => .eq

/-- `compareAddr`: a shorter address (IPv4 before IPv6) comes first; at equal
length the bytes decide. -/
def compareAddr (a b : List UInt8) : Ordering :=
  if a.length ≠ b.length then (if a.length < b.length then .lt else .gt)
  else compareBytes a b

/-- The loop of `inc` over the reversed array: `++addr[i]`, and on to the previous
byte only while the byte wrapped to `0`. -/
def incLoop : List UInt8 → List UInt8
  | [] => []
  | b :: bs => if b + 1 ≠ 0 then (b + 1) :: bs else (b + 1) :: incLoop bs

/-- `inc`: the next address, wrapping from all-ones to zero. -/
def inc (addr : List UInt8) : List UInt8 := (incLoop addr.reverse).reverse

/-- The loop of `dec` over the reversed array: `--addr[i]`, and on to the previous
byte only while the byte wrapped to `0xff`. -/
def decLoop : List UInt8 → List UInt8
  | [] => []
  | b :: bs => if b - 1 ≠ 0xff then (b - 1) :: bs else (b - 1) :: decLoop bs

/-- `dec`: the previous address, wrapping from zero to all-ones. -/
def dec (addr : List UInt8) : List UInt8 := (decLoop addr.reverse).reverse

/-- The masked bit pairs `(mFrom[i] & mBitmask[bit], mTo[i] & mBitmask[bit])` in the
order `determinePrefix` visits them: byte by byte, most significant bit first. -/
def maskedBits (mFrom mTo : List UInt8) : List (UInt8 × UInt8) :=
  (mFrom.zip mTo).flatMap fun (f, t) => mBitmask.map fun m => (f &&& m, t &&& m)

/-- The loop of `determinePrefix` from bit `j` on. While `matching`, the first bit
in which the addresses differ fixes the prefix; after it every bit of `mFrom` must
be `0` and every bit of `mTo` must be `1`, or the range is no subnet (`null`). -/
def determinePrefixLoop : List (UInt8 × UInt8) → Nat → Bool → Option Nat → Option Nat
  | [], _, _, mPrefix => mPrefix
  | (f, t) :: rest, j, matching, mPrefix =>
    if matching then
      if f ≠ t then determinePrefixLoop rest (j + 1) false (some j)
      else determinePrefixLoop rest (j + 1) true mPrefix
    else if f ≠ 0 ∨ t = 0 then none
    else determinePrefixLoop rest (j + 1) false mPrefix

/-- `determinePrefix`: the prefix length when `[mFrom, mTo]` is a proper subnet. It
starts from the full length, the answer when the addresses are equal. -/
def determinePrefix (mFrom mTo : List UInt8) : Option Nat :=
  determinePrefixLoop (maskedBits mFrom mTo) 0 true (some (mFrom.length * 8))

/-- The private constructor `IPRange(byte[] from, byte[] to)`: the bounds as given,
the prefix from `determinePrefix`. -/
def ofBytes (fromAddr toAddr : List UInt8) : IPRange :=
  ⟨fromAddr, toAddr, determinePrefix fromAddr toAddr⟩

/-! ## 2. The methods -/

/-- `compareTo`: by first address, and smaller ranges first. -/
def compareTo (r other : IPRange) : Ordering :=
  match compareAddr r.mFrom other.mFrom with
  | .eq => compareAddr r.mTo other.mTo
  | cmp => cmp

/-- `equals`, between two ranges: `compareTo` answers `0`. -/
def equals (r other : IPRange) : Bool := compareTo r other == .eq

/-- `contains`: `range` lies within `r`. -/
def contains (r range : IPRange) : Bool :=
  (compareAddr r.mFrom range.mFrom).isLE && (compareAddr range.mTo r.mTo).isLE

/-- `overlaps`: neither range ends before the other starts. -/
def overlaps (r range : IPRange) : Bool :=
  !(compareAddr r.mTo range.mFrom == .lt || compareAddr range.mTo r.mFrom == .lt)

/-- `remove`: what is left of `r` once `range` is taken out, at most two ranges. -/
def remove (r range : IPRange) : List IPRange :=
  if !r.overlaps range then [r]
  else if !range.contains r then
    if compareAddr r.mFrom range.mFrom == .lt && compareAddr range.mTo r.mTo == .lt then
      -- `range` lies strictly inside: one piece on either side of it
      [ofBytes r.mFrom (dec range.mFrom), ofBytes (inc range.mTo) r.mTo]
    else
      -- one end of `range` lies inside `r`, the other at or beyond `r`'s end
      let fromAddr := if compareAddr r.mFrom range.mFrom == .lt then r.mFrom else inc range.mTo
      let toAddr := if compareAddr r.mTo range.mTo == .gt then r.mTo else dec range.mFrom
      [ofBytes fromAddr toAddr]
  else []

/-- `adjacent`, asked only of ranges that do not overlap: the address after the
lower range's end is the upper range's start. -/
def adjacent (r range : IPRange) : Bool :=
  if compareAddr r.mTo range.mFrom == .lt then compareAddr (inc r.mTo) range.mFrom == .eq
  else compareAddr (dec r.mFrom) range.mTo == .eq

/-- The range from the lower of the two starts to the higher of the two ends,
built where `merge` falls through to `new IPRange(from, to)`. -/
def hull (r range : IPRange) : IPRange :=
  ofBytes (if compareAddr r.mFrom range.mFrom == .lt then r.mFrom else range.mFrom)
    (if compareAddr r.mTo range.mTo == .gt then r.mTo else range.mTo)

/-- `merge`: one range covering both, if they overlap or are adjacent, else `null`. -/
def merge (r range : IPRange) : Option IPRange :=
  if r.overlaps range then
    if r.contains range then some r
    else if range.contains r then some range
    else some (r.hull range)
  else if !r.adjacent range then none
  else some (r.hull range)

/-! `inc` and `dec` wrap around at the ends of the address space. The lists below name
the address each path of `remove` and `merge` hands to them, in the order of the calls,
`true` for `inc` and `false` for `dec`. -/

/-- The calls of `remove`. Of the two branches of a `?:` Java evaluates only the one it
takes. -/
def removeCalls (r range : IPRange) : List (Bool × List UInt8) :=
  if !r.overlaps range then []
  else if !range.contains r then
    if compareAddr r.mFrom range.mFrom == .lt && compareAddr range.mTo r.mTo == .lt then
      [(false, range.mFrom), (true, range.mTo)]
    else
      (if compareAddr r.mFrom range.mFrom == .lt then [] else [(true, range.mTo)]) ++
        (if compareAddr r.mTo range.mTo == .gt then [] else [(false, range.mFrom)])
  else []

/-- The call of `adjacent`. -/
def adjacentCalls (r range : IPRange) : List (Bool × List UInt8) :=
  if compareAddr r.mTo range.mFrom == .lt then [(true, r.mTo)] else [(false, r.mFrom)]

/-- The calls of `merge`: `adjacent`'s, made when the ranges do not overlap. -/
def mergeCalls (r range : IPRange) : List (Bool × List UInt8) :=
  if r.overlaps range then [] else r.adjacentCalls range

/-! ## 3. Addresses as numbers -/

open Bytes

/-- The key `compareAddr` orders by: length first, then the number. -/
def addrKey (a : List UInt8) : ℕ ×ₗ ℕ := toLex (a.length, value a)

/-- At equal lengths the byte scan compares the numbers. -/
theorem compareBytes_eq_compare : ∀ {a b : List UInt8}, a.length = b.length →
    compareBytes a b = compare (value a) (value b)
  | [], [], _ => rfl
  | x :: xs, y :: ys, h => by
    have h' : xs.length = ys.length := by simpa using h
    simp only [compareBytes]
    split
    · rename_i hne
      have hne' : x.toNat ≠ y.toNat := fun he => hne (UInt8.toNat_inj.mp he)
      split
      · rename_i hlt
        exact (compare_lt_iff_lt.mpr (value_cons_lt_value_cons h' hlt)).symm
      · rename_i hge
        have hgt : y.toNat < x.toNat := by omega
        exact (compare_gt_iff_gt.mpr (value_cons_lt_value_cons h'.symm hgt)).symm
    · rename_i hxy
      obtain rfl : x = y := not_not.mp hxy
      rw [compareBytes_eq_compare h', compare_value_cons_self h']

theorem compareAddr_of_length_eq {a b : List UInt8} (h : a.length = b.length) :
    compareAddr a b = compare (value a) (value b) := by
  simp [compareAddr, h, compareBytes_eq_compare h]

theorem compareAddr_of_length_lt {a b : List UInt8} (h : a.length < b.length) :
    compareAddr a b = .lt := by
  simp [compareAddr, h, Nat.ne_of_lt h]

theorem compareAddr_of_length_gt {a b : List UInt8} (h : b.length < a.length) :
    compareAddr a b = .gt := by
  simp [compareAddr, Nat.ne_of_gt h, Nat.not_lt_of_gt h]

/-- **`compareAddr` is the lexicographic order of `(length, value)`.** -/
theorem compareAddr_eq_compare (a b : List UInt8) :
    compareAddr a b = compare (addrKey a) (addrKey b) := by
  show compareAddr a b = (compare a.length b.length).then (compare (value a) (value b))
  rcases lt_trichotomy a.length b.length with h | h | h
  · rw [compareAddr_of_length_lt h, compare_lt_iff_lt.mpr h]; rfl
  · rw [compareAddr_of_length_eq h, h]; simp
  · rw [compareAddr_of_length_gt h, compare_gt_iff_gt.mpr h]; rfl

/-- Equal under `compareAddr` is equal. -/
theorem eq_of_compareAddr_eq {a b : List UInt8} (h : compareAddr a b = .eq) : a = b := by
  rw [compareAddr_eq_compare, compare_eq_iff_eq] at h
  simp only [addrKey, toLex_inj, Prod.mk.injEq] at h
  exact eq_of_value_eq h.1 h.2

@[simp] theorem compareAddr_self (a : List UInt8) : compareAddr a a = .eq := by
  simp [compareAddr_eq_compare]

theorem compareAddr_eq_lt_iff {a b : List UInt8} : compareAddr a b = .lt ↔
    a.length < b.length ∨ a.length = b.length ∧ value a < value b := by
  rw [compareAddr_eq_compare, compare_lt_iff_lt, addrKey, addrKey, Prod.Lex.toLex_lt_toLex]

theorem compareAddr_eq_gt_iff {a b : List UInt8} : compareAddr a b = .gt ↔
    b.length < a.length ∨ a.length = b.length ∧ value b < value a := by
  rw [compareAddr_eq_compare, compare_gt_iff_gt, addrKey, addrKey, Prod.Lex.toLex_lt_toLex, eq_comm]

theorem compareAddr_eq_eq_iff {a b : List UInt8} :
    compareAddr a b = .eq ↔ a.length = b.length ∧ value a = value b := by
  constructor
  · intro h
    rw [eq_of_compareAddr_eq h]
    exact ⟨rfl, rfl⟩
  · rintro ⟨hl, hv⟩
    rw [eq_of_value_eq hl hv, compareAddr_self]

theorem compareAddr_isLE_iff {a b : List UInt8} : (compareAddr a b).isLE = true ↔
    a.length < b.length ∨ a.length = b.length ∧ value a ≤ value b := by
  rw [Ordering.isLE_iff_ne_gt, compareAddr_eq_gt_iff]
  omega

/-- The key `compareTo` orders ranges by: first address, then last. -/
def rangeKey (r : IPRange) : (ℕ ×ₗ ℕ) ×ₗ (ℕ ×ₗ ℕ) := toLex (addrKey r.mFrom, addrKey r.mTo)

/-- **`compareTo` is the lexicographic order of the two bounds**, so a `TreeSet` of
ranges is a list sorted by `rangeKey`. -/
theorem compareTo_eq_compare (r s : IPRange) : compareTo r s = compare (rangeKey r) (rangeKey s) := by
  show compareTo r s = (compare (addrKey r.mFrom) (addrKey s.mFrom)).then
    (compare (addrKey r.mTo) (addrKey s.mTo))
  rw [← compareAddr_eq_compare, ← compareAddr_eq_compare]
  unfold compareTo
  cases compareAddr r.mFrom s.mFrom <;> rfl

/-! ### `inc` and `dec` -/

@[simp] theorem length_incLoop : ∀ (r : List UInt8), (incLoop r).length = r.length
  | [] => rfl
  | b :: bs => by unfold incLoop; split <;> simp [length_incLoop bs]

@[simp] theorem length_inc (a : List UInt8) : (inc a).length = a.length := by
  simp [inc]

@[simp] theorem length_decLoop : ∀ (r : List UInt8), (decLoop r).length = r.length
  | [] => rfl
  | b :: bs => by unfold decLoop; split <;> simp [length_decLoop bs]

@[simp] theorem length_dec (a : List UInt8) : (dec a).length = a.length := by
  simp [dec]

/-- The carry loop of `inc`, read on the reversed bytes: one more, modulo `256 ^ n`. -/
theorem value_incLoop : ∀ (r : List UInt8),
    value (incLoop r).reverse = (value r.reverse + 1) % 256 ^ r.length
  | [] => rfl
  | b :: bs => by
    have hb := toNat_lt_256 b
    have hb1 := toNat_lt_256 (b + 1)
    have hv := value_lt bs.reverse
    rw [List.length_reverse] at hv
    have hsum : (b + 1).toNat = (b.toNat + 1) % 256 := by simp
    rw [List.length_cons, pow_succ, List.reverse_cons, value_append_singleton]
    unfold incLoop
    split
    · -- no wrap: the last byte absorbs the one
      rename_i hne
      have hnz : (b + 1).toNat ≠ 0 := fun h0 => hne (UInt8.toNat_inj.mp (by simpa using h0))
      rw [List.reverse_cons, value_append_singleton]
      generalize value bs.reverse = V at hv ⊢
      generalize 256 ^ bs.length = P at hv ⊢
      rw [Nat.mod_eq_of_lt (by omega)]
      omega
    · -- the last byte wraps to zero and the carry moves on
      rename_i hwrap
      have hz : (b + 1).toNat = 0 := by rw [not_not.mp hwrap]; rfl
      rw [List.reverse_cons, value_append_singleton, value_incLoop bs, hz]
      generalize value bs.reverse = V at hv ⊢
      generalize 256 ^ bs.length = P at hv ⊢
      rw [show V * 256 + b.toNat + 1 = (V + 1) * 256 by omega, Nat.mul_mod_mul_right,
        Nat.add_zero]

/-- `inc` adds one, wrapping from all-ones to zero. -/
theorem value_inc (a : List UInt8) : value (inc a) = (value a + 1) % 256 ^ a.length := by
  simpa [inc] using value_incLoop a.reverse

/-- The borrow loop of `dec`, read on the reversed bytes: one less, modulo `256 ^ n`. -/
theorem value_decLoop : ∀ (r : List UInt8),
    value (decLoop r).reverse = (value r.reverse + 256 ^ r.length - 1) % 256 ^ r.length
  | [] => rfl
  | b :: bs => by
    have hb := toNat_lt_256 b
    have hv := value_lt bs.reverse
    rw [List.length_reverse] at hv
    have hdiff : (b - 1).toNat = (256 - 1 + b.toNat) % 256 := by simp [UInt8.toNat_sub]
    rw [List.length_cons, pow_succ, List.reverse_cons, value_append_singleton]
    unfold decLoop
    split
    · -- no wrap: the last byte gives up the one
      rename_i hne
      have hne' : (b - 1).toNat ≠ 255 := fun h => hne (UInt8.toNat_inj.mp (by simpa using h))
      have hpos : 1 ≤ b.toNat := by omega
      have hsub : (b - 1).toNat = b.toNat - 1 := by omega
      rw [List.reverse_cons, value_append_singleton, hsub]
      generalize value bs.reverse = V at hv ⊢
      generalize 256 ^ bs.length = P at hv ⊢
      generalize b.toNat = B at hb hpos ⊢
      rw [show V * 256 + B + P * 256 - 1 = (V * 256 + B - 1) + P * 256 by omega,
        Nat.add_mod_right, Nat.mod_eq_of_lt (by omega)]
      omega
    · -- the last byte wraps to `0xff` and the borrow moves on
      rename_i hwrap
      have hff : (b - 1).toNat = 255 := by rw [not_not.mp hwrap]; rfl
      have hb0 : b.toNat = 0 := by rw [hdiff] at hff; omega
      rw [List.reverse_cons, value_append_singleton, value_decLoop bs, hff, hb0]
      generalize value bs.reverse = V at hv ⊢
      generalize 256 ^ bs.length = P at hv ⊢
      rcases Nat.eq_zero_or_pos V with rfl | hpos
      · -- borrowing out of zero wraps the whole address to all-ones
        rw [Nat.mod_eq_of_lt (by omega), Nat.mod_eq_of_lt (by omega)]
        omega
      · rw [show V + P - 1 = (V - 1) + P by omega, Nat.add_mod_right, Nat.mod_eq_of_lt (by omega),
          show V * 256 + 0 + P * 256 - 1 = (V * 256 - 1) + P * 256 by omega, Nat.add_mod_right,
          Nat.mod_eq_of_lt (by omega)]
        omega

/-- `dec` subtracts one, wrapping from zero to all-ones. -/
theorem value_dec (a : List UInt8) :
    value (dec a) = (value a + 256 ^ a.length - 1) % 256 ^ a.length := by
  simpa [dec] using value_decLoop a.reverse

/-- Below the top address `inc` is the successor. -/
theorem value_inc_of_lt {a : List UInt8} (h : value a + 1 < 256 ^ a.length) :
    value (inc a) = value a + 1 := by
  rw [value_inc, Nat.mod_eq_of_lt h]

/-- Above zero `dec` is the predecessor. -/
theorem value_dec_of_pos {a : List UInt8} (h : 0 < value a) : value (dec a) = value a - 1 := by
  have hlt := value_lt a
  rw [value_dec, show value a + 256 ^ a.length - 1 = (value a - 1) + 256 ^ a.length by omega,
    Nat.add_mod_right, Nat.mod_eq_of_lt (by omega)]

end IPRange

end VpnClient.Android
