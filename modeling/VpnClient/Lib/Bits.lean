import Mathlib

/-!
# Bits of numbers and of bytes

Code that walks the bits of an address, as a subnet computation does, is read here
through two facts about numbers. What lies below bit `k` of `x` is `x % 2 ^ k`, and
one more bit adds `2 ^ k` exactly when that bit is set (`mod_two_pow_succ`). So
`x - x % 2 ^ k` is `x` with its `k` low bits cleared: the first number of the
aligned block of `2 ^ k` that holds `x`. Two numbers agree above bit `h` when
their quotients by `2 ^ h` agree (`div_two_pow_eq_of_testBit_eq`).

The second section gives the byte operations such code uses (a one-bit mask, its
complement, an exclusive or, and the mask of the `r` high bits) bit by bit, and from
the bits as numbers: two numbers that differ in one bit only differ by its weight
(`eq_add_two_pow_of_testBit`).
-/

namespace VpnClient.Lib.Bits

/-! ## 1. Numbers -/

/-- One more bit below the cut: bit `k` adds `2 ^ k` when it is set. -/
theorem mod_two_pow_succ (x k : ℕ) :
    x % 2 ^ (k + 1) = x % 2 ^ k + (if x.testBit k then 2 ^ k else 0) := by
  rw [pow_succ, Nat.mod_mul, Nat.testBit_eq_decide_div_mod_eq]
  rcases Nat.mod_two_eq_zero_or_one (x / 2 ^ k) with h | h <;> simp [h]

/-- Moving the cut up from `k` to `K` adds the bits in between, which are worth at
most `2 ^ K - 2 ^ k`. -/
theorem mod_two_pow_le_of_le (x : ℕ) {k K : ℕ} (h : k ≤ K) :
    x % 2 ^ k ≤ x % 2 ^ K ∧ x % 2 ^ K + 2 ^ k ≤ x % 2 ^ k + 2 ^ K := by
  induction K, h using Nat.le_induction with
  | base => exact ⟨le_rfl, le_rfl⟩
  | succ K _ ih =>
    have hstep := mod_two_pow_succ x K
    have hpow : 2 ^ (K + 1) = 2 ^ K + 2 ^ K := by rw [pow_succ]; omega
    split_ifs at hstep <;> omega

/-- Numbers with the same bits from `h` on have the same quotient by `2 ^ h`. -/
theorem div_two_pow_eq_of_testBit_eq {x y h : ℕ} (hxy : ∀ i, h ≤ i → x.testBit i = y.testBit i) :
    x / 2 ^ h = y / 2 ^ h :=
  Nat.eq_of_testBit_eq fun i => by
    rw [Nat.testBit_div_two_pow, Nat.testBit_div_two_pow]
    exact hxy (i + h) (Nat.le_add_left h i)

/-- A number whose `h` low bits are clear is a multiple of `2 ^ h`. -/
theorem mod_two_pow_eq_zero_of_testBit {x h : ℕ} (hx : ∀ i < h, x.testBit i = false) :
    x % 2 ^ h = 0 :=
  Nat.eq_of_testBit_eq fun i => by
    rw [Nat.testBit_mod_two_pow, Nat.zero_testBit]
    by_cases hi : i < h
    · simp [hi, hx i hi]
    · simp [hi]

/-- A number whose `h` low bits are set ends in `2 ^ h - 1`. -/
theorem mod_two_pow_eq_of_testBit {x h : ℕ} (hx : ∀ i < h, x.testBit i = true) :
    x % 2 ^ h = 2 ^ h - 1 :=
  Nat.eq_of_testBit_eq fun i => by
    rw [Nat.testBit_mod_two_pow, Nat.testBit_two_pow_sub_one]
    by_cases hi : i < h
    · simp [hi, hx i hi]
    · simp [hi]

/-- The converse of `div_two_pow_eq_of_testBit_eq`: equal quotients by `2 ^ h`, equal
bits from `h` on. -/
theorem testBit_eq_of_div_two_pow_eq {x y h : ℕ} (hxy : x / 2 ^ h = y / 2 ^ h) {i : ℕ} (hi : h ≤ i) :
    x.testBit i = y.testBit i := by
  obtain ⟨j, rfl⟩ : ∃ j, i = j + h := ⟨i - h, by omega⟩
  rw [← Nat.testBit_div_two_pow, ← Nat.testBit_div_two_pow, hxy]

/-- The converse of `mod_two_pow_eq_zero_of_testBit`. -/
theorem testBit_eq_false_of_mod_two_pow {x h : ℕ} (hx : x % 2 ^ h = 0) {i : ℕ} (hi : i < h) :
    x.testBit i = false := by
  have := Nat.testBit_mod_two_pow x h i
  rw [hx, Nat.zero_testBit] at this
  simpa [hi] using this.symm

/-- The converse of `mod_two_pow_eq_of_testBit`. -/
theorem testBit_eq_true_of_mod_two_pow {x h : ℕ} (hx : x % 2 ^ h = 2 ^ h - 1) {i : ℕ} (hi : i < h) :
    x.testBit i = true := by
  have := Nat.testBit_mod_two_pow x h i
  rw [hx, Nat.testBit_two_pow_sub_one] at this
  simpa [hi] using this.symm

/-- The first bit, from the top, in which `x ≤ y` differ is clear in `x` and set
in `y`. -/
theorem testBit_of_first_difference {x y K : ℕ} (hle : x ≤ y)
    (habove : x / 2 ^ (K + 1) = y / 2 ^ (K + 1)) (hne : x.testBit K ≠ y.testBit K) :
    x.testBit K = false ∧ y.testBit K = true := by
  have hx := Nat.div_add_mod x (2 ^ (K + 1))
  have hy := Nat.div_add_mod y (2 ^ (K + 1))
  have hxs := mod_two_pow_succ x K
  have hys := mod_two_pow_succ y K
  have hyk := Nat.mod_lt y (Nat.two_pow_pos K)
  rw [habove] at hx
  cases hbx : x.testBit K <;> cases hby : y.testBit K
  · simp [hbx, hby] at hne
  · exact ⟨rfl, rfl⟩
  · -- a set bit in `x` only would make `x`'s remainder the larger
    simp only [hbx, hby, if_true, Bool.false_eq_true, if_false, Nat.add_zero] at hxs hys
    omega
  · simp [hbx, hby] at hne

/-- Clearing the bits below `s` keeps the bits from `s` on. -/
theorem testBit_sub_mod_two_pow_eq (x s k : ℕ) :
    (x - x % 2 ^ s).testBit k = (decide (s ≤ k) && x.testBit k) := by
  have h := Nat.div_add_mod x (2 ^ s)
  rw [show x - x % 2 ^ s = x / 2 ^ s * 2 ^ s by rw [Nat.mul_comm]; omega, Nat.testBit_mul_two_pow]
  by_cases hk : s ≤ k
  · simp [hk, Nat.testBit_div_two_pow, Nat.sub_add_cancel hk]
  · simp [hk]

/-- Clearing the bits below `k` leaves bit `k` as it was. -/
theorem testBit_sub_mod_two_pow (x k : ℕ) : (x - x % 2 ^ k).testBit k = x.testBit k := by
  simp [testBit_sub_mod_two_pow_eq]

/-- A number with its `s` low bits set. -/
theorem testBit_sub_mod_add_two_pow_sub_one (x s k : ℕ) :
    (x - x % 2 ^ s + (2 ^ s - 1)).testBit k = (decide (k < s) || x.testBit k) := by
  have hx := Nat.div_add_mod x (2 ^ s)
  have hpos := Nat.two_pow_pos s
  rw [show x - x % 2 ^ s = 2 ^ s * (x / 2 ^ s) by omega,
    Nat.testBit_two_pow_mul_add _ (by omega), Nat.testBit_div_two_pow]
  by_cases hk : k < s
  · simp [hk, Nat.testBit_two_pow_sub_one]
  · simp [hk, Nat.sub_add_cancel (Nat.le_of_not_lt hk)]

/-- A number with its `K` low bits cleared has its `k ≤ K` low bits clear. -/
theorem sub_mod_two_pow_mod {k K : ℕ} (x : ℕ) (h : k ≤ K) : (x - x % 2 ^ K) % 2 ^ k = 0 :=
  Nat.sub_mod_eq_zero_of_mod_eq (Nat.mod_mod_of_dvd x (Nat.pow_dvd_pow 2 h)).symm

/-- Below the first bit `K` in which `x` and `y` differ, clear in `x` and set in `y`,
the block of `2 ^ K` numbers holding `y` starts where the one holding `x` ends. -/
theorem sub_mod_of_first_difference {x y K : ℕ} (habove : x / 2 ^ (K + 1) = y / 2 ^ (K + 1))
    (hx : x.testBit K = false) (hy : y.testBit K = true) :
    y - y % 2 ^ K = x - x % 2 ^ K + 2 ^ K := by
  have hxd := Nat.div_add_mod x (2 ^ (K + 1))
  have hyd := Nat.div_add_mod y (2 ^ (K + 1))
  have hxs := mod_two_pow_succ x K
  have hys := mod_two_pow_succ y K
  rw [hx, if_neg Bool.false_ne_true, Nat.add_zero] at hxs
  rw [hy, if_pos rfl] at hys
  rw [habove] at hxd
  omega

/-- Two numbers that differ in bit `k` only, clear in `x` and set in `y`, differ by
`2 ^ k`. -/
theorem eq_add_two_pow_of_testBit {x y k : ℕ} (hx : x.testBit k = false) (hy : y.testBit k = true)
    (hxy : ∀ i, i ≠ k → x.testBit i = y.testBit i) : y = x + 2 ^ k := by
  have habove : x / 2 ^ (k + 1) = y / 2 ^ (k + 1) :=
    div_two_pow_eq_of_testBit_eq fun i hi => hxy i (by omega)
  have hbelow : x % 2 ^ k = y % 2 ^ k := Nat.eq_of_testBit_eq fun i => by
    rw [Nat.testBit_mod_two_pow, Nat.testBit_mod_two_pow]
    by_cases hi : i < k
    · rw [hxy i (by omega)]
    · simp [hi]
  have hblock := sub_mod_of_first_difference habove hx hy
  have := Nat.mod_le x (2 ^ k)
  have := Nat.mod_le y (2 ^ k)
  omega

/-- Below that bit, every aligned block holding `x` ends no later than the block of
the same size holding `y` starts. -/
theorem gap_of_first_difference {x y K : ℕ} (habove : x / 2 ^ (K + 1) = y / 2 ^ (K + 1))
    (hx : x.testBit K = false) (hy : y.testBit K = true) {j : ℕ} (hj : j ≤ K) :
    x - x % 2 ^ j + 2 ^ j ≤ y - y % 2 ^ j := by
  have hfirst := sub_mod_of_first_difference habove hx hy
  obtain ⟨hx1, hx2⟩ := mod_two_pow_le_of_le x hj
  obtain ⟨hy1, -⟩ := mod_two_pow_le_of_le y hj
  have := Nat.mod_le x (2 ^ K)
  have := Nat.mod_le y (2 ^ K)
  omega

/-! ## 2. Bytes -/

section Bytes

variable {j r : ℕ}

/-- A byte has no bits from `8` on. -/
theorem testBit_toNat_of_le (x : UInt8) {k : ℕ} (hk : 8 ≤ k) : x.toNat.testBit k = false :=
  Nat.testBit_lt_two_pow (lt_of_lt_of_le x.toNat_lt (Nat.pow_le_pow_right Nat.two_pos hk))

theorem toNat_ofNat_two_pow (hj : j < 8) : (UInt8.ofNat (2 ^ j)).toNat = 2 ^ j := by
  rw [UInt8.toNat_ofNat']
  exact Nat.mod_eq_of_lt (Nat.pow_lt_pow_right Nat.one_lt_two hj)

/-- The bits of a byte's complement are the byte's own bits flipped, below bit `8`. -/
theorem testBit_toNat_not (a : UInt8) (k : ℕ) :
    (~~~a).toNat.testBit k = (decide (k < 8) && !a.toNat.testBit k) := by
  have h : (~~~a).toNat = 2 ^ 8 - (a.toNat + 1) := by
    have := a.toNat_lt
    have hsize : UInt8.size = 2 ^ 8 := rfl
    rw [UInt8.toNat_not, hsize]
    omega
  rw [h, Nat.testBit_two_pow_sub_succ a.toNat_lt]

/-- Masking bit `j` of a byte leaves `2 ^ j` or nothing. -/
theorem toNat_and_two_pow (x : UInt8) (hj : j < 8) :
    (x &&& UInt8.ofNat (2 ^ j)).toNat = if x.toNat.testBit j then 2 ^ j else 0 := by
  refine Nat.eq_of_testBit_eq fun k => ?_
  rw [UInt8.toNat_and, Nat.testBit_and, toNat_ofNat_two_pow hj, Nat.testBit_two_pow]
  by_cases hk : j = k
  · subst hk
    split_ifs with h <;> simp [h, Nat.testBit_two_pow_self]
  · split_ifs <;> simp [hk, Nat.testBit_two_pow_of_ne hk]

theorem and_two_pow_ne_zero_iff (x : UInt8) (hj : j < 8) :
    x &&& UInt8.ofNat (2 ^ j) ≠ 0 ↔ x.toNat.testBit j = true := by
  rw [Ne, ← UInt8.toNat_inj, toNat_and_two_pow x hj]
  split_ifs with h <;> simp [h]

/-- The top bit of a byte is clear exactly below `128`. -/
theorem and_0x80_eq_zero_iff (x : UInt8) : x &&& 0x80 = 0 ↔ x.toNat < 128 := by
  have hlt := x.toNat_lt
  have h := and_two_pow_ne_zero_iff x (j := 7) (by decide)
  rw [show UInt8.ofNat (2 ^ 7) = 0x80 from rfl, Nat.testBit_eq_decide_div_mod_eq] at h
  rw [← not_iff_not, ← ne_eq, h]
  simp only [decide_eq_true_eq, not_lt]
  omega

/-- The low seven bits of a byte. -/
theorem toNat_and_0x7f (x : UInt8) : (x &&& 0x7f).toNat = x.toNat % 128 := by
  rw [UInt8.toNat_and, show (0x7f : UInt8).toNat = 2 ^ 7 - 1 from rfl, Nat.and_two_pow_sub_one_eq_mod]

theorem and_two_pow_eq_iff (x y : UInt8) (hj : j < 8) :
    x &&& UInt8.ofNat (2 ^ j) = y &&& UInt8.ofNat (2 ^ j) ↔
      x.toNat.testBit j = y.toNat.testBit j := by
  rw [← UInt8.toNat_inj, toNat_and_two_pow x hj, toNat_and_two_pow y hj]
  have hne : 2 ^ j ≠ 0 := (Nat.two_pow_pos j).ne'
  cases x.toNat.testBit j <;> cases y.toNat.testBit j <;> simp [hne.symm]

/-- Two bytes agree under a mask exactly when `(a ^ b) & mask` is zero. -/
theorem xor_and_eq_zero_iff (a b c : UInt8) :
    (a ^^^ b) &&& c = 0 ↔ ∀ j < 8, c.toNat.testBit j = true → a.toNat.testBit j = b.toNat.testBit j := by
  rw [← UInt8.toNat_inj, UInt8.toNat_and, UInt8.toNat_xor, UInt8.toNat_zero]
  constructor
  · intro h j _ hc
    have hbit := congrArg (Nat.testBit · j) h
    simp only [Nat.testBit_and, Nat.testBit_xor, Nat.zero_testBit, hc, Bool.and_true] at hbit
    simpa using hbit
  · intro h
    refine Nat.eq_of_testBit_eq fun j => ?_
    rw [Nat.testBit_and, Nat.testBit_xor, Nat.zero_testBit]
    by_cases hj : j < 8
    · cases hc : c.toNat.testBit j
      · simp
      · simp [h j hj hc]
    · simp [testBit_toNat_of_le c (Nat.le_of_not_lt hj)]

/-- Clearing bit `i` of a byte clears that bit and keeps the others. -/
theorem testBit_and_not_two_pow (x : UInt8) {i : ℕ} (hi : i < 8) (j : ℕ) :
    (x &&& ~~~UInt8.ofNat (2 ^ i)).toNat.testBit j = (decide (i ≠ j) && x.toNat.testBit j) := by
  rw [UInt8.toNat_and, Nat.testBit_and, testBit_toNat_not, toNat_ofNat_two_pow hi,
    Nat.testBit_two_pow]
  by_cases hj : j < 8
  · by_cases hij : i = j <;> simp [hj, hij]
  · simp [testBit_toNat_of_le x (Nat.le_of_not_lt hj)]

/-- Flipping bit `i` of a byte flips that bit and keeps the others. -/
theorem testBit_xor_two_pow (x : UInt8) {i : ℕ} (hi : i < 8) (j : ℕ) :
    (x ^^^ UInt8.ofNat (2 ^ i)).toNat.testBit j = (x.toNat.testBit j ^^ decide (i = j)) := by
  rw [UInt8.toNat_xor, Nat.testBit_xor, toNat_ofNat_two_pow hi, Nat.testBit_two_pow]

/-- Setting bit `i` of a byte sets that bit and keeps the others. -/
theorem testBit_or_two_pow (x : UInt8) {i : ℕ} (hi : i < 8) (j : ℕ) :
    (x ||| UInt8.ofNat (2 ^ i)).toNat.testBit j = (decide (i = j) || x.toNat.testBit j) := by
  rw [UInt8.toNat_or, Nat.testBit_or, toNat_ofNat_two_pow hi, Nat.testBit_two_pow, Bool.or_comm]

/-- Clearing bit `j` of a byte takes `2 ^ j` off when the bit was set. -/
theorem toNat_and_not_two_pow (x : UInt8) (hj : j < 8) :
    (x &&& ~~~UInt8.ofNat (2 ^ j)).toNat + (if x.toNat.testBit j then 2 ^ j else 0) = x.toNat := by
  have hbits := testBit_and_not_two_pow x hj
  split_ifs with h
  · -- the byte and its cleared copy differ in bit `j` only
    refine (eq_add_two_pow_of_testBit (by rw [hbits]; simp) h fun k hk => ?_).symm
    rw [hbits]
    simp [Ne.symm hk]
  · rw [Nat.add_zero]
    refine Nat.eq_of_testBit_eq fun k => ?_
    rw [hbits]
    by_cases hk : j = k
    · subst hk
      simpa using h
    · simp [hk]

/-- Flipping bit `j` of a byte adds `2 ^ j` to it when the bit was clear, and takes
`2 ^ j` off when it was set. -/
theorem toNat_xor_two_pow (x : UInt8) (hj : j < 8) :
    (x ^^^ UInt8.ofNat (2 ^ j)).toNat + (if x.toNat.testBit j then 2 ^ j else 0) =
      x.toNat + (if x.toNat.testBit j then 0 else 2 ^ j) := by
  have hbits := testBit_xor_two_pow x hj
  have hothers : ∀ k, k ≠ j → (x ^^^ UInt8.ofNat (2 ^ j)).toNat.testBit k = x.toNat.testBit k :=
    fun k hk => by rw [hbits]; simp [Ne.symm hk]
  split_ifs with h
  · -- a set bit is cleared
    exact (eq_add_two_pow_of_testBit (by rw [hbits]; simp [h]) h hothers).symm
  · -- a clear bit is set
    rw [Nat.add_zero]
    exact eq_add_two_pow_of_testBit (by simpa using h) (by rw [hbits]; simpa using h)
      fun k hk => (hothers k hk).symm

/-- Flipping a bit and then clearing it is clearing it. -/
theorem xor_two_pow_and_not (x : UInt8) (hj : j < 8) :
    (x ^^^ UInt8.ofNat (2 ^ j)) &&& ~~~UInt8.ofNat (2 ^ j) = x &&& ~~~UInt8.ofNat (2 ^ j) := by
  refine UInt8.toNat_inj.mp (Nat.eq_of_testBit_eq fun k => ?_)
  rw [testBit_and_not_two_pow _ hj, testBit_and_not_two_pow _ hj, testBit_xor_two_pow x hj]
  by_cases hk : j = k <;> simp [hk]

/-- The bits of the mask `0xff << s`, cut to a byte: bits `s` to `7`. -/
theorem testBit_high_mask {s : ℕ} (k : ℕ) :
    (UInt8.ofNat (0xff <<< s)).toNat.testBit k = (decide (s ≤ k) && decide (k < 8)) := by
  rw [UInt8.toNat_ofNat', Nat.testBit_mod_two_pow, Nat.testBit_shiftLeft,
    show (0xff : ℕ) = 2 ^ 8 - 1 from rfl, Nat.testBit_two_pow_sub_one]
  by_cases hs : s ≤ k
  · by_cases hk : k < 8
    · simp only [hs, hk, decide_true, Bool.true_and, decide_eq_true_eq]
      omega
    · simp [hk]
  · simp [hs]

/-- The mask `0xff << (8 - r)`, cut to a byte, keeps the `r` high bits: under it a
byte drops to the start of its aligned block of `2 ^ (8 - r)`, and under its
complement it rises to the end of that block. -/
theorem toNat_high_mask (x : UInt8) (hr : r < 8) :
    (x &&& UInt8.ofNat (0xff <<< (8 - r))).toNat = x.toNat - x.toNat % 2 ^ (8 - r) ∧
      (x ||| ~~~UInt8.ofNat (0xff <<< (8 - r))).toNat =
        x.toNat - x.toNat % 2 ^ (8 - r) + (2 ^ (8 - r) - 1) := by
  have hhigh := testBit_sub_mod_two_pow_eq x.toNat (8 - r)
  constructor
  · refine Nat.eq_of_testBit_eq fun k => ?_
    rw [UInt8.toNat_and, Nat.testBit_and, testBit_high_mask, hhigh]
    by_cases hk : k < 8
    · by_cases hs : 8 - r ≤ k <;> simp [hk, hs]
    · simp [hk, testBit_toNat_of_le x (Nat.le_of_not_lt hk)]
  · -- the block's start and the low mask share no bit, so adding them is an or
    have hlow : 2 ^ (8 - r) - 1 < 2 ^ (8 - r) := Nat.sub_lt (Nat.two_pow_pos _) Nat.one_pos
    have hdiv := Nat.div_add_mod x.toNat (2 ^ (8 - r))
    have hor : x.toNat - x.toNat % 2 ^ (8 - r) + (2 ^ (8 - r) - 1) =
        (x.toNat - x.toNat % 2 ^ (8 - r)) ||| (2 ^ (8 - r) - 1) := by
      rw [show x.toNat - x.toNat % 2 ^ (8 - r) = 2 ^ (8 - r) * (x.toNat / 2 ^ (8 - r)) by omega,
        Nat.two_pow_add_eq_or_of_lt hlow]
    rw [hor]
    refine Nat.eq_of_testBit_eq fun k => ?_
    rw [UInt8.toNat_or, Nat.testBit_or, testBit_toNat_not, testBit_high_mask, Nat.testBit_or,
      Nat.testBit_two_pow_sub_one, hhigh]
    by_cases hk : k < 8
    · by_cases hs : 8 - r ≤ k
      · simp [hk, hs]
      · simp [hk, hs]
        omega
    · have hs : 8 - r ≤ k := by omega
      simp [hk, hs, testBit_toNat_of_le x (Nat.le_of_not_lt hk)]

/-! ### Bytes as fields of bits

A byte split into fields by shifts and masks, and put together again by an or: each
operation is arithmetic on the byte's number, and an or of fields whose bits lie apart
is their sum (`toNat_or_of_lt`). -/

/-- A mask of the `k` low bits keeps the remainder by `2 ^ k`. -/
theorem toNat_and_low {m : UInt8} {k : ℕ} (hm : m.toNat = 2 ^ k - 1) (x : UInt8) :
    (x &&& m).toNat = x.toNat % 2 ^ k := by
  rw [UInt8.toNat_and, hm, Nat.and_two_pow_sub_one_eq_mod]

theorem toNat_shiftRight_eq {s : UInt8} {k : ℕ} (hs : s.toNat = k) (hk : k < 8) (x : UInt8) :
    (x >>> s).toNat = x.toNat / 2 ^ k := by
  rw [UInt8.toNat_shiftRight, hs, Nat.mod_eq_of_lt hk, Nat.shiftRight_eq_div_pow]

theorem toNat_shiftLeft_eq {s : UInt8} {k : ℕ} (hs : s.toNat = k) (hk : k < 8) (x : UInt8) :
    (x <<< s).toNat = x.toNat * 2 ^ k % 256 := by
  rw [UInt8.toNat_shiftLeft, hs, Nat.mod_eq_of_lt hk, Nat.shiftLeft_eq]

/-- The or of a number with no bits below `k` and one below `2 ^ k` is their sum. -/
theorem or_eq_add_of_lt {x y k : ℕ} (hx : x % 2 ^ k = 0) (hy : y < 2 ^ k) : x ||| y = x + y := by
  obtain ⟨m, rfl⟩ := Nat.dvd_of_mod_eq_zero hx
  exact (Nat.two_pow_add_eq_or_of_lt hy m).symm

theorem toNat_or_of_lt {x y : UInt8} {k : ℕ} (hx : x.toNat % 2 ^ k = 0) (hy : y.toNat < 2 ^ k) :
    (x ||| y).toNat = x.toNat + y.toNat := by
  rw [UInt8.toNat_or, or_eq_add_of_lt hx hy]

/-- A field shifted up by `k`, or-ed with one below `2 ^ k`. -/
theorem toNat_shiftLeft_or {x y s : UInt8} {k : ℕ} (hs : s.toNat = k) (hk : k < 8) (hy : y.toNat < 2 ^ k) :
    ((x <<< s) ||| y).toNat = x.toNat * 2 ^ k % 256 + y.toNat := by
  have hx : x.toNat * 2 ^ k % 256 % 2 ^ k = 0 := by
    rw [show (256 : ℕ) = 2 ^ k * 2 ^ (8 - k) by rw [← Nat.pow_add, Nat.add_sub_cancel' hk.le], Nat.mod_mul_right_mod,
      Nat.mul_mod_left]
  rw [toNat_or_of_lt (by rw [toNat_shiftLeft_eq hs hk]; exact hx) hy, toNat_shiftLeft_eq hs hk]

end Bytes

/-! ## 3. Smearing the top bit down

`n ||| n >>> 1`, then the same with `>>> 2`, `>>> 4`, …: after the shifts by
`1, 2, …, 2 ^ (m - 1)` bit `j` is set when one of the bits `j, …, j + 2 ^ m - 1` of `n`
was (`testBit_smear`). Once `2 ^ m` covers the width of `n`, every bit below its top
bit is set, so the result is `2 ^ (log2 n + 1) - 1` (`smear_eq`): the step by which a
power of two at least `n + 1` is found without a loop over the bits. -/

/-- `n ||| n >>> s`, for each shift `s` in turn. -/
def smear (n : ℕ) (shifts : List ℕ) : ℕ := shifts.foldl (fun n s => n ||| n >>> s) n

/-- A window of `2 ^ (m + 1)` bits is two windows of `2 ^ m`. -/
theorem exists_lt_two_pow_succ (P : ℕ → Prop) (m j : ℕ) :
    ((∃ d < 2 ^ m, P (j + d)) ∨ ∃ d < 2 ^ m, P (2 ^ m + j + d)) ↔ ∃ d < 2 ^ (m + 1), P (j + d) := by
  have hpow : 2 ^ (m + 1) = 2 ^ m + 2 ^ m := by rw [pow_succ]; omega
  constructor
  · rintro (⟨d, hd, hp⟩ | ⟨d, hd, hp⟩)
    · exact ⟨d, by omega, hp⟩
    · exact ⟨2 ^ m + d, by omega, by rwa [show j + (2 ^ m + d) = 2 ^ m + j + d by omega]⟩
  · rintro ⟨d, hd, hp⟩
    by_cases hlow : d < 2 ^ m
    · exact .inl ⟨d, hlow, hp⟩
    · exact .inr ⟨d - 2 ^ m, by omega, by rwa [show 2 ^ m + j + (d - 2 ^ m) = j + d by omega]⟩

theorem smear_concat (n : ℕ) (shifts : List ℕ) (s : ℕ) :
    smear n (shifts ++ [s]) = smear n shifts ||| smear n shifts >>> s :=
  List.foldl_concat _ _ _ _

theorem testBit_smear (n m j : ℕ) :
    (smear n ((List.range m).map (2 ^ ·))).testBit j = decide (∃ d < 2 ^ m, n.testBit (j + d) = true) := by
  induction m generalizing j with
  | zero => simp [smear]
  | succ m ih =>
    rw [List.range_succ, List.map_append, List.map_singleton, smear_concat, Nat.testBit_or,
      Nat.testBit_shiftRight, ih, ih, ← Bool.decide_or, decide_eq_decide]
    exact exists_lt_two_pow_succ (fun i => n.testBit i = true) m j

/-- **Smearing fills every bit below the top one.** -/
theorem smear_eq {n m : ℕ} (hn : n ≠ 0) (hlt : n < 2 ^ 2 ^ m) :
    smear n ((List.range m).map (2 ^ ·)) = 2 ^ (n.log2 + 1) - 1 := by
  apply Nat.eq_of_testBit_eq
  intro j
  rw [testBit_smear, Nat.testBit_two_pow_sub_one]
  have hlog : n.log2 < 2 ^ m := (Nat.log2_lt hn).mpr hlt
  congr 1
  apply propext
  constructor
  · -- a set bit lies at or below the top bit
    rintro ⟨d, -, hd⟩
    by_contra hgt
    have hbelow : n < 2 ^ (j + d) :=
      lt_of_lt_of_le Nat.lt_log2_self (Nat.pow_le_pow_right (by norm_num) (by omega))
    rw [Nat.testBit_lt_two_pow hbelow] at hd
    exact Bool.false_ne_true hd
  · intro hj
    exact ⟨n.log2 - j, by omega, by rw [show j + (n.log2 - j) = n.log2 by omega]; exact Nat.testBit_log2 hn⟩

end VpnClient.Lib.Bits
