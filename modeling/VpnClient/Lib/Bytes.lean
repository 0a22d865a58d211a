import VpnClient.Lib.Bits
import Mathlib.Data.List.Basic
import Mathlib.Algebra.Order.Group.Nat
import Mathlib.Tactic.Ring

/-!
# Big-endian byte strings as numbers

A network address is a byte string read most significant byte first. This file
gives that reading, `Bytes.value`, and the handful of facts about it that every
address computation in the development is reduced to:

* a string of `n` bytes denotes a number below `256 ^ n` (`value_lt`);
* at a fixed length the reading is injective (`eq_of_value_eq`), so comparing
  numbers is comparing strings;
* the first differing byte decides the order (`value_cons_lt_value_cons`), which is
  what a byte-wise comparison loop relies on;
* appending a byte at the least significant end multiplies by `256`
  (`value_append_singleton`), which is what a carry loop that starts at the last
  byte relies on;
* byte `i` of `n` weighs `256 ^ (n - 1 - i)`: replacing it changes the number by
  the difference times that weight (`value_set`), and bit `j` of it is bit
  `8 * (n - 1 - i) + j` of the number (`testBit_value`), which is what code that
  masks, flips or clears single bits of an address relies on.

Nothing here knows about addresses: the lemmas are about `List UInt8` only.
-/

namespace VpnClient.Lib.Bytes

/-- The number a byte string denotes, most significant byte first. -/
def value : List UInt8 → Nat
  | [] => 0
  | b :: bs => b.toNat * 256 ^ bs.length + value bs

@[simp] theorem value_nil : value [] = 0 := rfl

@[simp] theorem value_cons (b : UInt8) (bs : List UInt8) :
    value (b :: bs) = b.toNat * 256 ^ bs.length + value bs := rfl

theorem toNat_lt_256 (b : UInt8) : b.toNat < 256 := b.toNat_lt

/-- A string of `n` bytes denotes a number below `256 ^ n`. -/
theorem value_lt : ∀ (l : List UInt8), value l < 256 ^ l.length
  | [] => by simp
  | b :: bs => by
    have hb := toNat_lt_256 b
    have ih := value_lt bs
    rw [value_cons, List.length_cons, pow_succ]
    -- `b * 256^n + v < (b + 1) * 256^n ≤ 256 * 256^n`
    calc b.toNat * 256 ^ bs.length + value bs
        < b.toNat * 256 ^ bs.length + 256 ^ bs.length := by omega
      _ = (b.toNat + 1) * 256 ^ bs.length := by ring
      _ ≤ 256 * 256 ^ bs.length := Nat.mul_le_mul_right _ hb
      _ = 256 ^ bs.length * 256 := Nat.mul_comm _ _

/-- A string of `n` bytes denotes a number of at most `8 * n` bits. -/
theorem value_lt_two_pow (l : List UInt8) : value l < 2 ^ (8 * l.length) := by
  rw [pow_mul]
  exact value_lt l

/-- The leading byte of a string is its value divided by the weight of the rest. -/
theorem value_cons_div (b : UInt8) (bs : List UInt8) :
    value (b :: bs) / 256 ^ bs.length = b.toNat := by
  have hpos : 0 < 256 ^ bs.length := Nat.pos_of_ne_zero (by simp)
  rw [value_cons, Nat.add_comm, Nat.add_mul_div_right _ _ hpos,
    Nat.div_eq_of_lt (value_lt bs), Nat.zero_add]

theorem value_cons_mod (b : UInt8) (bs : List UInt8) :
    value (b :: bs) % 256 ^ bs.length = value bs := by
  rw [value_cons, Nat.add_comm, Nat.add_mul_mod_self_right, Nat.mod_eq_of_lt (value_lt bs)]

/-- At a fixed length, a byte string is determined by its value. -/
theorem eq_of_value_eq : ∀ {a b : List UInt8}, a.length = b.length → value a = value b → a = b
  | [], [], _, _ => rfl
  | x :: as, y :: bs, hlen, hv => by
    have hlen' : as.length = bs.length := by simpa using hlen
    have hx : x.toNat = y.toNat := by
      rw [← value_cons_div x as, ← value_cons_div y bs, hv, hlen']
    have hrest : value as = value bs := by
      rw [← value_cons_mod x as, ← value_cons_mod y bs, hv, hlen']
    rw [UInt8.toNat_inj.mp hx, eq_of_value_eq hlen' hrest]

/-- The first differing byte decides the order: a smaller leading byte gives a
smaller number whatever follows, at equal lengths. -/
theorem value_cons_lt_value_cons {x y : UInt8} {as bs : List UInt8}
    (hlen : as.length = bs.length) (hxy : x.toNat < y.toNat) :
    value (x :: as) < value (y :: bs) := by
  have h1 := value_lt as
  rw [value_cons, value_cons, ← hlen]
  calc x.toNat * 256 ^ as.length + value as
      < (x.toNat + 1) * 256 ^ as.length := by rw [Nat.succ_mul]; omega
    _ ≤ y.toNat * 256 ^ as.length := Nat.mul_le_mul_right _ hxy
    _ ≤ y.toNat * 256 ^ as.length + value bs := Nat.le_add_right _ _

/-- Equal leading bytes leave the order to the rest. -/
theorem value_cons_lt_value_cons_iff {x : UInt8} {as bs : List UInt8}
    (hlen : as.length = bs.length) :
    value (x :: as) < value (x :: bs) ↔ value as < value bs := by
  rw [value_cons, value_cons, hlen]
  omega

/-- Equal leading bytes leave the comparison to the rest. -/
theorem compare_value_cons_self {x : UInt8} {as bs : List UInt8} (hlen : as.length = bs.length) :
    compare (value (x :: as)) (value (x :: bs)) = compare (value as) (value bs) := by
  rcases lt_trichotomy (value as) (value bs) with h | h | h
  · rw [compare_lt_iff_lt.mpr h, compare_lt_iff_lt.mpr ((value_cons_lt_value_cons_iff hlen).mpr h)]
  · simp [eq_of_value_eq hlen h]
  · rw [compare_gt_iff_gt.mpr h,
      compare_gt_iff_gt.mpr ((value_cons_lt_value_cons_iff hlen.symm).mpr h)]

/-- A differing leading byte decides the comparison, at equal lengths. -/
theorem compare_value_cons_of_ne {x y : UInt8} {as bs : List UInt8}
    (hlen : as.length = bs.length) (hxy : x ≠ y) :
    compare (value (x :: as)) (value (y :: bs)) = compare x.toNat y.toNat := by
  rcases Nat.lt_or_gt_of_ne fun h => hxy (UInt8.toNat_inj.mp h) with h | h
  · rw [compare_lt_iff_lt.mpr h, compare_lt_iff_lt.mpr (value_cons_lt_value_cons hlen h)]
  · rw [compare_gt_iff_gt.mpr h, compare_gt_iff_gt.mpr (value_cons_lt_value_cons hlen.symm h)]

/-- Appending a byte at the least significant end. -/
theorem value_append_singleton : ∀ (l : List UInt8) (b : UInt8),
    value (l ++ [b]) = value l * 256 + b.toNat
  | [], b => by simp
  | x :: xs, b => by
    rw [List.cons_append, value_cons, value_append_singleton xs b, value_cons,
      List.length_append, List.length_singleton, pow_succ]
    ring

theorem value_append : ∀ (a b : List UInt8), value (a ++ b) = value a * 256 ^ b.length + value b
  | [], b => by simp
  | x :: xs, b => by
    rw [List.cons_append, value_cons, value_append xs b, value_cons, List.length_append, pow_add]
    ring

/-! ## Bytes at a position -/

/-- `Arrays.fill(a, fromIndex, a.length, v)`: every byte from `fromIndex` on set to `v`. -/
def fill (a : List UInt8) (fromIndex : Nat) (v : UInt8) : List UInt8 :=
  a.take fromIndex ++ List.replicate (a.length - fromIndex) v

@[simp] theorem length_fill (a : List UInt8) (n : Nat) (v : UInt8) :
    (fill a n v).length = a.length := by
  simp [fill]; omega

@[simp] theorem value_replicate_zero : ∀ (n : Nat), value (List.replicate n 0) = 0
  | 0 => rfl
  | n + 1 => by simp [List.replicate_succ, value_replicate_zero n]

theorem value_replicate_ff : ∀ (n : Nat), value (List.replicate n 0xff) + 1 = 256 ^ n
  | 0 => rfl
  | n + 1 => by
    have ih := value_replicate_ff n
    simp only [List.replicate_succ, value_cons, List.length_replicate, pow_succ]
    simp only [UInt8.reduceToNat]
    omega

/-- `n` bytes of `0xff` are the largest number of `8 * n` bits. -/
theorem value_replicate_ff_eq (n : Nat) : value (List.replicate n 0xff) = 2 ^ (8 * n) - 1 := by
  have h := value_replicate_ff n
  rw [pow_mul, show (2 : Nat) ^ 8 = 256 from rfl]
  omega

/-- The bytes from `n` on are the number modulo their weight. -/
theorem value_drop (a : List UInt8) (n : Nat) : value (a.drop n) = value a % 256 ^ (a.length - n) := by
  have hsplit := value_append (a.take n) (a.drop n)
  rw [List.take_append_drop, List.length_drop] at hsplit
  have hdrop := value_lt (a.drop n)
  rw [List.length_drop] at hdrop
  rw [hsplit, Nat.add_comm, Nat.add_mul_mod_self_right, Nat.mod_eq_of_lt hdrop]

/-! ## Numbers as byte strings -/

/-- The `n` big-endian bytes of `v` modulo `256 ^ n`: what `htons`, `htonl` or
`htobe64` followed by a copy of the bytes writes. -/
def ofValue : Nat → Nat → List UInt8
  | 0, _ => []
  | n + 1, v => ofValue n (v / 256) ++ [UInt8.ofNat v]

@[simp] theorem length_ofValue : ∀ (n v : Nat), (ofValue n v).length = n
  | 0, _ => rfl
  | n + 1, v => by rw [ofValue, List.length_append, length_ofValue n, List.length_singleton]

/-- Reading `n` bytes back gives the number modulo `256 ^ n`. -/
theorem value_ofValue : ∀ (n v : Nat), value (ofValue n v) = v % 256 ^ n
  | 0, v => by simp [ofValue, Nat.mod_one]
  | n + 1, v => by
    rw [ofValue, value_append_singleton, value_ofValue n, UInt8.toNat_ofNat', pow_succ 256 n, Nat.mul_comm (256 ^ n) 256,
      Nat.mod_mul]
    omega

/-- Only the number modulo `256 ^ n` matters, so a wider truncation first changes
nothing. -/
theorem ofValue_mod_of_le {n m : Nat} (h : n ≤ m) (v : Nat) : ofValue n (v % 256 ^ m) = ofValue n v :=
  eq_of_value_eq (by simp) (by
    rw [value_ofValue, value_ofValue, Nat.mod_mod_of_dvd _ (pow_dvd_pow 256 h)])

/-- The low `n` bytes of an `n + 1`-byte number. -/
theorem drop_one_ofValue (n v : Nat) : (ofValue (n + 1) v).drop 1 = ofValue n v :=
  eq_of_value_eq (by simp) (by
    rw [value_drop, value_ofValue, value_ofValue, length_ofValue, Nat.add_sub_cancel,
      Nat.mod_mod_of_dvd _ (pow_dvd_pow 256 (Nat.le_succ n))])

/-- The first `n` bytes are the number without its last `a.length - n` bytes. -/
theorem value_take (a : List UInt8) (n : Nat) :
    value (a.take n) = value a / 256 ^ (a.length - n) := by
  have hsplit := value_append (a.take n) (a.drop n)
  rw [List.take_append_drop, List.length_drop] at hsplit
  have hpos : 0 < 256 ^ (a.length - n) := Nat.pos_of_ne_zero (by simp)
  have hdrop := value_lt (a.drop n)
  rw [List.length_drop] at hdrop
  rw [hsplit, Nat.add_comm, Nat.add_mul_div_right _ _ hpos, Nat.div_eq_of_lt hdrop, Nat.zero_add]

/-! ## Division by a small number, byte by byte -/

/-- The number of `bs` under a carry `r` from the bytes before them. -/
def carried (r : Nat) (bs : List UInt8) : Nat := r * 256 ^ bs.length + value bs

@[simp] theorem carried_nil (r : Nat) : carried r [] = r := by simp [carried]

theorem carried_zero (bs : List UInt8) : carried 0 bs = value bs := by simp [carried]

/-- Bringing down the next byte moves the carry one byte on. -/
theorem carried_cons (r : Nat) (b : UInt8) (bs : List UInt8) :
    carried r (b :: bs) = carried (r * 256 + b.toNat) bs := by
  simp only [carried, value_cons, List.length_cons, pow_succ]
  ring

/-- Bringing down byte `i` of a buffer. -/
theorem carried_drop (r : Nat) {l : List UInt8} {i : Nat} (h : i < l.length) :
    carried r (l.drop i) = carried (r * 256 + l[i].toNat) (l.drop (i + 1)) := by
  rw [List.drop_eq_getElem_cons h, carried_cons]

/-- Dividing by `d`: the carry's own quotient, then the bytes under the carry's
remainder. -/
theorem carried_div_mod {d : Nat} (hd : 0 < d) (r : Nat) (bs : List UInt8) :
    carried r bs / d = r / d * 256 ^ bs.length + carried (r % d) bs / d ∧
      carried r bs % d = carried (r % d) bs % d := by
  have hsplit : carried r bs = carried (r % d) bs + d * (r / d * 256 ^ bs.length) := by
    simp only [carried]
    conv_lhs => rw [← Nat.mod_add_div r d]
    ring
  rw [hsplit, Nat.add_mul_div_left _ _ hd, Nat.add_mul_mod_self_left]
  exact ⟨Nat.add_comm _ _, rfl⟩

theorem value_eq_zero_iff : ∀ {l : List UInt8}, value l = 0 ↔ ∀ b ∈ l, b = 0
  | [] => by simp
  | b :: bs => by
    rw [value_cons, Nat.add_eq_zero_iff, Nat.mul_eq_zero, value_eq_zero_iff, List.forall_mem_cons,
      ← UInt8.toNat_inj, UInt8.toNat_zero]
    simp

/-- Leading zero bytes weigh nothing. -/
theorem value_dropWhile_zero : ∀ l : List UInt8, value (l.dropWhile (· == 0)) = value l
  | [] => rfl
  | b :: bs => by
    by_cases hb : b = 0
    · subst hb
      simp [value_dropWhile_zero bs]
    · simp [hb]

/-- Reading a byte after writing one. -/
theorem getD_set (a : List UInt8) {i : Nat} (hi : i < a.length) (b : UInt8) (j : Nat) :
    (a.set i b).getD j 0 = if i = j then b else a.getD j 0 := by
  rw [List.getD_eq_getElem?_getD, List.getD_eq_getElem?_getD, List.getElem?_set]
  split_ifs <;> simp_all

/-- Byte `i` read off the number. -/
theorem toNat_getD (a : List UInt8) {i : Nat} (hi : i < a.length) :
    (a.getD i 0).toNat = value a / 256 ^ (a.length - 1 - i) % 256 := by
  rw [show a.length - 1 - i = a.length - (i + 1) by omega, ← value_take a (i + 1),
    List.take_add_one, List.getElem?_eq_getElem hi, Option.toList_some, value_append_singleton,
    List.getD_eq_getElem _ _ hi]
  have := a[i].toNat_lt
  omega

/-- Replacing byte `i` changes the number by the difference of the bytes, at the
weight of byte `i`. -/
theorem value_set : ∀ (a : List UInt8) {i : Nat}, i < a.length → ∀ (b : UInt8),
    value (a.set i b) + (a.getD i 0).toNat * 256 ^ (a.length - 1 - i) =
      value a + b.toNat * 256 ^ (a.length - 1 - i)
  | [], _, hi, _ => absurd hi (Nat.not_lt_zero _)
  | x :: xs, 0, _, b => by
    simp only [List.set_cons_zero, value_cons, List.getD_cons_zero, List.length_cons]
    simp only [Nat.add_sub_cancel, Nat.sub_zero]
    omega
  | x :: xs, i + 1, hi, b => by
    have ih := value_set xs (i := i) (by simpa using hi) b
    simp only [List.set_cons_succ, value_cons, List.getD_cons_succ, List.length_cons,
      List.length_set] at ih ⊢
    rw [show xs.length + 1 - 1 - (i + 1) = xs.length - 1 - i by omega]
    omega

/-- Bit `j` of byte `i` is bit `8 * (n - 1 - i) + j` of the number. -/
theorem testBit_value (a : List UInt8) {i j : Nat} (hi : i < a.length) (hj : j < 8) :
    (value a).testBit (8 * (a.length - 1 - i) + j) = (a.getD i 0).toNat.testBit j := by
  rw [toNat_getD a hi, show (256 : Nat) = 2 ^ 8 from rfl, Nat.testBit_mod_two_pow, ← pow_mul,
    Nat.testBit_div_two_pow, Nat.add_comm]
  simp [hj]

/-- Bit `idx` from the top, under its byte's mask, is bit `8 * n - 1 - idx` of the value. -/
theorem and_mask_ne_zero_iff (a : List UInt8) {idx : ℕ} (h : idx < 8 * a.length) :
    a.getD (idx / 8) 0 &&& UInt8.ofNat (2 ^ (7 - idx % 8)) ≠ 0 ↔
      (value a).testBit (8 * a.length - 1 - idx) = true := by
  rw [Bits.and_two_pow_ne_zero_iff _ (by omega), ← testBit_value a (by omega) (by omega)]
  rw [show 8 * (a.length - 1 - idx / 8) + (7 - idx % 8) = 8 * a.length - 1 - idx by omega]

theorem and_mask_eq_iff {a b : List UInt8} (hlen : b.length = a.length) {idx : ℕ}
    (h : idx < 8 * a.length) :
    a.getD (idx / 8) 0 &&& UInt8.ofNat (2 ^ (7 - idx % 8)) =
        b.getD (idx / 8) 0 &&& UInt8.ofNat (2 ^ (7 - idx % 8)) ↔
      (value a).testBit (8 * a.length - 1 - idx) = (value b).testBit (8 * a.length - 1 - idx) := by
  rw [Bits.and_two_pow_eq_iff _ _ (by omega), ← testBit_value a (by omega) (by omega),
    ← testBit_value b (by omega) (by omega), hlen]
  rw [show 8 * (a.length - 1 - idx / 8) + (7 - idx % 8) = 8 * a.length - 1 - idx by omega]

/-- The bits of an `n`-byte address above `8 * n` are clear. -/
theorem testBit_value_of_le (a : List UInt8) {i : ℕ} (h : 8 * a.length ≤ i) :
    (value a).testBit i = false :=
  Nat.testBit_lt_two_pow (lt_of_lt_of_le (value_lt a)
    (by rw [show (256 : ℕ) = 2 ^ 8 from rfl, ← pow_mul]; exact Nat.pow_le_pow_right (by norm_num) h))

/-- Bit `i` of the number is bit `i % 8` of byte `n - 1 - i / 8`, and clear from
`8 * n` up. -/
theorem testBit_value_eq (a : List UInt8) (i : ℕ) :
    (value a).testBit i =
      (decide (i < 8 * a.length) && (a.getD (a.length - 1 - i / 8) 0).toNat.testBit (i % 8)) := by
  by_cases h : i < 8 * a.length
  · rw [← testBit_value a (i := a.length - 1 - i / 8) (by omega) (Nat.mod_lt _ (by norm_num)),
      show 8 * (a.length - 1 - (a.length - 1 - i / 8)) + i % 8 = i by omega]
    simp [h]
  · rw [testBit_value_of_le a (by omega)]
    simp [h]

/-- Byte `j` of a string filled from byte `k` on. -/
theorem getD_fill (a : List UInt8) (k : ℕ) (v : UInt8) (j : ℕ) :
    (fill a k v).getD j 0 = if j < k then a.getD j 0 else if j < a.length then v else 0 := by
  simp only [fill, List.getD_eq_getElem?_getD, List.getElem?_append, List.length_take,
    List.getElem?_take, List.getElem?_replicate]
  split_ifs <;> first | rfl | (exfalso; omega) | simp_all

/-- The first `p` bits of `a` kept and the others cleared, byte by byte: the first
`(p + 7) / 8` bytes kept, the last of them under a mask of its high bits, and zero bytes
after them. -/
theorem value_set_fill_and (a : List UInt8) {p : ℕ} (hp0 : 0 < p) (hp : p ≤ 8 * a.length)
    (m : UInt8) (hm : ∀ b < 8, m.toNat.testBit b = decide ((p + 7) / 8 * 8 - p ≤ b)) :
    value ((fill a ((p + 7) / 8) 0).set ((p + 7) / 8 - 1)
        ((fill a ((p + 7) / 8) 0).getD ((p + 7) / 8 - 1) 0 &&& m)) =
      value a - value a % 2 ^ (8 * a.length - p) := by
  refine Nat.eq_of_testBit_eq fun i => ?_
  have hk : (p + 7) / 8 - 1 < a.length := by omega
  rw [testBit_value_eq, List.length_set, length_fill, Bits.testBit_sub_mod_two_pow_eq,
    testBit_value_eq, getD_set _ (by rw [length_fill]; exact hk), getD_fill, getD_fill]
  by_cases hi : i < 8 * a.length
  · have hr : i % 8 < 8 := Nat.mod_lt _ (by norm_num)
    simp only [hi, decide_true, Bool.true_and]
    split_ifs with hj hlt hlt'
    · rw [UInt8.toNat_and, Nat.testBit_and, hm _ hr, Bool.and_comm, hj]
      congr 1
      rw [decide_eq_decide]
      omega
    · omega
    · rw [show decide (8 * a.length - p ≤ i) = true by simp; omega, Bool.true_and]
    · simp only [UInt8.toNat_zero, Nat.zero_testBit]
      rw [show decide (8 * a.length - p ≤ i) = false by simp; omega, Bool.false_and]
    · omega
  · simp [hi]

/-- The first `p` bits of `a` kept and the others set, byte by byte. -/
theorem value_set_fill_or (a : List UInt8) {p : ℕ} (hp0 : 0 < p) (hp : p ≤ 8 * a.length)
    (m : UInt8) (hm : ∀ b < 8, m.toNat.testBit b = decide (b < (p + 7) / 8 * 8 - p)) :
    value ((fill a ((p + 7) / 8) 0xff).set ((p + 7) / 8 - 1)
        ((fill a ((p + 7) / 8) 0xff).getD ((p + 7) / 8 - 1) 0 ||| m)) =
      value a - value a % 2 ^ (8 * a.length - p) + (2 ^ (8 * a.length - p) - 1) := by
  refine Nat.eq_of_testBit_eq fun i => ?_
  have hk : (p + 7) / 8 - 1 < a.length := by omega
  rw [testBit_value_eq, List.length_set, length_fill, Bits.testBit_sub_mod_add_two_pow_sub_one,
    testBit_value_eq, getD_set _ (by rw [length_fill]; exact hk), getD_fill, getD_fill]
  by_cases hi : i < 8 * a.length
  · have hr : i % 8 < 8 := Nat.mod_lt _ (by norm_num)
    simp only [hi, decide_true, Bool.true_and]
    split_ifs with hj hlt hlt'
    · rw [UInt8.toNat_or, Nat.testBit_or, hm _ hr, Bool.or_comm, hj]
      congr 1
      rw [decide_eq_decide]
      omega
    · omega
    · rw [show decide (i < 8 * a.length - p) = false by simp; omega, Bool.false_or]
    · rw [show decide (i < 8 * a.length - p) = true by simp; omega, Bool.true_or]
      simpa [hr] using Nat.testBit_two_pow_sub_one 8 (i % 8)
    · omega
  · simp only [hi, decide_false, Bool.false_and]
    rw [show decide (i < 8 * a.length - p) = false by simp; omega, Bool.false_or]
/-- The weight of bit `j` of byte `i`. -/
theorem two_pow_bit (n i j : Nat) : 2 ^ (8 * (n - 1 - i) + j) = 2 ^ j * 256 ^ (n - 1 - i) := by
  rw [pow_add, pow_mul, Nat.mul_comm]; rfl

/-- Clearing bit `j` of byte `i` takes its weight off when the bit was set. -/
theorem value_set_and_not (a : List UInt8) {i j : Nat} (hi : i < a.length) (hj : j < 8) :
    value (a.set i (a.getD i 0 &&& ~~~UInt8.ofNat (2 ^ j))) +
        (if (value a).testBit (8 * (a.length - 1 - i) + j) then 2 ^ (8 * (a.length - 1 - i) + j) else 0) =
      value a := by
  have hset := value_set a hi (a.getD i 0 &&& ~~~UInt8.ofNat (2 ^ j))
  have hbyte := Bits.toNat_and_not_two_pow (a.getD i 0) hj
  rw [testBit_value a hi hj, two_pow_bit]
  generalize 256 ^ (a.length - 1 - i) = W at hset ⊢
  split_ifs at hbyte ⊢
  · rw [← hbyte, Nat.add_mul] at hset; omega
  · rw [Nat.add_zero] at hbyte; rw [hbyte] at hset; omega

/-- Flipping bit `j` of byte `i` adds its weight when the bit was clear, and takes it
off when it was set. -/
theorem value_set_xor (a : List UInt8) {i j : Nat} (hi : i < a.length) (hj : j < 8) :
    value (a.set i (a.getD i 0 ^^^ UInt8.ofNat (2 ^ j))) +
        (if (value a).testBit (8 * (a.length - 1 - i) + j) then 2 ^ (8 * (a.length - 1 - i) + j) else 0) =
      value a + (if (value a).testBit (8 * (a.length - 1 - i) + j) then 0 else
        2 ^ (8 * (a.length - 1 - i) + j)) := by
  have hset := value_set a hi (a.getD i 0 ^^^ UInt8.ofNat (2 ^ j))
  have hbyte := Bits.toNat_xor_two_pow (a.getD i 0) hj
  rw [testBit_value a hi hj, two_pow_bit]
  generalize 256 ^ (a.length - 1 - i) = W at hset ⊢
  split_ifs at hbyte ⊢
  · rw [Nat.add_zero] at hbyte; rw [← hbyte, Nat.add_mul] at hset; omega
  · rw [Nat.add_zero] at hbyte; rw [hbyte, Nat.add_mul] at hset; omega

/-! ## The first bits of a byte string -/

/-- Bit `t` of an `n`-byte value is bit `t % 8` of byte `n - 1 - t / 8`, and bit `j` of
byte `k` stands `8 * k + 7 - j` bits from the top: the two are among the first `p` bits
together. -/
theorem inPrefix_iff {n p t : ℕ} (ht : t < 8 * n) :
    8 * (n - 1 - t / 8) + 8 ≤ p + t % 8 ↔ 8 * n - p ≤ t := by
  omega

/-- A string whose bytes keep the bits of `a` among the first `p` and clear the others
is `a` with its low bits cleared. -/
theorem value_eq_sub_mod_of_testBit {L a : List UInt8} {p : ℕ} (hlen : L.length = a.length)
    (h : ∀ k < a.length, ∀ j < 8,
      (L.getD k 0).toNat.testBit j = ((a.getD k 0).toNat.testBit j && decide (8 * k + 8 ≤ p + j))) :
    value L = value a - value a % 2 ^ (8 * a.length - p) := by
  refine Nat.eq_of_testBit_eq fun t => ?_
  rw [testBit_value_eq, Bits.testBit_sub_mod_two_pow_eq, testBit_value_eq, hlen]
  by_cases ht : t < 8 * a.length
  · rw [h _ (by omega) _ (Nat.mod_lt _ (by norm_num))]
    simp only [ht, inPrefix_iff ht, decide_true, Bool.true_and, Bool.and_comm]
  · simp [ht]

/-- A string whose bytes keep the bits of `a` among the first `p` and set the others
is `a` with its low bits set. -/
theorem value_eq_sub_mod_add_of_testBit {L a : List UInt8} {p : ℕ} (hlen : L.length = a.length)
    (h : ∀ k < a.length, ∀ j < 8,
      (L.getD k 0).toNat.testBit j = ((a.getD k 0).toNat.testBit j || !decide (8 * k + 8 ≤ p + j))) :
    value L = value a - value a % 2 ^ (8 * a.length - p) + (2 ^ (8 * a.length - p) - 1) := by
  refine Nat.eq_of_testBit_eq fun t => ?_
  rw [testBit_value_eq, Bits.testBit_sub_mod_add_two_pow_sub_one, testBit_value_eq, hlen]
  by_cases ht : t < 8 * a.length
  · rw [h _ (by omega) _ (Nat.mod_lt _ (by norm_num))]
    have hlt : decide (t < 8 * a.length - p) = !decide (8 * a.length - p ≤ t) := by
      rw [← decide_not]; exact decide_eq_decide.mpr (by omega)
    simp only [ht, inPrefix_iff ht, decide_true, Bool.true_and, hlt, Bool.or_comm]
  · have : ¬ t < 8 * a.length - p := by omega
    simp [ht, this]

/-- Two strings of `n` bytes agree in their first `p` bits, byte by byte, exactly when
their values agree from bit `8 * n - p` up. -/
theorem div_two_pow_eq_iff {a b : List UInt8} (hlen : b.length = a.length) (p : ℕ) :
    value a / 2 ^ (8 * a.length - p) = value b / 2 ^ (8 * a.length - p) ↔
      ∀ k < a.length, ∀ j < 8, 8 * k + 8 ≤ p + j →
        (a.getD k 0).toNat.testBit j = (b.getD k 0).toNat.testBit j := by
  constructor
  · intro hdiv k hk j hj hpre
    rw [← testBit_value a hk hj, ← testBit_value b (hlen ▸ hk) hj, hlen]
    exact Bits.testBit_eq_of_div_two_pow_eq hdiv (by omega)
  · intro h
    refine Bits.div_two_pow_eq_of_testBit_eq fun t ht' => ?_
    rw [testBit_value_eq, testBit_value_eq, hlen]
    by_cases ht : t < 8 * a.length
    · simp only [ht, decide_true, Bool.true_and]
      exact h _ (by omega) _ (Nat.mod_lt _ (by norm_num)) ((inPrefix_iff ht).mpr ht')
    · simp [ht]

end VpnClient.Lib.Bytes
