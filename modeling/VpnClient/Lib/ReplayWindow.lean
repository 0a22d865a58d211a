import Mathlib

/-!
# Anti-replay windows

A receiver that must accept every sequence number at most once, but tolerates
reordering, keeps the highest number it has accepted, `H`, and one flag for each of
the `W` numbers `H, H - 1, …, H - W + 1` (RFC 4303, 3.4.3). A number above `H` is
fresh; a number inside the window is fresh when its flag is clear; any other number
is refused.

The first section states what such a receiver is for, over the set `A` of numbers
accepted so far: `high A` is `H`, and `Fresh W A s` says that `s` is to be accepted.
The second states how a ring of `W` flags implements it. The ring has a head
`index`, the flag of `H`; the flag of `H - j` lies `j` places behind the head
(`back`), and moving the window up by `k` moves the head `k` places on (`ahead`),
clearing every flag it passes (`RotatedBy`). `Represents` is the abstraction
relation, and the three lemmas an implementation needs are

* `Represents.fresh_iff`: the check, read in the ring;
* `Represents.mark`: accepting a number inside the window sets its flag;
* `Represents.advance`: accepting a number above `H` rotates the ring and sets the
  flag at the new head.

Positions are kept below `W` and computed with one wrap (`back_eq`, `ahead_eq`),
so that every proof about them is linear arithmetic.
-/

namespace VpnClient.Lib.ReplayWindow

/-! ## 1. The receiver -/

/-- The highest number accepted so far, `0` before any. -/
def high (A : Finset ℕ) : ℕ := A.sup id

/-- The numbers a receiver with a window of `W` accepts once it has accepted `A`:
not `0`, not accepted before, and above the highest one or less than `W` below it. -/
def Fresh (W : ℕ) (A : Finset ℕ) (s : ℕ) : Prop :=
  s ≠ 0 ∧ s ∉ A ∧ (high A < s ∨ high A - s < W)

instance (W : ℕ) (A : Finset ℕ) (s : ℕ) : Decidable (Fresh W A s) :=
  inferInstanceAs (Decidable (s ≠ 0 ∧ s ∉ A ∧ (high A < s ∨ high A - s < W)))

@[simp] theorem high_empty : high ∅ = 0 := rfl

theorem le_high {A : Finset ℕ} {s : ℕ} (h : s ∈ A) : s ≤ high A :=
  Finset.le_sup (f := id) h

theorem high_insert (s : ℕ) (A : Finset ℕ) : high (insert s A) = max s (high A) :=
  Finset.sup_insert

theorem not_mem_of_high_lt {A : Finset ℕ} {s : ℕ} (h : high A < s) : s ∉ A :=
  fun hs => absurd (le_high hs) (not_le.mpr h)

theorem Fresh.not_mem {W s : ℕ} {A : Finset ℕ} (h : Fresh W A s) : s ∉ A := h.2.1

/-! ## 2. The ring -/

section Ring

variable {W index j k : ℕ}

/-- The position `j` places behind `index` on a ring of `W` positions. -/
def back (W index j : ℕ) : ℕ := (index + W - j) % W

/-- The position `k` places after `index` on a ring of `W` positions. -/
def ahead (W index k : ℕ) : ℕ := (index + k) % W

theorem back_eq (hi : index < W) (hj : j ≤ W) :
    back W index j = if j ≤ index then index - j else index + W - j := by
  unfold back
  split_ifs with h
  · rw [show index + W - j = index - j + W by omega, Nat.add_mod_right,
      Nat.mod_eq_of_lt (by omega)]
  · exact Nat.mod_eq_of_lt (by omega)

theorem ahead_eq (hi : index < W) (hk : k ≤ W) :
    ahead W index k = if index + k < W then index + k else index + k - W := by
  unfold ahead
  split_ifs with h
  · exact Nat.mod_eq_of_lt h
  · rw [Nat.mod_eq_sub_mod (by omega), Nat.mod_eq_of_lt (by omega)]

theorem back_lt (hi : index < W) (hj : j < W) : back W index j < W := by
  rw [back_eq hi hj.le]; split_ifs <;> omega

theorem ahead_lt (hi : index < W) (hk : k ≤ W) : ahead W index k < W := by
  rw [ahead_eq hi hk]; split_ifs <;> omega

@[simp] theorem back_zero (hi : index < W) : back W index 0 = index := by
  rw [back_eq hi (Nat.zero_le _)]; simp

/-- Distinct distances behind the head are distinct positions. -/
theorem back_inj (hi : index < W) {j' : ℕ} (hj : j < W) (hj' : j' < W) :
    back W index j = back W index j' ↔ j = j' := by
  rw [back_eq hi hj.le, back_eq hi hj'.le]
  split_ifs <;> omega

/-- Only the head itself is no distance behind the head. -/
theorem back_succ_ne (hi : index < W) (hj : j + 1 < W) : back W index (j + 1) ≠ index := by
  rw [back_eq hi hj.le]; split_ifs <;> omega

/-- One place on, every distance behind the head grows by one. -/
theorem back_ahead_one (hi : index < W) (hj : j + 1 < W) :
    back W (ahead W index 1) (j + 1) = back W index j := by
  have hW : 1 ≤ W := by omega
  rw [ahead_eq hi hW]
  split_ifs with h
  · rw [back_eq h (by omega), back_eq hi (by omega)]; split_ifs <;> omega
  · rw [back_eq (by omega) (by omega), back_eq hi (by omega)]; split_ifs <;> omega

/-- `bit'` and `index'` are the ring after `k` rotations from `bit` and `index`:
the head moved `k` places on, the `k` positions it passed (up to the new head) are
clear, and everything else kept its flag. -/
structure RotatedBy (W : ℕ) (bit : ℕ → Bool) (index k : ℕ) (bit' : ℕ → Bool) (index' : ℕ) :
    Prop where
  index_eq : index' = ahead W index k
  passed : ∀ j < k, bit' (back W index' j) = false
  kept : ∀ j, k ≤ j → j < W → bit' (back W index' j) = bit (back W index (j - k))

theorem RotatedBy.zero {bit : ℕ → Bool} (hi : index < W) : RotatedBy W bit index 0 bit index :=
  ⟨by rw [ahead, Nat.add_zero, Nat.mod_eq_of_lt hi], fun _ h => absurd h (Nat.not_lt_zero _),
    fun j _ _ => by rw [Nat.sub_zero]⟩

/-- **One more rotation**: the head moves one place on and clears its new position. -/
theorem RotatedBy.step {bit bit' bit'' : ℕ → Bool} {index' : ℕ} (hi : index < W)
    (h : RotatedBy W bit index k bit' index') (hk : k < W)
    (hclear : bit'' (ahead W index' 1) = false)
    (hkeep : ∀ p < W, p ≠ ahead W index' 1 → bit'' p = bit' p) :
    RotatedBy W bit index (k + 1) bit'' (ahead W index' 1) := by
  have hi' : index' < W := h.index_eq ▸ ahead_lt hi hk.le
  refine ⟨?_, fun j hj => ?_, fun j hj hjW => ?_⟩
  · rw [h.index_eq, ahead_eq (ahead_lt hi hk.le) (k := 1) (by omega),
      ahead_eq hi (k := k + 1) (by omega), ahead_eq hi hk.le]
    split_ifs <;> omega
  · cases j with
    | zero => rwa [back_zero (ahead_lt hi' (by omega))]
    | succ j =>
      -- behind the new head: the old ring, one place further back
      rw [hkeep _ (back_lt (ahead_lt hi' (by omega)) (by omega))
          (back_succ_ne (ahead_lt hi' (by omega)) (by omega)),
        back_ahead_one hi' (by omega)]
      exact h.passed j (by omega)
  · obtain ⟨j, rfl⟩ : ∃ j', j = j' + 1 := ⟨j - 1, by omega⟩
    rw [hkeep _ (back_lt (ahead_lt hi' (by omega)) (by omega))
        (back_succ_ne (ahead_lt hi' (by omega)) (by omega)),
      back_ahead_one hi' (by omega), h.kept j (by omega) (by omega)]
    congr 2
    omega

end Ring

/-! ## 3. The ring represents the receiver -/

/-- The ring of `W` flags with head `index` holds the receiver that has accepted `A`,
with highest number `H`: `j` places behind the head is the flag of `H - j`. -/
structure Represents (W : ℕ) (bit : ℕ → Bool) (index H : ℕ) (A : Finset ℕ) : Prop where
  index_lt : index < W
  high_eq : high A = H
  bit_iff : ∀ j < W, bit (back W index j) = true ↔ j ≤ H ∧ H - j ∈ A

section Represents

variable {W index H : ℕ} {A : Finset ℕ} {bit : ℕ → Bool}

/-- A ring of clear flags holds the receiver that has accepted nothing. -/
theorem Represents.init (hW : 0 < W) (hbit : ∀ p < W, bit p = false) : Represents W bit 0 0 ∅ :=
  ⟨hW, rfl, fun j hj => by simp [hbit _ (back_lt hW hj)]⟩

/-- **The check, in the ring.** A number is fresh when it is above `H`, or when it is
not `0`, lies in the window, and its flag is clear. -/
theorem Represents.fresh_iff (h : Represents W bit index H A) (s : ℕ) :
    Fresh W A s ↔ H < s ∨ (0 < s ∧ H - s < W ∧ bit (back W index (H - s)) = false) := by
  unfold Fresh
  rw [h.high_eq]
  by_cases hs : H < s
  · have hnot : s ∉ A := not_mem_of_high_lt (h.high_eq ▸ hs)
    simp only [hs, true_or, and_true, iff_true]
    exact ⟨by omega, hnot⟩
  · simp only [hs, false_or]
    constructor
    · rintro ⟨hs0, hA, hw⟩
      refine ⟨by omega, hw, ?_⟩
      rw [Bool.eq_false_iff, Ne, h.bit_iff _ hw]
      rw [show H - (H - s) = s by omega]
      exact fun h' => hA h'.2
    · rintro ⟨hs0, hw, hbit⟩
      refine ⟨by omega, fun hA => ?_, hw⟩
      have hset := (h.bit_iff _ hw).mpr ⟨by omega, by rwa [show H - (H - s) = s by omega]⟩
      rw [hbit] at hset
      exact Bool.false_ne_true hset

/-- **Accepting a number inside the window** sets its flag and nothing else. -/
theorem Represents.mark (h : Represents W bit index H A) {s : ℕ} (hs : s ≤ H) (hw : H - s < W)
    {bit' : ℕ → Bool} (hset : bit' (back W index (H - s)) = true)
    (hkeep : ∀ p < W, p ≠ back W index (H - s) → bit' p = bit p) :
    Represents W bit' index H (insert s A) := by
  refine ⟨h.index_lt, by rw [high_insert, h.high_eq]; omega, fun j hj => ?_⟩
  by_cases hjs : j = H - s
  · subst hjs
    simp only [hset, true_iff]
    exact ⟨by omega, by rw [show H - (H - s) = s by omega]; exact Finset.mem_insert_self s A⟩
  · have hne : back W index j ≠ back W index (H - s) := by
      rw [Ne, back_inj h.index_lt hj hw]; exact hjs
    rw [hkeep _ (back_lt h.index_lt hj) hne, h.bit_iff j hj, Finset.mem_insert]
    constructor
    · exact fun ⟨hjH, hA⟩ => ⟨hjH, Or.inr hA⟩
    · rintro ⟨hjH, hA | hA⟩
      · omega
      · exact ⟨hjH, hA⟩

/-- **Accepting a number `S` above `H`** rotates the ring by `S - H` places, or by all
`W` if the window moves past its old self, and sets the flag at the new head. -/
theorem Represents.advance (h : Represents W bit index H A) {S k : ℕ} (hHS : H < S)
    (hk : k = min (S - H) W) {bit' bit'' : ℕ → Bool} {index' : ℕ}
    (hrot : RotatedBy W bit index k bit' index') (hset : bit'' index' = true)
    (hkeep : ∀ p < W, p ≠ index' → bit'' p = bit' p) :
    Represents W bit'' index' S (insert S A) := by
  have hi' : index' < W := hrot.index_eq ▸ ahead_lt h.index_lt (by omega)
  refine ⟨hi', by rw [high_insert, h.high_eq]; omega, fun j hj => ?_⟩
  rw [Finset.mem_insert]
  cases j with
  | zero => simp [back_zero hi', hset]
  | succ j =>
    rw [hkeep _ (back_lt hi' hj) (back_succ_ne hi' hj)]
    by_cases hjk : j + 1 < k
    · -- passed by the rotation: numbers between `H` and `S`, never accepted
      rw [hrot.passed _ hjk]
      simp only [Bool.false_eq_true, false_iff, not_and, not_or]
      intro _
      exact ⟨by omega, not_mem_of_high_lt (by rw [h.high_eq]; omega)⟩
    · -- kept: the same numbers as before, `S - H` places further back
      rw [hrot.kept _ (by omega) hj, h.bit_iff _ (by omega)]
      constructor
      · rintro ⟨hle, hA⟩
        exact ⟨by omega, Or.inr (by rwa [show S - (j + 1) = H - (j + 1 - k) by omega])⟩
      · rintro ⟨hle, hA | hA⟩
        · omega
        · exact ⟨by omega, by rwa [show H - (j + 1 - k) = S - (j + 1) by omega]⟩

end Represents

end VpnClient.Lib.ReplayWindow
