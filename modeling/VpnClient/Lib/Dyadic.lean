import Mathlib.Data.Finset.Card
import Mathlib.Data.List.Pairwise
import Mathlib.Order.Disjoint
import VpnClient.Lib.Bits

/-!
# Aligned blocks of numbers

The aligned block of `2 ^ k` numbers that holds `x` is the set of numbers that agree
with `x` from bit `k` up (`blockOf k x`). Two blocks are nested or disjoint, and the
block of `2 ^ (k + 1)` holding `x`, its parent, is made of two halves, siblings of one
another.

A block of a set `I` is maximal when its parent is not a block of `I`. The maximal
blocks of `I` are pairwise disjoint (`MaximalIn.eq_of_mem`), and no two of them are
siblings. They are what every decomposition of `I` into blocks has to be measured
against:

* every cover of `I` by blocks of `I` has at least as many blocks as any family of
  disjoint maximal blocks (`length_le_of_maximal`);
* a decomposition of `I` into pairwise disjoint blocks with no two siblings among them
  is made of maximal blocks only (`maximalIn_of_no_siblings`), so it is unique.
-/

namespace VpnClient.Lib.Dyadic

/-- The aligned block of `2 ^ k` numbers that holds `x`. -/
def blockOf (k x : ℕ) : Set ℕ := {y | y / 2 ^ k = x / 2 ^ k}

/-- `blockOf k x` is a block of `I` that is not half of a block of `I`. -/
def MaximalIn (I : Set ℕ) (k x : ℕ) : Prop := blockOf k x ⊆ I ∧ ¬ blockOf (k + 1) x ⊆ I

@[simp] theorem mem_blockOf {k x y : ℕ} : y ∈ blockOf k x ↔ y / 2 ^ k = x / 2 ^ k := Iff.rfl

theorem mem_blockOf_self (k x : ℕ) : x ∈ blockOf k x := rfl

/-- The parent's index is half the block's. -/
theorem div_two_pow_succ (y k : ℕ) : y / 2 ^ (k + 1) = y / 2 ^ k / 2 := by
  rw [Nat.pow_succ, Nat.div_div_eq_div_mul]

theorem blockOf_eq_of_mem {k x y : ℕ} (h : y ∈ blockOf k x) : blockOf k y = blockOf k x := by
  ext z
  simp only [mem_blockOf] at h ⊢
  rw [h]

/-- The block of `2 ^ k` numbers from an aligned `a` is the interval `[a, a + 2 ^ k)`. -/
theorem mem_blockOf_iff_of_mod {k a y : ℕ} (ha : a % 2 ^ k = 0) :
    y ∈ blockOf k a ↔ a ≤ y ∧ y < a + 2 ^ k := by
  have hpos := Nat.two_pow_pos k
  have hy := Nat.div_add_mod y (2 ^ k)
  have hy' := Nat.mod_lt y hpos
  have ha' := Nat.div_add_mod a (2 ^ k)
  rw [ha, Nat.add_zero] at ha'
  rw [mem_blockOf]
  constructor
  · intro h
    rw [h] at hy
    omega
  · rintro ⟨h1, h2⟩
    refine Nat.div_eq_of_lt_le ?_ ?_
    · rw [Nat.mul_comm]
      omega
    · rw [Nat.add_mul, Nat.one_mul, Nat.mul_comm]
      omega

/-- The block of `2 ^ k` numbers holding `v` runs from `v` with its `k` low bits
cleared. -/
theorem mem_blockOf_iff (k v y : ℕ) :
    y ∈ blockOf k v ↔ v - v % 2 ^ k ≤ y ∧ y < v - v % 2 ^ k + 2 ^ k := by
  have hv := Nat.div_add_mod v (2 ^ k)
  have hstart : v - v % 2 ^ k = 2 ^ k * (v / 2 ^ k) := by omega
  have hblock : blockOf k v = blockOf k (v - v % 2 ^ k) := by
    ext z
    rw [mem_blockOf, mem_blockOf, hstart, Nat.mul_div_cancel_left _ (Nat.two_pow_pos k)]
  rw [hblock, mem_blockOf_iff_of_mod (by rw [hstart, Nat.mul_mod_right])]

/-- Two numbers in the interval of an aligned block share the block. -/
theorem mem_blockOf_of_aligned {k a x z : ℕ} (ha : a % 2 ^ k = 0) (hx : a ≤ x ∧ x < a + 2 ^ k)
    (hz : a ≤ z ∧ z < a + 2 ^ k) : z ∈ blockOf k x := by
  rw [blockOf_eq_of_mem ((mem_blockOf_iff_of_mod ha).mpr hx)]
  exact (mem_blockOf_iff_of_mod ha).mpr hz

/-- The parent of an aligned block reaches below it or above it. -/
theorem exists_mem_blockOf_succ_outside {k a : ℕ} (ha : a % 2 ^ k = 0) :
    ∃ z ∈ blockOf (k + 1) a, z < a ∨ a + 2 ^ k ≤ z := by
  have hpos := Nat.two_pow_pos k
  have hpow : 2 ^ (k + 1) = 2 ^ k + 2 ^ k := by rw [Nat.pow_succ]; omega
  have hmod := Nat.mod_lt a (Nat.two_pow_pos (k + 1))
  have hle := Nat.mod_le a (2 ^ (k + 1))
  -- the remainder below the parent's size is `0` or `2 ^ k`
  have hhalf := Bits.mod_two_pow_succ a k
  rw [ha, Nat.zero_add] at hhalf
  split_ifs at hhalf
  · exact ⟨a - 2 ^ k, (mem_blockOf_iff _ _ _).mpr (by omega), Or.inl (by omega)⟩
  · exact ⟨a + 2 ^ k, (mem_blockOf_iff _ _ _).mpr (by omega), Or.inr le_rfl⟩

/-- A block names its size: equal blocks have equal levels. -/
theorem level_eq_of_blockOf_eq {j y j' y' : ℕ} (h : blockOf j y = blockOf j' y') : j = j' := by
  -- the larger of the two would hold numbers `2 ^ j` apart or more
  have key : ∀ {j y j' y'}, blockOf j y = blockOf j' y' → j < j' → False := by
    intro j y j' y' h hlt
    have hpow : 2 * 2 ^ j ≤ 2 ^ j' := by
      rw [← Nat.pow_succ']
      exact Nat.pow_le_pow_right Nat.two_pos hlt
    have hlo : y' - y' % 2 ^ j' ∈ blockOf j y :=
      h ▸ (mem_blockOf_iff _ _ _).mpr ⟨le_rfl, by omega⟩
    have hhi : y' - y' % 2 ^ j' + (2 ^ j' - 1) ∈ blockOf j y :=
      h ▸ (mem_blockOf_iff _ _ _).mpr ⟨by omega, by omega⟩
    rw [mem_blockOf_iff] at hlo hhi
    omega
  rcases Nat.lt_trichotomy j j' with hlt | heq | hgt
  · exact (key h hlt).elim
  · exact heq
  · exact (key h.symm hgt).elim

/-- A block lies in each larger block holding one of its numbers. -/
theorem blockOf_subset_of_le {k j : ℕ} (h : k ≤ j) (x : ℕ) : blockOf k x ⊆ blockOf j x := by
  intro y hy
  simp only [mem_blockOf] at hy ⊢
  obtain ⟨d, rfl⟩ := Nat.exists_eq_add_of_le h
  rw [Nat.pow_add, ← Nat.div_div_eq_div_mul, ← Nat.div_div_eq_div_mul, hy]

/-- Two blocks that share a number are nested, the smaller in the larger. -/
theorem blockOf_subset_of_mem {k j x y z : ℕ} (hkj : k ≤ j) (hx : z ∈ blockOf k x)
    (hy : z ∈ blockOf j y) : blockOf k x ⊆ blockOf j y := by
  rw [← blockOf_eq_of_mem hx, ← blockOf_eq_of_mem hy]
  exact blockOf_subset_of_le hkj z

/-- The aligned block of `2 ^ a` numbers from `n` lies in the aligned block of `2 ^ b ≥ 2 ^ a`
numbers from `n'` exactly when `n` does. -/
theorem aligned_subset_iff {a b n n' : ℕ} (hab : a ≤ b) (hn : n % 2 ^ a = 0) (hn' : n' % 2 ^ b = 0) :
    n' ≤ n ∧ n + 2 ^ a ≤ n' + 2 ^ b ↔ n / 2 ^ b = n' / 2 ^ b := by
  have hpos := Nat.two_pow_pos a
  rw [← mem_blockOf, mem_blockOf_iff_of_mod hn']
  constructor
  · rintro ⟨h1, h2⟩
    exact ⟨h1, by omega⟩
  · intro hmem
    -- the last number of the smaller block lies in the larger one too
    have hsub := blockOf_subset_of_mem hab (mem_blockOf_self a n) ((mem_blockOf_iff_of_mod hn').mpr hmem)
    have hlast := (mem_blockOf_iff_of_mod hn').mp (hsub ((mem_blockOf_iff_of_mod hn).mpr
      (⟨Nat.le_add_right n (2 ^ a - 1), by omega⟩ : n ≤ n + (2 ^ a - 1) ∧ n + (2 ^ a - 1) < n + 2 ^ a)))
    exact ⟨hmem.1, by omega⟩

/-! ## Maximal blocks -/

section Maximal

variable {I : Set ℕ}

/-- A block of `I` that meets a maximal block of `I` lies inside it. -/
theorem MaximalIn.subset_of_mem {k x j y z : ℕ} (hmax : MaximalIn I k x) (hI : blockOf j y ⊆ I)
    (hx : z ∈ blockOf k x) (hy : z ∈ blockOf j y) : blockOf j y ⊆ blockOf k x := by
  rcases Nat.lt_or_ge k j with hkj | hjk
  · -- a larger block of `I` would hold the parent of the maximal one
    exact absurd ((blockOf_subset_of_mem hkj (blockOf_subset_of_le k.le_succ x hx) hy).trans hI)
      hmax.2
  · exact blockOf_subset_of_mem hjk hy hx

/-- Being maximal is a property of the block, whichever number names it. -/
theorem MaximalIn.of_blockOf_eq {k x j y : ℕ} (hmax : MaximalIn I k x)
    (h : blockOf j y = blockOf k x) : MaximalIn I j y := by
  obtain rfl := level_eq_of_blockOf_eq h
  have hy : y ∈ blockOf j x := h ▸ mem_blockOf_self j y
  refine ⟨h ▸ hmax.1, ?_⟩
  rw [blockOf_eq_of_mem (blockOf_subset_of_le j.le_succ x hy)]
  exact hmax.2

/-- Two maximal blocks of `I` that share a number are the same block. -/
theorem MaximalIn.eq_of_mem {k x j y z : ℕ} (hx : MaximalIn I k x) (hy : MaximalIn I j y)
    (hzx : z ∈ blockOf k x) (hzy : z ∈ blockOf j y) : blockOf k x = blockOf j y :=
  (hy.subset_of_mem hx.1 hzy hzx).antisymm (hx.subset_of_mem hy.1 hzx hzy)

/-- Two different blocks of one size are siblings when their parents agree; then
their parent lies in `I` as soon as both do. -/
theorem blockOf_succ_subset {k x y : ℕ} (hpar : blockOf (k + 1) x = blockOf (k + 1) y)
    (hne : blockOf k x ≠ blockOf k y) (hxI : blockOf k x ⊆ I) (hyI : blockOf k y ⊆ I) :
    blockOf (k + 1) x ⊆ I := by
  intro z hz
  -- the parent has two halves; `x` and `y` hold different ones
  have hx := Nat.div_add_mod (x / 2 ^ k) 2
  have hy := Nat.div_add_mod (y / 2 ^ k) 2
  have hz' := Nat.div_add_mod (z / 2 ^ k) 2
  have hxy : x / 2 ^ k / 2 = y / 2 ^ k / 2 := by
    have hx' : x ∈ blockOf (k + 1) y := hpar ▸ mem_blockOf_self (k + 1) x
    rwa [mem_blockOf, div_two_pow_succ, div_two_pow_succ] at hx'
  have hzx : z / 2 ^ k / 2 = x / 2 ^ k / 2 := by
    rwa [mem_blockOf, div_two_pow_succ, div_two_pow_succ] at hz
  have hne' : x / 2 ^ k ≠ y / 2 ^ k := fun h => hne (by ext w; simp [h])
  have hmx := Nat.mod_lt (x / 2 ^ k) Nat.two_pos
  have hmy := Nat.mod_lt (y / 2 ^ k) Nat.two_pos
  have hmz := Nat.mod_lt (z / 2 ^ k) Nat.two_pos
  by_cases hzk : z / 2 ^ k = x / 2 ^ k
  · exact hxI hzk
  · exact hyI (show z / 2 ^ k = y / 2 ^ k by omega)

/-- No two different maximal blocks of `I` are siblings. -/
theorem MaximalIn.not_siblings {k x y : ℕ} (hx : MaximalIn I k x) (hy : blockOf k y ⊆ I)
    (hne : blockOf k x ≠ blockOf k y) : blockOf (k + 1) x ≠ blockOf (k + 1) y :=
  fun hpar => hx.2 (blockOf_succ_subset hpar hne hx.1 hy)

end Maximal

/-! ## Counting blocks -/

section Count

variable {α β γ : Type*}

/-- A list of pairwise disjoint nonempty sets is no longer than a list that has, for
each of them, a nonempty member inside it. -/
theorem length_le_of_refines {L : List α} {D : List β} {f : α → Set γ} {g : β → Set γ}
    (hdisj : L.Pairwise fun a a' => Disjoint (f a) (f a'))
    (hsub : ∀ a ∈ L, ∃ b ∈ D, (g b).Nonempty ∧ g b ⊆ f a) : L.length ≤ D.length := by
  classical
  by_cases hL : L = []
  · simp [hL]
  obtain ⟨a0, ha0⟩ := List.exists_mem_of_ne_nil L hL
  have : Nonempty β := ⟨(hsub a0 ha0).choose⟩
  choose! pick hpickD hpick using hsub
  have : Std.Symm fun a a' => Disjoint (f a) (f a') := ⟨fun _ _ h => h.symm⟩
  -- two different entries own disjoint sets, so they pick different members
  have hinj : Set.InjOn pick {a | a ∈ L.toFinset} := by
    intro a ha a' ha' heq
    simp only [Set.mem_ofPred_eq, List.mem_toFinset] at ha ha'
    by_contra hne
    obtain ⟨z, hz⟩ := (hpick a ha).1
    have hz' : z ∈ g (pick a') := heq ▸ hz
    exact Set.disjoint_left.mp (hdisj.forall ha ha' hne) ((hpick a ha).2 hz) ((hpick a' ha').2 hz')
  have hnodup : L.Nodup := hdisj.imp_of_mem fun {a a'} ha _ hd heq => by
    subst heq
    obtain ⟨z, hz⟩ := (hpick a ha).1
    exact Set.disjoint_left.mp hd ((hpick a ha).2 hz) ((hpick a ha).2 hz)
  calc L.length = L.toFinset.card := (List.toFinset_card_of_nodup hnodup).symm
    _ ≤ D.toFinset.card :=
      Finset.card_le_card_of_injOn pick (fun a ha => by
        simpa using hpickD a (List.mem_toFinset.mp ha)) hinj
    _ ≤ D.length := List.toFinset_card_le D

/-- **Maximal blocks bound every cover from below.** A cover of `I` by blocks of `I`
has at least as many blocks as a list of pairwise disjoint maximal blocks of `I`. -/
theorem length_le_of_maximal {I : Set ℕ} {L : List α} {D : List β} {f : α → Set ℕ}
    {g : β → Set ℕ}
    (hL : ∀ a ∈ L, ∃ k x, f a = blockOf k x ∧ MaximalIn I k x)
    (hdisj : L.Pairwise fun a a' => Disjoint (f a) (f a'))
    (hD : ∀ b ∈ D, (∃ j y, g b = blockOf j y) ∧ g b ⊆ I)
    (hcover : ∀ z ∈ I, ∃ b ∈ D, z ∈ g b) : L.length ≤ D.length := by
  refine length_le_of_refines hdisj fun a ha => show ∃ b ∈ D, (g b).Nonempty ∧ g b ⊆ f a from ?_
  obtain ⟨k, x, hfa, hmax⟩ := hL a ha
  -- the block of the cover holding `x` lies inside the maximal block
  obtain ⟨b, hb, hxb⟩ := hcover x (hmax.1 (mem_blockOf_self k x))
  obtain ⟨⟨j, y, hgb⟩, hbI⟩ := hD b hb
  rw [hgb] at hxb hbI
  refine ⟨b, hb, ⟨x, hgb ▸ hxb⟩, ?_⟩
  rw [hgb, hfa]
  exact hmax.subset_of_mem hbI (mem_blockOf_self k x) hxb

end Count

/-! ## Decompositions without siblings -/

section Siblings

variable {β : Type*} {D : List β} {g : β → Set ℕ}

/-- Two members of `D` are sibling blocks. -/
def HasSiblings (D : List β) (g : β → Set ℕ) : Prop :=
  ∃ b ∈ D, ∃ b' ∈ D, ∃ j y y', g b = blockOf j y ∧ g b' = blockOf j y' ∧
    blockOf j y ≠ blockOf j y' ∧ blockOf (j + 1) y = blockOf (j + 1) y'

/-- The two halves of the block of `2 ^ (k + 1)` holding `x`. -/
theorem halves (k x : ℕ) : ∃ y0 y1, y0 ∈ blockOf (k + 1) x ∧ y1 ∈ blockOf (k + 1) x ∧
    blockOf k y0 ≠ blockOf k y1 := by
  have hpos := Nat.two_pow_pos k
  refine ⟨2 * (x / 2 ^ (k + 1)) * 2 ^ k, (2 * (x / 2 ^ (k + 1)) + 1) * 2 ^ k, ?_, ?_, ?_⟩
  · rw [mem_blockOf, div_two_pow_succ, Nat.mul_div_cancel _ hpos]
    omega
  · rw [mem_blockOf, div_two_pow_succ, Nat.mul_div_cancel _ hpos]
    omega
  · intro h
    have h' := congrArg (2 * (x / 2 ^ (k + 1)) * 2 ^ k ∈ ·) h
    simp only [mem_blockOf, Nat.mul_div_cancel _ hpos, eq_iff_iff, true_iff] at h'
    omega

/-- A block covered by strictly smaller blocks of `D` holds two siblings of `D`: by
induction on its size, one of its halves is covered by strictly smaller blocks too,
unless both halves are blocks of `D`. -/
theorem hasSiblings_of_cover (hD : ∀ b ∈ D, ∃ j y, g b = blockOf j y) :
    ∀ k x, (∀ z ∈ blockOf k x, ∃ b ∈ D, z ∈ g b ∧ g b ⊆ blockOf k x ∧ g b ≠ blockOf k x) →
      HasSiblings D g := by
  intro k
  induction k with
  | zero =>
    -- a block of one number has no smaller blocks
    intro x hcov
    obtain ⟨b, hb, hxb, hsub, hne⟩ := hcov x (mem_blockOf_self 0 x)
    obtain ⟨j, y, hgb⟩ := hD b hb
    refine absurd (Set.Subset.antisymm hsub fun w hw => ?_) hne
    have hw' : w = x := by simpa using hw
    exact hw' ▸ hxb
  | succ k ih =>
    intro x hcov
    -- the members of `D` inside the block lie in one of its halves
    have hhalf : ∀ z ∈ blockOf (k + 1) x, ∀ b ∈ D, z ∈ g b → g b ⊆ blockOf (k + 1) x →
        g b ≠ blockOf (k + 1) x → g b ⊆ blockOf k z := by
      intro z hz b hb hzb hsub hne
      obtain ⟨j, y, hgb⟩ := hD b hb
      rw [hgb] at hzb hsub hne ⊢
      rcases Nat.lt_or_ge k j with hkj | hjk
      · refine absurd ?_ hne
        exact hsub.antisymm (blockOf_subset_of_mem hkj hz hzb)
      · exact blockOf_subset_of_mem hjk hzb (mem_blockOf_self k z)
    -- the half holding `z` is covered by blocks of `D` inside it
    have hcov_half : ∀ z ∈ blockOf (k + 1) x, ∀ w ∈ blockOf k z,
        ∃ b ∈ D, w ∈ g b ∧ g b ⊆ blockOf k z := by
      intro z hz w hw
      have hwx : w ∈ blockOf (k + 1) x := blockOf_subset_of_mem k.le_succ (mem_blockOf_self k z) hz hw
      obtain ⟨b, hb, hwb, hsub, hne⟩ := hcov w hwx
      refine ⟨b, hb, hwb, ?_⟩
      rw [← blockOf_eq_of_mem hw]
      exact hhalf w hwx b hb hwb hsub hne
    by_cases hall : ∀ z ∈ blockOf (k + 1) x, ∃ b ∈ D, g b = blockOf k z
    · -- both halves are blocks of `D`: the two are siblings
      obtain ⟨y0, y1, hy0, hy1, hne⟩ := halves k x
      obtain ⟨b, hb, hgb⟩ := hall y0 hy0
      obtain ⟨b', hb', hgb'⟩ := hall y1 hy1
      exact ⟨b, hb, b', hb', k, y0, y1, hgb, hgb', hne,
        (blockOf_eq_of_mem hy0).trans (blockOf_eq_of_mem hy1).symm⟩
    · push Not at hall
      obtain ⟨z, hz, hnot⟩ := hall
      refine ih z fun w hw => ?_
      obtain ⟨b, hb, hwb, hsub⟩ := hcov_half z hz w hw
      exact ⟨b, hb, hwb, hsub, fun h => hnot b hb h⟩

/-- The other half of the parent of `blockOf j y`. -/
theorem exists_sibling (j y : ℕ) : ∃ y', y' ∈ blockOf (j + 1) y ∧ blockOf j y' ≠ blockOf j y := by
  obtain ⟨y0, y1, hy0, hy1, hne⟩ := halves j y
  by_cases h0 : blockOf j y0 = blockOf j y
  · exact ⟨y1, hy1, fun h1 => hne (h0.trans h1.symm)⟩
  · exact ⟨y0, hy0, h0⟩

/-- **Decompositions without siblings are made of maximal blocks.** In a decomposition
of `I` into pairwise disjoint blocks of `I`, no two of them siblings, every block is
maximal: were its parent in `I`, the other half would be covered by blocks of `D`
smaller than it, and two of those would be siblings. -/
theorem maximalIn_of_no_siblings {I : Set ℕ} (hD : ∀ b ∈ D, ∃ j y, g b = blockOf j y)
    (hsubI : ∀ b ∈ D, g b ⊆ I) (hdisj : D.Pairwise fun b b' => Disjoint (g b) (g b'))
    (hcover : ∀ z ∈ I, ∃ b ∈ D, z ∈ g b) (hsib : ¬ HasSiblings D g) :
    ∀ b ∈ D, ∀ j y, g b = blockOf j y → MaximalIn I j y := by
  intro b hb j y hgb
  refine ⟨hgb ▸ hsubI b hb, fun hpar => hsib ?_⟩
  have : Std.Symm fun b b' => Disjoint (g b) (g b') := ⟨fun _ _ h => h.symm⟩
  obtain ⟨y', hy', hne⟩ := exists_sibling j y
  have hpar' : blockOf (j + 1) y = blockOf (j + 1) y' := (blockOf_eq_of_mem hy').symm
  by_cases hS : ∃ b' ∈ D, g b' = blockOf j y'
  · -- the other half is a block of `D` itself
    obtain ⟨b', hb', hgb'⟩ := hS
    exact ⟨b, hb, b', hb', j, y, y', hgb, hgb', Ne.symm hne, hpar'⟩
  · -- otherwise the blocks of `D` covering it are smaller than it
    push Not at hS
    refine hasSiblings_of_cover hD j y' fun z hz => ?_
    have hzpar : z ∈ blockOf (j + 1) y := by
      rw [hpar']
      exact blockOf_subset_of_le j.le_succ y' hz
    obtain ⟨b', hb', hzb'⟩ := hcover z (hpar hzpar)
    obtain ⟨j', y'', hgb'⟩ := hD b' hb'
    refine ⟨b', hb', hzb', ?_, hS b' hb'⟩
    rw [hgb'] at hzb' ⊢
    rcases Nat.lt_or_ge j j' with hjj | hjj
    · -- a larger block of `D` through `z` would hold the whole parent, and `b` with it
      have hbig : blockOf (j + 1) y ⊆ blockOf j' y'' := blockOf_subset_of_mem hjj hzpar hzb'
      have hbb' : b ≠ b' := by
        rintro rfl
        have hzy : z ∈ blockOf j y := by
          rw [← hgb, hgb']
          exact hzb'
        exact hne ((blockOf_eq_of_mem hz).symm.trans (blockOf_eq_of_mem hzy))
      have hyb : y ∈ g b' := hgb' ▸ hbig (blockOf_subset_of_le j.le_succ y (mem_blockOf_self j y))
      have hyb0 : y ∈ g b := hgb ▸ mem_blockOf_self j y
      exact absurd hyb (Set.disjoint_left.mp (hdisj.forall hb hb' hbb') hyb0)
    · exact blockOf_subset_of_mem hjj hzb' hz

end Siblings

/-! ## The least block holding two numbers -/

section LeastCommon

variable {x y k k' : ℕ}

/-- `k` is the least level at which `y` lies in the block of `x`: the two agree from
bit `k` up, and not from bit `k - 1` up. -/
def LeastCommon (x y k : ℕ) : Prop := y ∈ blockOf k x ∧ ∀ j < k, y ∉ blockOf j x

/-- Two numbers that agree from bit `k` up and differ in bit `k - 1` have their least
common block at level `k`. -/
theorem leastCommon_of_testBit (habove : ∀ i, k ≤ i → x.testBit i = y.testBit i)
    (hdiff : ∀ h, k = h + 1 → x.testBit h ≠ y.testBit h) : LeastCommon x y k := by
  refine ⟨(Bits.div_two_pow_eq_of_testBit_eq habove).symm, fun j hj hy => ?_⟩
  obtain ⟨h, rfl⟩ : ∃ h, k = h + 1 := ⟨k - 1, by omega⟩
  apply hdiff h rfl
  -- agreeing from bit `j ≤ h` up, they agree in bit `h`
  have hbit := congrArg (Nat.testBit · (h - j)) hy
  simp only [Nat.testBit_div_two_pow, Nat.sub_add_cancel (Nat.le_of_lt_succ hj)] at hbit
  exact hbit.symm

theorem LeastCommon.unique (h : LeastCommon x y k) (h' : LeastCommon x y k') : k = k' := by
  rcases Nat.lt_trichotomy k k' with hlt | heq | hgt
  · exact absurd h.1 (h'.2 k hlt)
  · exact heq
  · exact absurd h'.1 (h.2 k' hgt)

/-- A block that holds both ends of an interval holds the interval. -/
theorem Icc_subset_blockOf (hy : y ∈ blockOf k x) : Set.Icc x y ⊆ blockOf k x := by
  rintro z ⟨hxz, hzy⟩
  have h1 : x / 2 ^ k ≤ z / 2 ^ k := Nat.div_le_div_right hxz
  have h2 : z / 2 ^ k ≤ y / 2 ^ k := Nat.div_le_div_right hzy
  have h3 : y / 2 ^ k = x / 2 ^ k := hy
  show z / 2 ^ k = x / 2 ^ k
  omega

/-- The interval from `x` to `y` lies in their least common block. -/
theorem LeastCommon.Icc_subset (h : LeastCommon x y k) : Set.Icc x y ⊆ blockOf k x :=
  Icc_subset_blockOf h.1

/-- An interval that is the block of its first number has its least common block
there. -/
theorem leastCommon_of_Icc_eq (h : Set.Icc x y = blockOf k x) : LeastCommon x y k := by
  have hxy : x ≤ y := (h ▸ mem_blockOf_self k x : x ∈ Set.Icc x y).2
  refine ⟨h ▸ ⟨hxy, le_rfl⟩, fun j hj hy => ?_⟩
  -- the block would lie in the smaller block of level `j`, and so be it
  have hsub : blockOf k x ⊆ blockOf j x := h ▸ Icc_subset_blockOf hy
  have heq := (blockOf_subset_of_le (Nat.le_of_lt hj) x).antisymm hsub
  exact absurd (level_eq_of_blockOf_eq heq) (Nat.ne_of_lt hj)

/-- No smaller block holds the interval from `x` to `y`. -/
theorem LeastCommon.le_of_Icc_subset (h : LeastCommon x y k) (hxy : x ≤ y) {j z : ℕ}
    (hj : Set.Icc x y ⊆ blockOf j z) : k ≤ j := by
  by_contra hlt
  have hx : x ∈ blockOf j z := hj ⟨le_rfl, hxy⟩
  have hy : y ∈ blockOf j z := hj ⟨hxy, le_rfl⟩
  rw [← blockOf_eq_of_mem hx] at hy
  exact h.2 j (by omega) hy

/-- An interval is the block of its first number when that number is aligned and the
interval has the block's length. -/
theorem Icc_eq_blockOf_iff : Set.Icc x y = blockOf k x ↔ x % 2 ^ k = 0 ∧ y = x + (2 ^ k - 1) := by
  have hpos := Nat.two_pow_pos k
  constructor
  · intro h
    have hlo : x - x % 2 ^ k ∈ Set.Icc x y := h ▸ (mem_blockOf_iff k x _).mpr ⟨le_rfl, by omega⟩
    have hhi : x - x % 2 ^ k + (2 ^ k - 1) ∈ Set.Icc x y :=
      h ▸ (mem_blockOf_iff k x _).mpr ⟨by omega, by omega⟩
    have hy : y ∈ blockOf k x := h ▸ ⟨le_trans hlo.1 hlo.2, le_rfl⟩
    rw [mem_blockOf_iff] at hy
    have := Nat.mod_le x (2 ^ k)
    obtain ⟨h1, -⟩ := hlo
    obtain ⟨-, h2⟩ := hhi
    omega
  · rintro ⟨hx, rfl⟩
    ext z
    rw [mem_blockOf_iff_of_mod hx, Set.mem_Icc]
    omega

/-- Exactness bit by bit: for `x ≤ y`, the interval is their least common block when
below the bit in which they first differ `x` has only `0`s and `y` only `1`s. -/
theorem LeastCommon.Icc_eq_iff (h : LeastCommon x y k) (hxy : x ≤ y) :
    Set.Icc x y = blockOf k x ↔ ∀ i < k - 1, x.testBit i = false ∧ y.testBit i = true := by
  rw [Icc_eq_blockOf_iff]
  cases k with
  | zero =>
    -- level `0`: the two numbers are one
    have hyx : y = x := by simpa using h.1
    simp [hyx, Nat.mod_one]
  | succ K =>
    -- the first difference is bit `K`: clear in `x`, set in `y`
    have hyx : y / 2 ^ (K + 1) = x / 2 ^ (K + 1) := h.1
    have hne : x.testBit K ≠ y.testBit K := fun hbit =>
      h.2 K (Nat.lt_succ_self K) (Bits.div_two_pow_eq_of_testBit_eq fun i hi => by
        rcases Nat.eq_or_lt_of_le hi with rfl | hlt
        · exact hbit.symm
        · have := congrArg (Nat.testBit · (i - (K + 1))) hyx
          simp only [Nat.testBit_div_two_pow, Nat.sub_add_cancel hlt] at this
          exact this)
    obtain ⟨hxK, hyK⟩ := Bits.testBit_of_first_difference hxy hyx.symm hne
    have hxs := Bits.mod_two_pow_succ x K
    have hys := Bits.mod_two_pow_succ y K
    rw [hxK, if_neg Bool.false_ne_true] at hxs
    rw [hyK, if_pos rfl] at hys
    have hpow : 2 ^ (K + 1) = 2 ^ K + 2 ^ K := by rw [Nat.pow_succ]; omega
    have hdx := Nat.div_add_mod x (2 ^ (K + 1))
    have hdy := Nat.div_add_mod y (2 ^ (K + 1))
    rw [hyx] at hdy
    constructor
    · rintro ⟨hx0, hyeq⟩ i hi
      have hxK0 : x % 2 ^ K = 0 := by omega
      have hyK1 : y % 2 ^ K = 2 ^ K - 1 := by omega
      have hxi := congrArg (Nat.testBit · i) hxK0
      have hyi := congrArg (Nat.testBit · i) hyK1
      simp only [Nat.testBit_mod_two_pow, Nat.testBit_two_pow_sub_one, Nat.zero_testBit,
        show i < K by omega, decide_true, Bool.true_and] at hxi hyi
      exact ⟨hxi, hyi⟩
    · intro hbits
      have hxK0 : x % 2 ^ K = 0 :=
        Bits.mod_two_pow_eq_zero_of_testBit fun i hi => (hbits i (by omega)).1
      have hyK1 : y % 2 ^ K = 2 ^ K - 1 :=
        Bits.mod_two_pow_eq_of_testBit fun i hi => (hbits i (by omega)).2
      constructor <;> omega

end LeastCommon

end VpnClient.Lib.Dyadic
