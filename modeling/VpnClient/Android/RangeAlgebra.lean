import VpnClient.Android.IPRange
import Mathlib.Data.Set.Basic
import Mathlib.Order.MinMax

/-!
# Ranges as sets of addresses

What an `IPRange` means: the set of `(family, address)` points between its bounds,
where the family of an address is its byte length (`points`). This file proves that
the methods `IPRangeSet` is built from compute what their names say on that
reading, for every pair of well-formed ranges (`Valid`: bounds of one family, in
order), addresses of different families included:

* `overlaps`, `contains` and `adjacent` are the interval comparisons
  (`overlaps_iff`, `contains_iff`, `adjacent_iff`);
* `merge` answers `null` exactly when the two ranges are `Separated` — of different
  families, or with an address between them (`merge_eq_none_iff`) — and otherwise a
  well-formed range whose points are the union (`merge_eq_some`);
* `remove` leaves at most two well-formed pieces inside the first range, separated
  from each other, whose points are the difference (`remove_valid`,
  `covered_remove`, `remove_pairwise_separated`); it returns the range itself exactly
  when nothing is removed (`remove_of_overlaps_eq_false`, `remove_equals`).

The wrap-around of `inc` and `dec` at all-ones and at zero never shows: `merge` and
`remove` call them only next to an address of the other range, which bounds them
away from the ends.
-/

namespace VpnClient.Android

open VpnClient.Lib Bytes

namespace IPRange

/-! ## 1. The reading -/

/-- The address family of a range: the byte length of its addresses. -/
def family (r : IPRange) : ℕ := r.mFrom.length

/-- The first address, as a number. -/
def lo (r : IPRange) : ℕ := value r.mFrom

/-- The last address, as a number. -/
def hi (r : IPRange) : ℕ := value r.mTo

/-- The bounds `IPRange`'s public constructors guarantee and its private one is only
called with: both addresses of one family, the first not above the last. -/
structure Valid (r : IPRange) : Prop where
  length_eq : r.mTo.length = r.mFrom.length
  le : r.lo ≤ r.hi

/-- The addresses a range covers. -/
def points (r : IPRange) : Set (ℕ × ℕ) := {p | p.1 = r.family ∧ r.lo ≤ p.2 ∧ p.2 ≤ r.hi}

/-- The addresses a list of ranges covers. -/
def covered (l : List IPRange) : Set (ℕ × ℕ) := {p | ∃ r ∈ l, p ∈ r.points}

/-- Two ranges a normalised set may hold side by side: of different families, or with
at least one address between them, so that they neither overlap nor touch. -/
def Separated (r s : IPRange) : Prop := r.family ≠ s.family ∨ r.hi + 1 < s.lo ∨ s.hi + 1 < r.lo

instance (r s : IPRange) : Decidable (Separated r s) := inferInstanceAs (Decidable (_ ∨ _))

@[simp] theorem mem_points {r : IPRange} {p : ℕ × ℕ} :
    p ∈ r.points ↔ p.1 = r.family ∧ r.lo ≤ p.2 ∧ p.2 ≤ r.hi := Iff.rfl

@[simp] theorem mem_covered {l : List IPRange} {p : ℕ × ℕ} :
    p ∈ covered l ↔ ∃ r ∈ l, p ∈ r.points := Iff.rfl

@[simp] theorem covered_nil : covered [] = ∅ := by ext; simp

@[simp] theorem covered_cons (r : IPRange) (l : List IPRange) :
    covered (r :: l) = r.points ∪ covered l := by ext; simp

@[simp] theorem covered_append (l₁ l₂ : List IPRange) :
    covered (l₁ ++ l₂) = covered l₁ ∪ covered l₂ := by
  ext; simp only [mem_covered, List.mem_append, Set.mem_union]; grind

theorem covered_perm {l₁ l₂ : List IPRange} (h : l₁.Perm l₂) : covered l₁ = covered l₂ := by
  ext; simp [h.mem_iff]

@[simp] theorem family_ofBytes (a b : List UInt8) : (ofBytes a b).family = a.length := rfl
@[simp] theorem lo_ofBytes (a b : List UInt8) : (ofBytes a b).lo = value a := rfl
@[simp] theorem hi_ofBytes (a b : List UInt8) : (ofBytes a b).hi = value b := rfl
@[simp] theorem mFrom_ofBytes (a b : List UInt8) : (ofBytes a b).mFrom = a := rfl
@[simp] theorem mTo_ofBytes (a b : List UInt8) : (ofBytes a b).mTo = b := rfl

/-- The last address of a well-formed range is an address of its family. -/
theorem Valid.hi_lt {r : IPRange} (hr : r.Valid) : r.hi < 256 ^ r.family := by
  have h := value_lt r.mTo
  rwa [hr.length_eq] at h

theorem Separated.symm {r s : IPRange} (h : Separated r s) : Separated s r := by
  unfold Separated at *; omega

instance : Std.Symm Separated := ⟨fun _ _ h => h.symm⟩

/-- Separated ranges share no address. -/
theorem Separated.disjoint {r s : IPRange} (h : Separated r s) : Disjoint r.points s.points := by
  rw [Set.disjoint_left]
  rintro ⟨f, x⟩ ⟨hf, h1, h2⟩ ⟨hf', h3, h4⟩
  unfold Separated at h
  simp only at hf hf'
  omega

theorem not_separated_self {r : IPRange} (hr : r.Valid) : ¬ Separated r r := by
  have := hr.le
  unfold Separated; omega

/-- Separation passes to sub-ranges. -/
theorem Separated.mono {r s r' s' : IPRange} (h : Separated r s) (hr' : r'.Valid) (hs' : s'.Valid)
    (hr : r'.points ⊆ r.points) (hs : s'.points ⊆ s.points) : Separated r' s' := by
  have h1 := hr (show (r'.family, r'.lo) ∈ r'.points from ⟨rfl, le_refl _, hr'.le⟩)
  have h2 := hr (show (r'.family, r'.hi) ∈ r'.points from ⟨rfl, hr'.le, le_refl _⟩)
  have h3 := hs (show (s'.family, s'.lo) ∈ s'.points from ⟨rfl, le_refl _, hs'.le⟩)
  have h4 := hs (show (s'.family, s'.hi) ∈ s'.points from ⟨rfl, hs'.le, le_refl _⟩)
  simp only [mem_points] at h1 h2 h3 h4
  unfold Separated at *
  omega

/-! ## 2. The comparisons -/

section Comparisons

variable {r s : IPRange}

theorem overlaps_iff (hr : r.Valid) (hs : s.Valid) :
    r.overlaps s = true ↔ r.family = s.family ∧ s.lo ≤ r.hi ∧ r.lo ≤ s.hi := by
  have h1 := hr.length_eq
  have h2 := hs.length_eq
  simp only [overlaps, Bool.not_eq_true', Bool.or_eq_false_iff, beq_eq_false_iff_ne, ne_eq,
    compareAddr_eq_lt_iff, family, lo, hi]
  omega

theorem contains_iff (hr : r.Valid) (hs : s.Valid) :
    r.contains s = true ↔ r.family = s.family ∧ r.lo ≤ s.lo ∧ s.hi ≤ r.hi := by
  have h1 := hr.length_eq
  have h2 := hs.length_eq
  simp only [contains, Bool.and_eq_true, compareAddr_isLE_iff, family, lo, hi]
  omega

/-- Between ranges that do not overlap, `adjacent` is "no address in between". The
lower range's last address is below an address of its family, so `inc` does not
wrap; symmetrically `dec` does not wrap below the upper range's first. -/
theorem adjacent_iff (hr : r.Valid) (hs : s.Valid) (hno : r.overlaps s = false) :
    r.adjacent s = true ↔ r.family = s.family ∧ (r.hi + 1 = s.lo ∨ s.hi + 1 = r.lo) := by
  have hov : ¬ (r.family = s.family ∧ s.lo ≤ r.hi ∧ r.lo ≤ s.hi) := fun h =>
    absurd ((overlaps_iff hr hs).mpr h) (by simp [hno])
  have h1 := hr.length_eq
  have h2 := hs.length_eq
  have hrle := hr.le
  have hsle := hs.le
  have hslt := hs.hi_lt
  unfold adjacent
  split
  · -- `r` ends below `s`'s start: compare the address after `r` with `s`'s start
    rename_i hlt
    simp only [beq_iff_eq, compareAddr_eq_lt_iff] at hlt
    simp only [beq_iff_eq, compareAddr_eq_eq_iff, length_inc]
    unfold family lo hi at *
    rcases hlt with hlt | ⟨hlen, hlt⟩
    · omega
    · rw [value_inc_of_lt (by rw [hlen]; omega)]
      omega
  · -- otherwise `s` ends below `r`'s start: compare the address before `r` with `s`'s end
    rename_i hlt
    simp only [beq_iff_eq, compareAddr_eq_lt_iff] at hlt
    simp only [beq_iff_eq, compareAddr_eq_eq_iff, length_dec]
    unfold family lo hi at *
    by_cases hlen : r.mFrom.length = s.mFrom.length
    · rw [value_dec_of_pos (by omega)]
      omega
    · omega

/-- A range is separated from another exactly when they neither overlap nor touch. -/
theorem separated_iff_not_overlaps_adjacent (hr : r.Valid) (hs : s.Valid) :
    Separated r s ↔ r.overlaps s = false ∧ r.adjacent s = false := by
  by_cases hov : r.overlaps s = true
  · have h := (overlaps_iff hr hs).mp hov
    simp only [hov, Bool.true_eq_false, false_and, iff_false]
    unfold Separated; omega
  · have hno : r.overlaps s = false := by simpa using hov
    have hadj := adjacent_iff hr hs hno
    have hnov : ¬ (r.family = s.family ∧ s.lo ≤ r.hi ∧ r.lo ≤ s.hi) := fun h =>
      hov ((overlaps_iff hr hs).mpr h)
    have := hr.le
    have := hs.le
    simp only [hno, true_and]
    rw [← Bool.not_eq_true, hadj]
    unfold Separated; omega

end Comparisons

/-! ## 3. `merge` -/

section Merge

variable {r s : IPRange}

/-- The range `merge` builds when it falls through: from the lower start to the
higher end. -/
theorem hull_spec (hr : r.Valid) (hs : s.Valid) (hfam : r.family = s.family) :
    (r.hull s).Valid ∧ (r.hull s).family = r.family ∧
      (r.hull s).lo = min r.lo s.lo ∧ (r.hull s).hi = max r.hi s.hi := by
  have h1 := hr.length_eq
  have h2 := hs.length_eq
  have hrle := hr.le
  have hsle := hs.le
  unfold family lo hi at *
  have hf : compareAddr r.mFrom s.mFrom = compare (value r.mFrom) (value s.mFrom) :=
    compareAddr_of_length_eq hfam
  have ht : compareAddr r.mTo s.mTo = compare (value r.mTo) (value s.mTo) :=
    compareAddr_of_length_eq (by omega)
  simp only [hull, hf, ht, beq_iff_eq, compare_lt_iff_lt, compare_gt_iff_gt]
  refine ⟨⟨?_, ?_⟩, ?_, ?_, ?_⟩ <;> split_ifs <;> simp [lo, hi] <;> omega

/-- **`merge` is `null` exactly for separated ranges.** -/
theorem merge_eq_none_iff (hr : r.Valid) (hs : s.Valid) : r.merge s = none ↔ Separated r s := by
  rw [separated_iff_not_overlaps_adjacent hr hs]
  unfold merge
  by_cases hov : r.overlaps s = true
  · simp only [hov, if_true, Bool.true_eq_false, false_and, iff_false]
    split_ifs <;> simp
  · have hno : r.overlaps s = false := by simpa using hov
    simp only [hno, Bool.false_eq_true, if_false, true_and]
    cases r.adjacent s <;> simp

/-- **What `merge` answers covers exactly the two ranges.** -/
theorem merge_eq_some (hr : r.Valid) (hs : s.Valid) {c : IPRange} (h : r.merge s = some c) :
    c.Valid ∧ c.points = r.points ∪ s.points := by
  -- the answer is one of the two ranges when it contains the other, else their hull
  have hjoin : r.family = s.family ∧ s.lo ≤ r.hi + 1 ∧ r.lo ≤ s.hi + 1 := by
    have hns : ¬ Separated r s := fun hsep => by
      rw [← merge_eq_none_iff hr hs] at hsep; simp [hsep] at h
    unfold Separated at hns; omega
  have hhull : (r.hull s).points = r.points ∪ s.points := by
    obtain ⟨-, hfam, hlo, hhi⟩ := hull_spec hr hs hjoin.1
    ext ⟨f, x⟩
    simp only [mem_points, Set.mem_union, hfam, hlo, hhi]
    have := hr.le; have := hs.le
    constructor
    · intro hx; rw [min_le_iff, le_max_iff] at hx; omega
    · intro hx; rw [min_le_iff, le_max_iff]; omega
  unfold merge at h
  split_ifs at h with hov hc hc'
  · cases h
    refine ⟨hr, ?_⟩
    obtain ⟨-, h1, h2⟩ := (contains_iff hr hs).mp hc
    ext ⟨f, x⟩; simp only [mem_points, Set.mem_union]; omega
  · cases h
    refine ⟨hs, ?_⟩
    obtain ⟨-, h1, h2⟩ := (contains_iff hs hr).mp hc'
    ext ⟨f, x⟩; simp only [mem_points, Set.mem_union]; omega
  · cases h; exact ⟨(hull_spec hr hs hjoin.1).1, hhull⟩
  · cases h; exact ⟨(hull_spec hr hs hjoin.1).1, hhull⟩

end Merge

/-! ## 4. `remove` -/

section Remove

variable {r s : IPRange}

/-- Nothing to remove: `remove` answers the range itself. -/
theorem remove_of_overlaps_eq_false (h : r.overlaps s = false) : r.remove s = [r] := by
  simp [remove, h]

/-- **`remove` on overlapping ranges, read numerically**: the piece below `s` if `r`
starts below it, the piece above `s` if `r` ends above it, each of `r`'s family. The
`dec` and `inc` it calls sit next to an address of `r`, so they do not wrap. -/
theorem remove_of_overlaps (hr : r.Valid) (hs : s.Valid) (hov : r.overlaps s = true) :
    (∀ c ∈ r.remove s, c.mTo.length = c.mFrom.length ∧ c.family = r.family) ∧
    (r.remove s).map (fun c => (c.lo, c.hi)) =
      (if r.lo < s.lo then [(r.lo, s.lo - 1)] else []) ++
        (if s.hi < r.hi then [(s.hi + 1, r.hi)] else []) := by
  obtain ⟨hfam, hov1, hov2⟩ := (overlaps_iff hr hs).mp hov
  have h1 := hr.length_eq
  have h2 := hs.length_eq
  have hrle := hr.le
  have hsle := hs.le
  have hrlt := hr.hi_lt
  have hcon := contains_iff hs hr
  unfold family lo hi at *
  have hf : compareAddr r.mFrom s.mFrom = compare (value r.mFrom) (value s.mFrom) :=
    compareAddr_of_length_eq hfam
  have ht : compareAddr s.mTo r.mTo = compare (value s.mTo) (value r.mTo) :=
    compareAddr_of_length_eq (by omega)
  have ht' : compareAddr r.mTo s.mTo = compare (value r.mTo) (value s.mTo) :=
    compareAddr_of_length_eq (by omega)
  -- the bounds `dec s.mFrom` and `inc s.mTo` take, where `remove` uses them
  have hdec : value r.mFrom < value s.mFrom → value (dec s.mFrom) = value s.mFrom - 1 :=
    fun h => value_dec_of_pos (by omega)
  have hinc : value s.mTo < value r.mTo → value (inc s.mTo) = value s.mTo + 1 :=
    fun h => value_inc_of_lt (by rw [h2, ← hfam]; omega)
  unfold remove
  simp only [hov, Bool.not_true, Bool.false_eq_true, if_false, hf, ht, ht', beq_iff_eq,
    compare_lt_iff_lt, compare_gt_iff_gt, Bool.and_eq_true]
  by_cases hc : s.contains r = true
  · -- `s` covers `r`: nothing is left
    have hc' := hcon.mp hc
    simp only [hc, Bool.not_true, Bool.false_eq_true, if_false]
    simp [show ¬ value r.mFrom < value s.mFrom by omega, show ¬ value s.mTo < value r.mTo by omega]
  · have hc' : s.contains r = false := by simpa using hc
    simp only [hc', Bool.not_false, if_true]
    by_cases hlt : value r.mFrom < value s.mFrom <;> by_cases hgt : value s.mTo < value r.mTo
    · -- `s` strictly inside: a piece on either side
      simp [hlt, hgt, hdec hlt, hinc hgt, h1, h2, hfam]
    · simp [hlt, hgt, hdec hlt, hfam]
    · simp [hlt, hgt, hinc hgt, h1, h2, hfam]
    · -- neither end of `r` sticks out, so `s` covers it
      exact absurd (hcon.mpr ⟨hfam.symm, by omega, by omega⟩) hc

/-- Every piece `remove` leaves is a well-formed part of the range. -/
theorem remove_valid (hr : r.Valid) (hs : s.Valid) :
    ∀ c ∈ r.remove s, c.Valid ∧ c.points ⊆ r.points := by
  by_cases hov : r.overlaps s = true
  · obtain ⟨hlen, hmap⟩ := remove_of_overlaps hr hs hov
    obtain ⟨-, hov1, hov2⟩ := (overlaps_iff hr hs).mp hov
    intro c hc
    have hb : (c.lo, c.hi) ∈ (r.remove s).map (fun c => (c.lo, c.hi)) := List.mem_map_of_mem hc
    rw [hmap] at hb
    obtain ⟨hl, hfam⟩ := hlen c hc
    have hsle := hs.le
    refine ⟨⟨hl, ?_⟩, ?_⟩
    · split_ifs at hb <;> simp at hb <;> omega
    · rintro ⟨f, x⟩ ⟨hf, hx1, hx2⟩
      refine ⟨hf.trans hfam, ?_, ?_⟩ <;> split_ifs at hb <;> simp at hb <;> omega
  · simp only [Bool.not_eq_true] at hov
    rw [remove_of_overlaps_eq_false hov]
    simp [hr]

/-- **`remove` computes the difference.** -/
theorem covered_remove (hr : r.Valid) (hs : s.Valid) :
    covered (r.remove s) = r.points \ s.points := by
  by_cases hov : r.overlaps s = true
  · obtain ⟨hlen, hmap⟩ := remove_of_overlaps hr hs hov
    obtain ⟨hfam, hov1, hov2⟩ := (overlaps_iff hr hs).mp hov
    have hsle := hs.le
    ext ⟨f, x⟩
    simp only [mem_covered, mem_points, Set.mem_sdiff]
    constructor
    · rintro ⟨c, hc, hf, hx1, hx2⟩
      have hb : (c.lo, c.hi) ∈ (r.remove s).map (fun c => (c.lo, c.hi)) := List.mem_map_of_mem hc
      rw [hmap] at hb
      have hcf := (hlen c hc).2
      split_ifs at hb <;> simp at hb <;> omega
    · rintro ⟨⟨hf, hx1, hx2⟩, hxs⟩
      -- `x` lies below `s` or above it; the matching piece is in the list
      have hpiece : ∃ b ∈ (r.remove s).map (fun c => (c.lo, c.hi)), b.1 ≤ x ∧ x ≤ b.2 := by
        rw [hmap]
        by_cases hbelow : x < s.lo
        · exact ⟨(r.lo, s.lo - 1), by simp [show r.lo < s.lo by omega], by simp; omega⟩
        · exact ⟨(s.hi + 1, r.hi), by simp [show s.hi < r.hi by omega], by simp; omega⟩
      obtain ⟨b, hb, hbx⟩ := hpiece
      obtain ⟨c, hc, rfl⟩ := List.mem_map.mp hb
      exact ⟨c, hc, hf.trans (hlen c hc).2.symm, hbx⟩
  · simp only [Bool.not_eq_true] at hov
    rw [remove_of_overlaps_eq_false hov]
    have hsep : ¬ (r.family = s.family ∧ s.lo ≤ r.hi ∧ r.lo ≤ s.hi) := fun h =>
      absurd ((overlaps_iff hr hs).mpr h) (by simp [hov])
    ext ⟨f, x⟩
    simp only [covered_cons, covered_nil, Set.union_empty, Set.mem_sdiff, mem_points]
    omega

/-- The pieces `remove` leaves are separated from each other: `s` lies between them. -/
theorem remove_pairwise_separated (hr : r.Valid) (hs : s.Valid) :
    (r.remove s).Pairwise Separated := by
  by_cases hov : r.overlaps s = true
  · obtain ⟨hlen, hmap⟩ := remove_of_overlaps hr hs hov
    have hsle := hs.le
    -- bounds with a gap between them are separated whatever the families
    refine List.Pairwise.imp (R := fun c d : IPRange => c.hi + 1 < d.lo ∨ d.hi + 1 < c.lo)
      (fun h => Or.inr h) ?_
    have hp : ((r.remove s).map (fun c => (c.lo, c.hi))).Pairwise
        (fun a b => a.2 + 1 < b.1 ∨ b.2 + 1 < a.1) := by
      rw [hmap]
      split_ifs <;> simp
      omega
    exact List.pairwise_map.mp hp
  · simp only [Bool.not_eq_true] at hov
    rw [remove_of_overlaps_eq_false hov]
    exact List.pairwise_singleton _ _

/-- `equals` between ranges is equality of the bounds. -/
theorem equals_iff {c r : IPRange} : c.equals r = true ↔ c.mFrom = r.mFrom ∧ c.mTo = r.mTo := by
  constructor
  · intro h
    unfold equals compareTo at h
    cases hf : compareAddr c.mFrom r.mFrom <;> rw [hf] at h <;> simp at h
    exact ⟨eq_of_compareAddr_eq hf, eq_of_compareAddr_eq h⟩
  · rintro ⟨hf, ht⟩
    simp [equals, compareTo, hf, ht]

/-- A piece of `remove` equals the range only when nothing was removed. -/
theorem remove_equals (hr : r.Valid) (hs : s.Valid) {c : IPRange} (hc : c ∈ r.remove s)
    (heq : c.equals r = true) : r.remove s = [r] := by
  by_cases hov : r.overlaps s = true
  · obtain ⟨hlen, hmap⟩ := remove_of_overlaps hr hs hov
    obtain ⟨-, hov1, hov2⟩ := (overlaps_iff hr hs).mp hov
    obtain ⟨hf, ht⟩ := equals_iff.mp heq
    have hb : (c.lo, c.hi) ∈ (r.remove s).map (fun c => (c.lo, c.hi)) := List.mem_map_of_mem hc
    rw [hmap, show c.lo = r.lo from congrArg value hf, show c.hi = r.hi from congrArg value ht]
      at hb
    split_ifs at hb <;> simp at hb <;> omega
  · simp only [Bool.not_eq_true] at hov
    exact remove_of_overlaps_eq_false hov

end Remove

/-! ## 5. Symmetry, order, and the calls that could wrap -/

section Laws

variable {r s : IPRange}

/-- Two well-formed ranges with the same points have the same bounds. -/
theorem bounds_eq_of_points_eq {c d : IPRange} (hc : c.Valid) (hd : d.Valid) (h : c.points = d.points) :
    c.mFrom = d.mFrom ∧ c.mTo = d.mTo := by
  have hcl : (c.family, c.lo) ∈ d.points := by rw [← h]; exact ⟨rfl, le_rfl, hc.le⟩
  have hch : (c.family, c.hi) ∈ d.points := by rw [← h]; exact ⟨rfl, hc.le, le_rfl⟩
  have hdl : (d.family, d.lo) ∈ c.points := by rw [h]; exact ⟨rfl, le_rfl, hd.le⟩
  have hdh : (d.family, d.hi) ∈ c.points := by rw [h]; exact ⟨rfl, hd.le, le_rfl⟩
  simp only [mem_points] at hcl hch hdl hdh
  have h1 := hc.length_eq
  have h2 := hd.length_eq
  unfold family lo hi at *
  exact ⟨eq_of_value_eq hcl.1 (by omega), eq_of_value_eq (by omega) (by omega)⟩

/-- **`merge` is symmetric**: where `a.merge(b)` answers a range, `b.merge(a)`
answers one with the same bounds. -/
theorem merge_comm (hr : r.Valid) (hs : s.Valid) {c : IPRange} (h : r.merge s = some c) :
    ∃ c', s.merge r = some c' ∧ c.equals c' = true := by
  have hns : ¬ Separated r s := fun hsep => by
    rw [← merge_eq_none_iff hr hs] at hsep
    rw [hsep] at h
    cases h
  obtain ⟨c', hc'⟩ : ∃ c', s.merge r = some c' := Option.ne_none_iff_exists'.mp fun hsr =>
    hns ((merge_eq_none_iff hs hr).mp hsr).symm
  obtain ⟨hc, hpts⟩ := merge_eq_some hr hs h
  obtain ⟨hc'v, hpts'⟩ := merge_eq_some hs hr hc'
  refine ⟨c', hc', equals_iff.mpr (bounds_eq_of_points_eq hc hc'v ?_)⟩
  rw [hpts, hpts', Set.union_comm]

/-- The union of two ranges of one family is a single interval exactly when they are
not separated. -/
theorem union_interval_iff (hr : r.Valid) (hs : s.Valid) (hfam : r.family = s.family) :
    (∃ lo hi, r.points ∪ s.points = {p | p.1 = r.family ∧ lo ≤ p.2 ∧ p.2 ≤ hi}) ↔ ¬ Separated r s := by
  have hrle := hr.le
  have hsle := hs.le
  constructor
  · rintro ⟨lo, hi, hI⟩ hsep
    -- the interval holds both ranges, so it holds the address in the gap between them
    have hmem : ∀ x, ((r.family, x) ∈ r.points ∪ s.points ↔ lo ≤ x ∧ x ≤ hi) := fun x => by
      rw [hI]; simp
    have hrlo := (hmem r.lo).mp (Or.inl ⟨rfl, le_rfl, hrle⟩)
    have hrhi := (hmem r.hi).mp (Or.inl ⟨rfl, hrle, le_rfl⟩)
    have hslo := (hmem s.lo).mp (Or.inr ⟨hfam, le_rfl, hsle⟩)
    have hshi := (hmem s.hi).mp (Or.inr ⟨hfam, hsle, le_rfl⟩)
    unfold Separated at hsep
    rcases hsep with hne | hgap | hgap
    · exact hne hfam
    · have := (hmem (r.hi + 1)).mpr ⟨by omega, by omega⟩
      simp only [Set.mem_union, mem_points] at this
      omega
    · have := (hmem (s.hi + 1)).mpr ⟨by omega, by omega⟩
      simp only [Set.mem_union, mem_points] at this
      omega
  · intro hns
    unfold Separated at hns
    refine ⟨min r.lo s.lo, max r.hi s.hi, ?_⟩
    ext ⟨f, x⟩
    simp only [Set.mem_union, mem_points, Set.mem_ofPred_eq]
    omega

/-- `remove` answers at most two ranges. -/
theorem length_remove_le (r s : IPRange) : (r.remove s).length ≤ 2 := by
  unfold remove
  split_ifs <;> simp

/-- **The pieces of `remove` come in ascending order**, of one family, with at least
one address between them. -/
theorem remove_sorted (hr : r.Valid) (hs : s.Valid) :
    (r.remove s).Pairwise (fun c d => c.family = d.family ∧ c.hi + 1 < d.lo) := by
  by_cases hov : r.overlaps s = true
  · obtain ⟨hlen, hmap⟩ := remove_of_overlaps hr hs hov
    have hsle := hs.le
    have hp : ((r.remove s).map (fun c => (c.lo, c.hi))).Pairwise (fun a b => a.2 + 1 < b.1) := by
      rw [hmap]
      split_ifs with hlo hhi <;> simp
      omega
    rw [List.pairwise_map] at hp
    exact hp.imp_of_mem fun hc hd hlt => ⟨(hlen _ hc).2.trans (hlen _ hd).2.symm, hlt⟩
  · simp only [Bool.not_eq_true] at hov
    rw [remove_of_overlaps_eq_false hov]
    exact List.pairwise_singleton _ _

/-- A range that the other contains is removed entirely. -/
theorem remove_of_contains (hr : r.Valid) (hs : s.Valid) (h : s.contains r = true) : r.remove s = [] := by
  obtain ⟨hfam, h1, h2⟩ := (contains_iff hs hr).mp h
  have hrle := hr.le
  have hov : r.overlaps s = true := (overlaps_iff hr hs).mpr ⟨hfam.symm, by omega, by omega⟩
  simp [remove, hov, h]

/-- A call that wraps: `inc` of the last address of a family, `dec` of the first. -/
def Wraps : Bool × List UInt8 → Prop
  | (true, a) => value a + 1 = 256 ^ a.length
  | (false, a) => value a = 0

instance : DecidablePred Wraps
  | (true, a) => inferInstanceAs (Decidable (value a + 1 = 256 ^ a.length))
  | (false, a) => inferInstanceAs (Decidable (value a = 0))

/-- The calls of `remove`: `dec` is handed the start of the removed range only when `r`
starts below it, `inc` its end only when `r` ends above it. -/
theorem mem_removeCalls (hr : r.Valid) (hs : s.Valid) {call : Bool × List UInt8} (h : call ∈ r.removeCalls s) :
    (call = (false, s.mFrom) ∧ r.lo < s.lo) ∨ (call = (true, s.mTo) ∧ s.hi < r.hi) := by
  have hov : r.overlaps s = true := by
    by_contra hov
    simp [removeCalls, hov] at h
  obtain ⟨hfam, hov1, hov2⟩ := (overlaps_iff hr hs).mp hov
  have h1 := hr.length_eq
  have h2 := hs.length_eq
  have hcon := contains_iff hs hr
  unfold family lo hi at *
  have hf : compareAddr r.mFrom s.mFrom = compare (value r.mFrom) (value s.mFrom) :=
    compareAddr_of_length_eq hfam
  have ht : compareAddr s.mTo r.mTo = compare (value s.mTo) (value r.mTo) :=
    compareAddr_of_length_eq (by omega)
  have ht' : compareAddr r.mTo s.mTo = compare (value r.mTo) (value s.mTo) :=
    compareAddr_of_length_eq (by omega)
  have hc : s.contains r = false := by
    by_contra hc
    simp [removeCalls, hov, hc] at h
  simp only [removeCalls, hov, hc, Bool.not_true, Bool.not_false, Bool.false_eq_true, if_false, if_true, hf,
    ht, ht', beq_iff_eq, compare_lt_iff_lt, compare_gt_iff_gt, Bool.and_eq_true] at h
  by_cases hlo : value r.mFrom < value s.mFrom <;> by_cases hhi : value s.mTo < value r.mTo
  · -- `s` strictly inside `r`: both calls
    simp only [hlo, hhi, and_self, if_true, List.mem_cons, List.not_mem_nil, or_false] at h
    rcases h with rfl | rfl
    · exact .inl ⟨rfl, hlo⟩
    · exact .inr ⟨rfl, hhi⟩
  · simp [hlo, hhi] at h
    exact .inl ⟨h, hlo⟩
  · simp [hlo, hhi] at h
    exact .inr ⟨h, hhi⟩
  · -- neither end of `r` sticks out, so `s` covers it
    exact absurd (hcon.mpr ⟨hfam.symm, by omega, by omega⟩) (by simp [hc])

/-- No call of `remove` wraps. -/
theorem removeCalls_not_wraps (hr : r.Valid) (hs : s.Valid) : ∀ call ∈ r.removeCalls s, ¬ Wraps call := by
  intro call hcall
  have h2 := hs.length_eq
  have hrlt := hr.hi_lt
  rcases mem_removeCalls hr hs hcall with ⟨rfl, hlo⟩ | ⟨rfl, hhi⟩
  · simp only [Wraps, lo] at hlo ⊢
    omega
  · -- `s` ends below `r`'s end, inside the family of both
    have hfam : s.family = r.family := ((overlaps_iff hr hs).mp (by
      by_contra hov
      simp [removeCalls, hov] at hcall)).1.symm
    simp only [Wraps, hi, family] at hhi hrlt hfam ⊢
    rw [h2, hfam]
    omega

/-- No call of `merge` wraps between ranges of one family: `adjacent` is asked only of
ranges that do not overlap, so the one it moves from lies next to an address of the
other. -/
theorem mergeCalls_not_wraps (hr : r.Valid) (hs : s.Valid) (hfam : r.family = s.family) :
    ∀ call ∈ r.mergeCalls s, ¬ Wraps call := by
  unfold mergeCalls
  by_cases hov : r.overlaps s = true
  · simp [hov]
  · have hsep : ¬ (s.lo ≤ r.hi ∧ r.lo ≤ s.hi) := fun h =>
      hov ((overlaps_iff hr hs).mpr ⟨hfam, h⟩)
    have h1 := hr.length_eq
    have h2 := hs.length_eq
    have hslt := hs.hi_lt
    have hsle := hs.le
    have hrle := hr.le
    unfold family lo hi at *
    have hcmp : compareAddr r.mTo s.mFrom = compare (value r.mTo) (value s.mFrom) :=
      compareAddr_of_length_eq (by omega)
    simp only [hov, Bool.false_eq_true, if_false, adjacentCalls, hcmp, beq_iff_eq, compare_lt_iff_lt]
    split_ifs with hlt <;> simp only [List.mem_singleton, forall_eq, Wraps]
    · -- `r` ends below `s`: its last address is not the family's last
      rw [h1, hfam]
      omega
    · -- `r` starts above `s`: its first address is not the family's first
      omega

/-- **The calls do wrap across families.** `merge` of the IPv4 range that ends at
`255.255.255.255` with an IPv6 range does not overlap it, and `adjacent` hands the
all-ones address to `inc`, which wraps it to `0.0.0.0`; `merge` still answers `null`. -/
theorem merge_wraps_across_families :
    (ofBytes [255, 255, 255, 255] [255, 255, 255, 255]).overlaps (ofBytes (List.replicate 16 0) (List.replicate 16 0)) =
        false ∧
      (true, [255, 255, 255, 255]) ∈
        (ofBytes [255, 255, 255, 255] [255, 255, 255, 255]).mergeCalls (ofBytes (List.replicate 16 0) (List.replicate 16 0)) ∧
      Wraps (true, [255, 255, 255, 255]) ∧ inc [255, 255, 255, 255] = [0, 0, 0, 0] ∧
      (ofBytes [255, 255, 255, 255] [255, 255, 255, 255]).merge (ofBytes (List.replicate 16 0) (List.replicate 16 0)) =
        none := by
  decide

/-- What `merge` and `remove` answer for any two well-formed ranges, and that none of
their calls of `inc` and `dec` wraps, except `merge`'s between ranges of two families. -/
theorem merge_remove_laws {a b : IPRange} (ha : a.Valid) (hb : b.Valid) :
    ((a.merge b).isSome = true ↔
      a.family = b.family ∧ ∃ lo hi, a.points ∪ b.points = {p | p.1 = a.family ∧ lo ≤ p.2 ∧ p.2 ≤ hi}) ∧
    (∀ c, a.merge b = some c →
      c.points = a.points ∪ b.points ∧ ∃ c', b.merge a = some c' ∧ c.equals c' = true) ∧
    (a.remove b).length ≤ 2 ∧
    (a.remove b).Pairwise (fun c d => c.family = d.family ∧ c.hi + 1 < d.lo) ∧
    covered (a.remove b) = a.points \ b.points ∧
    (a.overlaps b = false → a.remove b = [a]) ∧
    (a.family ≠ b.family → a.remove b = [a]) ∧
    (b.contains a = true → a.remove b = []) ∧
    (∀ call ∈ a.removeCalls b, ¬ Wraps call) ∧
    (a.family = b.family → ∀ call ∈ a.mergeCalls b, ¬ Wraps call) := by
  have hno : a.family ≠ b.family → a.overlaps b = false := fun hne => by
    by_contra hov
    exact hne ((overlaps_iff ha hb).mp (by simpa using hov)).1
  refine ⟨?_, fun c hc => ⟨(merge_eq_some ha hb hc).2, merge_comm ha hb hc⟩, length_remove_le a b,
    remove_sorted ha hb, covered_remove ha hb, remove_of_overlaps_eq_false,
    fun hne => remove_of_overlaps_eq_false (hno hne), remove_of_contains ha hb,
    removeCalls_not_wraps ha hb, mergeCalls_not_wraps ha hb⟩
  -- `merge` answers a range exactly when the two are not separated
  rw [Option.isSome_iff_ne_none, Ne, merge_eq_none_iff ha hb]
  constructor
  · intro hns
    have hfam : a.family = b.family := by
      by_contra hne
      exact hns (.inl hne)
    exact ⟨hfam, (union_interval_iff ha hb hfam).mpr hns⟩
  · rintro ⟨hfam, hI⟩
    exact (union_interval_iff ha hb hfam).mp hI

theorem merge_remove_laws_overlapping :
    covered ((ofBytes [10, 0, 0, 0] [10, 0, 0, 255]).remove (ofBytes [10, 0, 0, 128] [10, 0, 1, 0])) =
      (ofBytes [10, 0, 0, 0] [10, 0, 0, 255]).points \ (ofBytes [10, 0, 0, 128] [10, 0, 1, 0]).points :=
  (merge_remove_laws (a := ofBytes [10, 0, 0, 0] [10, 0, 0, 255]) (b := ofBytes [10, 0, 0, 128] [10, 0, 1, 0])
    ⟨rfl, by decide⟩ ⟨rfl, by decide⟩).2.2.2.2.1

end Laws

end IPRange

end VpnClient.Android
