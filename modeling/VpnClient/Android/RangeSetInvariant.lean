import VpnClient.Android.IPRangeSet
import Mathlib.Data.List.Induction
import Mathlib.Data.List.Pairwise

/-!
# The `IPRangeSet` invariant

Every set the class can build, by any sequence of `add`, `addAll`, `remove` and
their set-valued variants from a new set, mixing IPv4 and IPv6 ranges freely, holds

* well-formed ranges,
* in strictly increasing `compareTo` order, and
* pairwise `Separated`: no two share an address or touch,

and each call changes the covered addresses by exactly the set operation it is
named after. `Normal` is the invariant; `Op.apply_spec` is the step lemma, with one
lemma per loop under it (`reinsert_spec` for the merge-and-restart loop of `add`,
`removeScan_perm` for the walk of `remove`), and `run_normal` the run lemma.
`rangeSet_step_invariant` reads the invariant back in the terms of the class: any
two ranges are disjoint and `merge` refuses them, and no range can be extended by a
covered neighbour, so each maximal block of covered addresses is one range.
-/

namespace VpnClient.Android

namespace IPRangeSet

open VpnClient.Lib IPRange

/-! ## 1. The invariant -/

/-- The shape `add` and `remove` keep the ranges of a set in. -/
structure Normal (l : List IPRange) : Prop where
  valid : ∀ r ∈ l, r.Valid
  sorted : TreeSet.Sorted IPRange.compareTo l
  separated : l.Pairwise Separated

theorem Normal.nil : Normal [] := ⟨by simp, List.Pairwise.nil, List.Pairwise.nil⟩

theorem Normal.sublist {l l' : List IPRange} (h : Normal l) (hs : l'.Sublist l) : Normal l' :=
  ⟨fun r hr => h.valid r (hs.subset hr), h.sorted.sublist hs, h.separated.sublist hs⟩

/-- Ranges a `TreeSet` may hold side by side never compare equal. -/
theorem apart_of_separated {a b : IPRange} (ha : a.Valid) (h : Separated a b) :
    TreeSet.Apart IPRange.compareTo a b := by
  intro heq
  have ⟨hf, ht⟩ := equals_iff.mp (show a.equals b = true by simp [equals, heq])
  have hab : Separated a a := by
    unfold Separated family lo hi at *
    rw [hf, ht] at h ⊢
    exact h
  exact not_separated_self ha hab

/-- Any two ranges of a normal list are separated. -/
theorem Normal.separated_of_ne {l : List IPRange} (h : Normal l) {a b : IPRange} (ha : a ∈ l)
    (hb : b ∈ l) (hne : a ≠ b) : Separated a b :=
  h.separated.forall ha hb hne

/-! ## 2. `add` -/

/-- `findMerge` takes out one range that merges. -/
theorem findMerge_some {range : IPRange} :
    ∀ {l rest : List IPRange} {rep : IPRange}, findMerge range l = some (rep, rest) →
      ∃ e, e.merge range = some rep ∧ l.Perm (e :: rest) ∧ rest.Sublist l
  | [], _, _, h => by simp [findMerge] at h
  | existing :: l, rest, rep, h => by
    simp only [findMerge] at h
    split at h
    · rename_i hm
      cases h
      exact ⟨existing, hm, List.Perm.refl _, List.sublist_cons_self _ _⟩
    · obtain ⟨⟨rep', rest'⟩, h', he⟩ := Option.map_eq_some_iff.mp h
      cases he
      obtain ⟨e, hm, hperm, hsub⟩ := findMerge_some h'
      exact ⟨e, hm, (hperm.cons existing).trans (List.Perm.swap e existing rest'), hsub.cons_cons _⟩

/-- When `findMerge` finds nothing, no range of the set merges. -/
theorem findMerge_none {range : IPRange} :
    ∀ {l : List IPRange}, findMerge range l = none → ∀ e ∈ l, e.merge range = none
  | [], _ => by simp
  | existing :: l, h => by
    simp only [findMerge] at h
    split at h
    · cases h
    · rename_i hm
      have hrest := findMerge_none (Option.map_eq_none_iff.mp h)
      intro e he
      rcases List.mem_cons.mp he with rfl | he
      · exact hm
      · exact hrest e he

/-- Inserting a range separated from all others keeps the list normal. -/
theorem Normal.treeAdd {l : List IPRange} {range : IPRange} (hl : Normal l) (hr : range.Valid)
    (hsep : ∀ e ∈ l, Separated e range) :
    Normal (TreeSet.add IPRange.compareTo range l) ∧
      covered (TreeSet.add IPRange.compareTo range l) = covered l ∪ range.points := by
  have hperm : (TreeSet.add IPRange.compareTo range l).Perm (range :: l) :=
    TreeSet.add_perm fun e he => apart_of_separated hr (hsep e he).symm
  have hcons : (range :: l).Pairwise Separated :=
    List.Pairwise.cons (fun e he => (hsep e he).symm) hl.separated
  refine ⟨⟨fun c hc => ?_, hl.sorted.add compareTo_eq_compare range,
    (hperm.pairwise_iff fun {_ _} => Separated.symm).mpr hcons⟩, ?_⟩
  · rcases List.mem_cons.mp (hperm.subset hc) with rfl | hc
    · exact hr
    · exact hl.valid c hc
  · rw [covered_perm hperm, covered_cons, Set.union_comm]

/-- **The merge-and-restart loop of `add`**: it keeps the list normal and adds the
range's addresses. The induction follows `reinsert`'s own recursion: one merge per
step, on a list one shorter. -/
theorem reinsert_spec {l : List IPRange} {range : IPRange} (hl : Normal l) (hr : range.Valid) :
    Normal (reinsert l range) ∧ covered (reinsert l range) = covered l ∪ range.points := by
  induction l, range using reinsert.induct with
  | case1 ranges range rep rest hfind ih =>
    -- a range merged: go on with the rest and the merged range
    obtain ⟨e, hm, hperm, hsub⟩ := findMerge_some hfind
    have he : e.Valid := hl.valid e (hperm.symm.subset List.mem_cons_self)
    obtain ⟨hrep, hpts⟩ := merge_eq_some he hr hm
    obtain ⟨hn, hcov⟩ := ih (hl.sublist hsub) hrep
    rw [reinsert, hfind]
    refine ⟨hn, ?_⟩
    rw [hcov, hpts, covered_perm hperm, covered_cons]
    ext p; simp only [Set.mem_union]; tauto
  | case2 ranges range hfind =>
    -- nothing merges: every range of the set is separated from the new one
    rw [reinsert, hfind]
    exact hl.treeAdd hr fun e he =>
      (merge_eq_none_iff (hl.valid e he) hr).mp (findMerge_none hfind e he)

/-- **`add(IPRange)` adds the range's addresses and keeps the set normal.** -/
theorem add_spec {s : IPRangeSet} {range : IPRange} (hl : Normal s.mRanges) (hr : range.Valid) :
    Normal (s.add range).mRanges ∧ covered (s.add range).mRanges = covered s.mRanges ∪ range.points := by
  unfold add
  split
  · -- the set already holds an equal range, whose addresses are the same
    rename_i hc
    obtain ⟨e, he, heq⟩ := (TreeSet.contains_iff _).mp hc
    obtain ⟨hf, ht⟩ := equals_iff.mp (show range.equals e = true by simp [equals, heq])
    refine ⟨hl, ?_⟩
    have hsub : range.points ⊆ covered s.mRanges := fun p hp =>
      ⟨e, he, by unfold points family lo hi at *; rwa [← hf, ← ht]⟩
    exact (Set.union_eq_left.mpr hsub).symm
  · exact reinsert_spec hl hr

/-- `addAll`, and `add(IPRangeSet)` with another set: one `add` after the other. -/
theorem addAll_spec {coll : List IPRange} :
    ∀ {s : IPRangeSet}, Normal s.mRanges → (∀ r ∈ coll, r.Valid) →
      Normal (s.addAll coll).mRanges ∧ covered (s.addAll coll).mRanges = covered s.mRanges ∪ covered coll := by
  induction coll with
  | nil => intro s hl _; simp [addAll, hl]
  | cons r coll ih =>
    intro s hl hv
    obtain ⟨hn, hcov⟩ := add_spec hl (hv r List.mem_cons_self)
    obtain ⟨hn', hcov'⟩ := ih hn fun c hc => hv c (List.mem_cons_of_mem _ hc)
    refine ⟨hn', ?_⟩
    rw [show s.addAll (r :: coll) = (s.add r).addAll coll from rfl, hcov', hcov, covered_cons,
      Set.union_assoc]

/-! ## 3. `remove` -/

/-- **The walk of `remove`**: what it keeps and what it collects are, together, the
pieces `IPRange.remove` leaves of every range, and what it keeps is part of the
set. A range is kept as it is only when `remove` returned it unchanged
(`remove_equals`), so keeping it is keeping its one piece. -/
theorem removeScan_perm {range : IPRange} (hr : range.Valid) :
    ∀ {l : List IPRange}, (∀ r ∈ l, r.Valid) →
      ((removeScan range l).1 ++ (removeScan range l).2).Perm (l.flatMap (·.remove range)) ∧
        (removeScan range l).1.Sublist l
  | [], _ => by simp [removeScan]
  | existing :: rest, hv => by
    obtain ⟨hperm, hsub⟩ := removeScan_perm hr (l := rest) fun r h => hv r (List.mem_cons_of_mem _ h)
    have he := hv existing List.mem_cons_self
    simp only [removeScan, List.flatMap_cons]
    split
    · -- the range vanishes
      rename_i hnil
      rw [hnil, List.nil_append]
      exact ⟨hperm, hsub.cons _⟩
    · rename_i first more hres
      split
      · -- kept as it is: `remove` returned it unchanged
        rename_i heq
        have hsame := remove_equals he hr (by rw [hres]; exact List.mem_cons_self) heq
        rw [hsame]
        exact ⟨hperm.cons existing, hsub.cons_cons existing⟩
      · -- replaced by its pieces, collected for after the walk
        rw [hres]
        refine ⟨?_, hsub.cons _⟩
        -- the collected pieces go after the kept ranges; the order does not matter
        exact (List.perm_append_comm_assoc _ _ _).trans (hperm.append_left _)

/-- The pieces of a normal list after removing a range: well formed, separated, and
covering the difference. -/
theorem flatMap_remove_spec {l : List IPRange} {range : IPRange} (hl : Normal l)
    (hr : range.Valid) :
    (∀ c ∈ l.flatMap (·.remove range), c.Valid) ∧
      (l.flatMap (·.remove range)).Pairwise Separated ∧
      covered (l.flatMap (·.remove range)) = covered l \ range.points := by
  refine ⟨fun c hc => ?_, ?_, ?_⟩
  · obtain ⟨e, he, hc⟩ := List.mem_flatMap.mp hc
    exact (remove_valid (hl.valid e he) hr c hc).1
  · -- pieces of one range are separated by `range`; pieces of two ranges by the gap
    -- between those ranges
    refine List.pairwise_flatMap.mpr ⟨fun e he => remove_pairwise_separated (hl.valid e he) hr, ?_⟩
    refine hl.separated.imp_of_mem fun {a b} ha hb hab c hc d hd => ?_
    obtain ⟨hcv, hca⟩ := remove_valid (hl.valid a ha) hr c hc
    obtain ⟨hdv, hdb⟩ := remove_valid (hl.valid b hb) hr d hd
    exact hab.mono hcv hdv hca hdb
  · ext p
    simp only [mem_covered, List.mem_flatMap, Set.mem_sdiff]
    constructor
    · rintro ⟨c, ⟨e, he, hc⟩, hp⟩
      have hpe : p ∈ covered (e.remove range) := ⟨c, hc, hp⟩
      rw [covered_remove (hl.valid e he) hr] at hpe
      exact ⟨⟨e, he, hpe.1⟩, hpe.2⟩
    · rintro ⟨⟨e, he, hp⟩, hnot⟩
      have hpe : p ∈ covered (e.remove range) := by
        rw [covered_remove (hl.valid e he) hr]; exact ⟨hp, hnot⟩
      obtain ⟨c, hc, hpc⟩ := hpe
      exact ⟨c, ⟨e, he, hc⟩, hpc⟩

/-- **`remove(IPRange)` removes the range's addresses and keeps the set normal.** -/
theorem remove_spec {s : IPRangeSet} {range : IPRange} (hl : Normal s.mRanges) (hr : range.Valid) :
    Normal (s.remove range).mRanges ∧
      covered (s.remove range).mRanges = covered s.mRanges \ range.points := by
  obtain ⟨hperm, hsub⟩ := removeScan_perm hr hl.valid
  obtain ⟨hvalid, hsep, hcov⟩ := flatMap_remove_spec hl hr
  -- what the walk keeps and collects is apart under `compareTo`, so `addAll` only
  -- permutes it
  have hapart : ((removeScan range s.mRanges).1 ++ (removeScan range s.mRanges).2).Pairwise
      (TreeSet.Apart IPRange.compareTo) :=
    ((hperm.pairwise_iff fun {_ _} => Separated.symm).mpr hsep).imp_of_mem
      fun {a _} ha _ h => apart_of_separated (hvalid a (hperm.subset ha)) h
  have hall := (TreeSet.addAll_perm compareTo_eq_compare _ hapart).trans hperm
  refine ⟨⟨fun c hc => hvalid c (hall.subset hc), ?_, (hall.pairwise_iff fun {_ _} =>
    Separated.symm).mpr hsep⟩, by rw [← hcov]; exact covered_perm hall⟩
  exact TreeSet.Sorted.addAll compareTo_eq_compare _ (hl.sorted.sublist hsub)

/-- `remove(IPRangeSet)` with another set: one `remove` after the other. -/
theorem removeSet_spec {ranges : List IPRange} :
    ∀ {s : IPRangeSet}, Normal s.mRanges → (∀ r ∈ ranges, r.Valid) →
      Normal (ranges.foldl remove s).mRanges ∧
        covered (ranges.foldl remove s).mRanges = covered s.mRanges \ covered ranges := by
  induction ranges with
  | nil => intro s hl _; simp [hl]
  | cons r ranges ih =>
    intro s hl hv
    obtain ⟨hn, hcov⟩ := remove_spec hl (hv r List.mem_cons_self)
    obtain ⟨hn', hcov'⟩ := ih hn fun c hc => hv c (List.mem_cons_of_mem _ hc)
    refine ⟨hn', ?_⟩
    rw [List.foldl_cons, hcov', hcov, covered_cons, Set.sdiff_sdiff]

/-! ## 4. Runs -/

/-- What a call does to the covered addresses: union for the `add` calls, difference
for the `remove` calls. -/
def Op.denote : Op → Set (ℕ × ℕ) → Set (ℕ × ℕ)
  | .add range, S => S ∪ range.points
  | .addSet ranges, S => S ∪ covered ranges.mRanges
  | .addSelf, S => S ∪ S
  | .addAll coll, S => S ∪ covered coll
  | .remove range, S => S \ range.points
  | .removeSet ranges, S => S \ covered ranges.mRanges
  | .removeSelf, S => S \ S

/-- **The step lemma**: every call on a normal set leaves it normal and changes its
addresses by its set operation. -/
theorem Op.apply_spec {s : IPRangeSet} (hl : Normal s.mRanges) :
    ∀ {op : Op}, op.Args IPRange.Valid →
      Normal (op.apply s).mRanges ∧ covered (op.apply s).mRanges = op.denote (covered s.mRanges)
  | .add range, h => add_spec hl h
  | .addSet ranges, h => addAll_spec hl h
  | .addSelf, _ => ⟨hl, (Set.union_self _).symm⟩
  | .addAll coll, h => addAll_spec hl h
  | .remove range, h => remove_spec hl h
  | .removeSet ranges, h => removeSet_spec hl h
  | .removeSelf, _ => ⟨Normal.nil, by simp [Op.apply, Op.denote, empty]⟩

theorem run_append_singleton (ops : List Op) (op : Op) : run (ops ++ [op]) = op.apply (run ops) := by
  simp [run]

/-- **The run lemma**: a set built by any sequence of calls is normal. -/
theorem run_normal : ∀ (ops : List Op), (∀ op ∈ ops, op.Args IPRange.Valid) → Normal (run ops).mRanges := by
  intro ops
  induction ops using List.reverseRecOn with
  | nil => intro _; exact Normal.nil
  | append_singleton ops op ih =>
    intro h
    rw [run_append_singleton]
    exact (Op.apply_spec (ih fun o ho => h o (List.mem_append_left _ ho))
      (h op (List.mem_append_right _ List.mem_cons_self))).1

/-- In a normal list no range can be extended by a covered neighbour address. -/
theorem Normal.neighbours_uncovered {l : List IPRange} (hl : Normal l) {r : IPRange} (hr : r ∈ l) :
    (r.family, r.hi + 1) ∉ covered l ∧ (0 < r.lo → (r.family, r.lo - 1) ∉ covered l) := by
  have hv := (hl.valid r hr).le
  -- a covered neighbour lies in another range, which would then touch `r`
  have key : ∀ x, (x = r.hi + 1 ∨ x + 1 = r.lo) → (r.family, x) ∉ covered l := by
    rintro x hx ⟨e, he, hf, h1, h2⟩
    have hne : r ≠ e := by
      rintro rfl; simp only at h1 h2; omega
    have hsep := hl.separated_of_ne hr he hne
    simp only at hf
    unfold Separated at hsep
    omega
  exact ⟨key _ (Or.inl rfl), fun hpos => key _ (Or.inr (by omega))⟩

/-- **`IPRangeSet` keeps its ranges canonical.** After any sequence of calls from a
new set, the next call changes the covered `(family, address)` points by exactly
its set operation, and afterwards any two ranges of the set are disjoint and
`merge` refuses them, and no range has a covered address right before or after
it: every maximal block of covered addresses is one range. -/
theorem rangeSet_step_invariant (ops : List Op) (hops : ∀ op ∈ ops, op.Args IPRange.Valid)
    (op : Op) (hop : op.Args IPRange.Valid) :
    covered (op.apply (run ops)).mRanges = op.denote (covered (run ops).mRanges) ∧
      (op.apply (run ops)).mRanges.Pairwise
        (fun a b => Disjoint a.points b.points ∧ a.merge b = none) ∧
      ∀ r ∈ (op.apply (run ops)).mRanges,
        (r.family, r.hi + 1) ∉ covered (op.apply (run ops)).mRanges ∧
          (0 < r.lo → (r.family, r.lo - 1) ∉ covered (op.apply (run ops)).mRanges) := by
  obtain ⟨hn, hcov⟩ := Op.apply_spec (run_normal ops hops) hop
  refine ⟨hcov, hn.separated.imp_of_mem fun {a b} ha hb hab => ⟨hab.disjoint, ?_⟩,
    fun r hr => hn.neighbours_uncovered hr⟩
  exact (merge_eq_none_iff (hn.valid a ha) (hn.valid b hb)).mpr hab

/-- `testRemoveOverlap`: two adjacent `/24`s, then a range across their boundary
removed. -/
theorem rangeSet_step_invariant_removeOverlap :
    let ops := [Op.add (ofBytes [192, 168, 1, 0] [192, 168, 1, 255]),
      Op.add (ofBytes [192, 168, 2, 0] [192, 168, 2, 255])]
    let op := Op.remove (ofBytes [192, 168, 1, 128] [192, 168, 2, 127])
    (∀ o ∈ ops, o.Args IPRange.Valid) ∧ op.Args IPRange.Valid ∧
      covered (op.apply (run ops)).mRanges = op.denote (covered (run ops).mRanges) ∧
      (op.apply (run ops)).mRanges.Pairwise
        (fun a b => Disjoint a.points b.points ∧ a.merge b = none) ∧
      ∀ r ∈ (op.apply (run ops)).mRanges,
        (r.family, r.hi + 1) ∉ covered (op.apply (run ops)).mRanges ∧
          (0 < r.lo → (r.family, r.lo - 1) ∉ covered (op.apply (run ops)).mRanges) := by
  intro ops op
  have hops : ∀ o ∈ ops, o.Args IPRange.Valid := by
    simp only [ops, List.mem_cons, List.not_mem_nil, or_false, forall_eq_or_imp, forall_eq]
    exact ⟨⟨rfl, by decide⟩, ⟨rfl, by decide⟩⟩
  have hop : op.Args IPRange.Valid := ⟨rfl, by decide⟩
  exact ⟨hops, hop, rangeSet_step_invariant ops hops op hop⟩

end IPRangeSet

end VpnClient.Android
