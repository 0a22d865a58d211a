import VpnClient.Android.Subnets
import VpnClient.Android.RangeSetInvariant

/-!
# The subnets of an `IPRangeSet`

`BuilderCache.applyData` installs the VPN's routes from `IPRangeSet.subnets()`. Its
iterator takes the set's ranges in order and hands out the subnets `toSubnets`
splits each one into, so as a whole it yields their concatenation (`subnets`).

`subnets_sorted_disjoint_cover` is the result for every set a sequence of calls
builds from ranges the public constructors made: what the iterator yields is
strictly increasing under `compareTo`, each element a proper subnet with its prefix
cached, the elements pairwise disjoint, and together they cover exactly the set's
addresses. Two facts carry it besides `toSubnets_spec`.

* The ranges of such a set stay well formed (`run_closed`). The calls only ever
  store a range they were given, a merge of two stored ones, or a piece `remove`
  leaves of one, and `WellFormed` survives both (`Closed`).
* The lists of two ranges stay in order across the boundary
  (`compareTo_lt_of_separated`). A set's ranges are sorted and separated, so every
  subnet of an earlier range lies below every subnet of a later one: in an earlier
  family, or below the gap between the two ranges.
-/

namespace VpnClient.Android

namespace IPRangeSet

open VpnClient.Lib IPRange

/-! ## 1. What the calls store -/

/-- A property of ranges the calls keep: it implies `Valid`, and holds of a merge of
two ranges that have it and of every piece `remove` leaves of one. -/
structure Closed (P : IPRange → Prop) : Prop where
  valid : ∀ r, P r → r.Valid
  merge : ∀ {r s c : IPRange}, P r → P s → r.merge s = some c → P c
  remove : ∀ {r s c : IPRange}, P r → P s → c ∈ r.remove s → P c

theorem wellFormed_closed : Closed IPRange.WellFormed :=
  ⟨fun _ h => h.valid, merge_wellFormed, remove_wellFormed⟩

theorem Op.Args.mono {P Q : IPRange → Prop} (h : ∀ r, P r → Q r) :
    ∀ {op : Op}, op.Args P → op.Args Q
  | .add _, hp => h _ hp
  | .addSet _, hp => fun r hr => h r (hp r hr)
  | .addSelf, _ => trivial
  | .addAll _, hp => fun r hr => h r (hp r hr)
  | .remove _, hp => h _ hp
  | .removeSet _, hp => fun r hr => h r (hp r hr)
  | .removeSelf, _ => trivial

section Closed

variable {P : IPRange → Prop}

/-- The merge-and-restart loop of `add` stores the range, merges of it, or ranges
that were there. -/
theorem reinsert_closed (hP : Closed P) {l : List IPRange} {range : IPRange}
    (hl : ∀ r ∈ l, P r) (hr : P range) : ∀ c ∈ reinsert l range, P c := by
  induction l, range using reinsert.induct with
  | case1 ranges range rep rest hfind ih =>
    obtain ⟨e, hm, hperm, hsub⟩ := findMerge_some hfind
    rw [reinsert, hfind]
    exact ih (fun c hc => hl c (hsub.subset hc))
      (hP.merge (hl e (hperm.symm.subset List.mem_cons_self)) hr hm)
  | case2 ranges range hfind =>
    rw [reinsert, hfind]
    intro c hc
    rcases TreeSet.mem_add hc with rfl | hc
    exacts [hr, hl c hc]

theorem add_closed (hP : Closed P) {s : IPRangeSet} {range : IPRange}
    (hs : ∀ r ∈ s.mRanges, P r) (hr : P range) : ∀ c ∈ (s.add range).mRanges, P c := by
  unfold add
  split
  · exact hs
  · exact reinsert_closed hP hs hr

theorem addAll_closed (hP : Closed P) {coll : List IPRange} (hcoll : ∀ r ∈ coll, P r) :
    ∀ {s : IPRangeSet}, (∀ r ∈ s.mRanges, P r) → ∀ c ∈ (s.addAll coll).mRanges, P c := by
  induction coll with
  | nil => exact fun hs => hs
  | cons r coll ih =>
    intro s hs
    exact ih (fun c hc => hcoll c (List.mem_cons_of_mem _ hc))
      (add_closed hP hs (hcoll r List.mem_cons_self))

/-- `remove` stores what its walk kept and collected: pieces `IPRange.remove` left. -/
theorem remove_closed (hP : Closed P) {s : IPRangeSet} {range : IPRange}
    (hs : ∀ r ∈ s.mRanges, P r) (hr : P range) : ∀ c ∈ (s.remove range).mRanges, P c := by
  intro c hc
  obtain ⟨hperm, -⟩ := removeScan_perm (hP.valid _ hr) fun r h => hP.valid r (hs r h)
  have hc' : c ∈ (removeScan range s.mRanges).1 ++ (removeScan range s.mRanges).2 :=
    List.mem_append.mpr (TreeSet.mem_addAll _ hc)
  obtain ⟨e, he, hce⟩ := List.mem_flatMap.mp (hperm.subset hc')
  exact hP.remove (hs e he) hr hce

theorem removeSet_closed (hP : Closed P) {ranges : List IPRange} (hranges : ∀ r ∈ ranges, P r) :
    ∀ {s : IPRangeSet}, (∀ r ∈ s.mRanges, P r) → ∀ c ∈ (ranges.foldl remove s).mRanges, P c := by
  induction ranges with
  | nil => exact fun hs => hs
  | cons r ranges ih =>
    intro s hs
    exact ih (fun c hc => hranges c (List.mem_cons_of_mem _ hc))
      (remove_closed hP hs (hranges r List.mem_cons_self))

/-- **The step lemma for `P`**: a call given ranges with `P` keeps `P` of the set. -/
theorem Op.apply_closed (hP : Closed P) {s : IPRangeSet} (hs : ∀ r ∈ s.mRanges, P r) :
    ∀ {op : Op}, op.Args P → ∀ c ∈ (op.apply s).mRanges, P c
  | .add _, h => add_closed hP hs h
  | .addSet _, h => addAll_closed hP h hs
  | .addSelf, _ => hs
  | .addAll _, h => addAll_closed hP h hs
  | .remove _, h => remove_closed hP hs h
  | .removeSet _, h => removeSet_closed hP h hs
  | .removeSelf, _ => by simp [Op.apply, empty]

/-- **The run lemma for `P`**: calls given ranges with `P` build a set of ranges with
`P`. -/
theorem run_closed (hP : Closed P) :
    ∀ (ops : List Op), (∀ op ∈ ops, op.Args P) → ∀ c ∈ (run ops).mRanges, P c := by
  intro ops
  induction ops using List.reverseRecOn with
  | nil => intro _; simp [run, empty]
  | append_singleton ops op ih =>
    intro h
    rw [run_append_singleton]
    exact Op.apply_closed hP (ih fun o ho => h o (List.mem_append_left _ ho))
      (h op (List.mem_append_right _ List.mem_cons_self))

end Closed

/-! ## 2. `subnets()` -/

/-- `subnets()`: its iterator takes the ranges in order and hands out the subnets
`toSubnets` splits each into; as a whole, their concatenation. -/
def subnets (s : IPRangeSet) : Except String (List IPRange) :=
  List.flatten <$> s.mRanges.mapM IPRange.toSubnets

/-- What `subnets()` should yield for a set covering `S`: strictly increasing
proper subnets, pairwise disjoint, covering `S`. -/
structure SubnetSeq (S : Set (ℕ × ℕ)) (l : List IPRange) : Prop where
  sorted : l.Pairwise fun a b => a.compareTo b = .lt
  subnets : ∀ c ∈ l, ∃ p, c.mPrefix = some p ∧ c.IsSubnet p
  disjoint : l.Pairwise fun a b => Disjoint a.points b.points
  covered_eq : covered l = S

/-! ## 3. The order of the subnets -/

theorem compareTo_eq_lt_of_lo {c c' : IPRange}
    (h : c.family < c'.family ∨ c.family = c'.family ∧ c.lo < c'.lo) : c.compareTo c' = .lt := by
  unfold compareTo
  rw [compareAddr_eq_lt_iff.mpr h]

theorem lo_le_of_compareTo_eq_lt {r r' : IPRange} (h : r.compareTo r' = .lt) :
    r.family < r'.family ∨ r.family = r'.family ∧ r.lo ≤ r'.lo := by
  have hne : compareAddr r.mFrom r'.mFrom ≠ .gt := by
    intro hgt
    simp [compareTo, hgt] at h
  exact compareAddr_isLE_iff.mp (Ordering.isLE_iff_ne_gt.mpr hne)

/-- Disjoint ranges in `compareTo` order are strictly ordered: they cannot share their
first address. -/
theorem compareTo_eq_lt_of_disjoint {c c' : IPRange} (hc : c.Valid) (hc' : c'.Valid)
    (hle : (c.compareTo c').isLE) (hdisj : Disjoint c.points c'.points) : c.compareTo c' = .lt := by
  cases hcmp : c.compareTo c' with
  | lt => rfl
  | gt => simp [hcmp] at hle
  | eq =>
    -- equal first addresses: the first address lies in both ranges
    have hfrom := (equals_iff.mp (show c.equals c' = true by simp [equals, hcmp])).1
    have hmem : (c.family, c.lo) ∈ c.points := ⟨rfl, le_rfl, hc.le⟩
    have hmem' : (c.family, c.lo) ∈ c'.points := by
      refine ⟨by simp [family, hfrom], by simp [lo, hfrom], ?_⟩
      simpa [lo, hfrom] using hc'.le
    exact (Set.disjoint_left.mp hdisj hmem hmem').elim

/-- **Subnets of two ranges of a set keep the ranges' order.** A range `c` ending in
`r` lies below a range `c'` starting in a later, separated `r'`: in an earlier
family, or below the gap between the ranges. -/
theorem compareTo_lt_of_separated {r r' c c' : IPRange} (hlt : r.compareTo r' = .lt)
    (hsep : Separated r r') (hc : c.lo ≤ c.hi) (hhi : (c.family, c.hi) ∈ r.points)
    (hlo' : (c'.family, c'.lo) ∈ r'.points) : c.compareTo c' = .lt := by
  have hord := lo_le_of_compareTo_eq_lt hlt
  apply compareTo_eq_lt_of_lo
  simp only [mem_points] at hhi hlo'
  unfold Separated at hsep
  omega

/-- **The subnets of a normal list of well-formed ranges**, range after range. -/
theorem mapM_toSubnets_spec : ∀ {l : List IPRange}, Normal l → (∀ r ∈ l, r.WellFormed) →
    ∃ ls, l.mapM toSubnets = .ok ls ∧ SubnetSeq (covered l) ls.flatten
  | [], _, _ => ⟨[], rfl, ⟨.nil, by simp, .nil, by simp⟩⟩
  | r :: rest, hn, hwf => by
    obtain ⟨lr, hr, hsorted, hsub, -⟩ := toSubnets_spec (hwf r List.mem_cons_self)
    obtain ⟨ls, hls, hseq⟩ := mapM_toSubnets_spec (hn.sublist (List.sublist_cons_self r rest))
      fun c hc => hwf c (List.mem_cons_of_mem _ hc)
    refine ⟨lr :: ls, by rw [List.mapM_cons, hr, hls]; rfl, ?_⟩
    have hvalid : ∀ c ∈ lr, c.Valid := fun c hc =>
      let ⟨_, _, _, hcs⟩ := hsub.subnets c hc; hcs.valid
    -- a subnet of a later range lies in some range of `rest`
    have hlater : ∀ c' ∈ ls.flatten, ∀ q ∈ c'.points, ∃ r' ∈ rest, q ∈ r'.points := by
      intro c' hc' q hq
      have hq' : q ∈ covered ls.flatten := ⟨c', hc', hq⟩
      rwa [hseq.covered_eq] at hq'
    have hrest : ∀ r' ∈ rest, r.compareTo r' = .lt ∧ Separated r r' := fun r' hr' =>
      ⟨List.rel_of_pairwise_cons hn.sorted hr', List.rel_of_pairwise_cons hn.separated hr'⟩
    rw [List.flatten_cons]
    refine ⟨List.pairwise_append.mpr ⟨?_, hseq.sorted, ?_⟩, fun c hc => ?_,
      List.pairwise_append.mpr ⟨hsub.disjoint, hseq.disjoint, ?_⟩, ?_⟩
    · -- within one range: sorted by `compareTo` and disjoint
      exact (hsorted.and hsub.disjoint).imp_of_mem fun ha hb h =>
        compareTo_eq_lt_of_disjoint (hvalid _ ha) (hvalid _ hb) h.1 h.2
    · -- across ranges: `c` ends in `r`, `c'` starts in a later range
      intro c hc c' hc'
      obtain ⟨_, -, hcs'⟩ := hseq.subnets c' hc'
      obtain ⟨r', hr', hlo'⟩ := hlater c' hc' (c'.family, c'.lo) ⟨rfl, le_rfl, hcs'.valid.le⟩
      have hcle := (hvalid c hc).le
      exact compareTo_lt_of_separated (hrest r' hr').1 (hrest r' hr').2 hcle
        (hsub.points_subset hc ⟨rfl, hcle, le_rfl⟩) hlo'
    · rcases List.mem_append.mp hc with hc | hc
      exacts [(hsub.subnets c hc).2, hseq.subnets c hc]
    · intro a ha b hb
      refine Set.disjoint_left.mpr fun q hqa hqb => ?_
      obtain ⟨r', hr', hq'⟩ := hlater b hb q hqb
      exact Set.disjoint_left.mp (hrest r' hr').2.disjoint (hsub.points_subset ha hqa) hq'
    · rw [covered_append, hsub.covered_eq, hseq.covered_eq, covered_cons]

/-! ## 4. Reachable sets -/

/-- **`subnets()` yields the set's addresses as sorted, disjoint proper subnets.**
For every set a sequence of calls builds from ranges the public constructors made,
`subnets()` runs without an exception, and what it yields is strictly increasing
under `compareTo`, each element is the proper subnet of the prefix it caches, the
elements are pairwise disjoint, and together they cover exactly the set's
addresses. -/
theorem subnets_sorted_disjoint_cover (ops : List Op)
    (hops : ∀ op ∈ ops, op.Args IPRange.WellFormed) :
    ∃ l, (run ops).subnets = .ok l ∧ l.Pairwise (fun a b => a.compareTo b = .lt) ∧
      (∀ c ∈ l, ∃ p, c.mPrefix = some p ∧ c.IsSubnet p) ∧
      l.Pairwise (fun a b => Disjoint a.points b.points) ∧
      covered l = covered (run ops).mRanges := by
  have hn := run_normal ops fun op hop => Op.Args.mono (fun _ h => h.valid) (hops op hop)
  obtain ⟨ls, hls, hseq⟩ := mapM_toSubnets_spec hn (run_closed wellFormed_closed ops hops)
  refine ⟨ls.flatten, ?_, hseq.sorted, hseq.subnets, hseq.disjoint, hseq.covered_eq⟩
  rw [subnets, hls]
  rfl

/-- An IPv6 range, then an IPv4 range that is no subnet. -/
theorem subnets_sorted_disjoint_cover_mixed :
    let ops := [Op.add (ofBytes (List.replicate 15 0 ++ [0]) (List.replicate 15 0 ++ [7])),
      Op.add (ofBytes [192, 168, 1, 3] [192, 168, 1, 9])]
    (∀ op ∈ ops, op.Args IPRange.WellFormed) ∧
      ∃ l, (run ops).subnets = .ok l ∧ l.Pairwise (fun a b => a.compareTo b = .lt) ∧
        (∀ c ∈ l, ∃ p, c.mPrefix = some p ∧ c.IsSubnet p) ∧
        l.Pairwise (fun a b => Disjoint a.points b.points) ∧
        covered l = covered (run ops).mRanges := by
  intro ops
  have hops : ∀ op ∈ ops, op.Args IPRange.WellFormed := by
    simp only [ops, List.mem_cons, List.not_mem_nil, or_false, forall_eq_or_imp, forall_eq]
    exact ⟨ofBytes_wellFormed ⟨rfl, by decide⟩ (Or.inr rfl),
      ofBytes_wellFormed ⟨rfl, by decide⟩ (Or.inl rfl)⟩
  exact ⟨hops, subnets_sorted_disjoint_cover ops hops⟩

end IPRangeSet

end VpnClient.Android
