import VpnClient.Android.Subnets

/-!
# `toSubnets` is the minimal decomposition

The walk of `toSubnets` adds only subnets whose parent, the aligned block of twice
their size, reaches outside the range (`ParentsOutside`, carried through the loop in
`Android/Subnets.lean`). Read through the blocks of `Lib/Dyadic.lean`, that says
each subnet found is a maximal block of the range. From there the general facts
about maximal blocks give what makes the decomposition the minimal one: no two of
the subnets are sibling halves of one block, every cover of the range by proper
subnets has at least as many, and a decomposition without siblings has the same
subnets.
-/

namespace VpnClient.Android

open VpnClient.Lib Dyadic

namespace IPRange

/-- The addresses of a range, as numbers. -/
def values (r : IPRange) : Set ℕ := Set.Icc r.lo r.hi

theorem mem_points_iff {r : IPRange} {q : ℕ × ℕ} : q ∈ r.points ↔ q.1 = r.family ∧ q.2 ∈ r.values :=
  Iff.rfl

/-- A proper subnet's addresses are an aligned block. -/
theorem IsSubnet.values_eq {c : IPRange} {p : ℕ} (h : c.IsSubnet p) :
    c.values = blockOf (8 * c.family - p) c.lo := by
  ext x
  have := Nat.two_pow_pos (8 * c.family - p)
  rw [mem_blockOf_iff_of_mod h.aligned, values, Set.mem_Icc, h.hi_eq]
  omega

/-- `c` and `d` are the two halves of one aligned block. -/
def Siblings (c d : IPRange) : Prop :=
  c.family = d.family ∧ ∃ j y y', c.values = blockOf j y ∧ d.values = blockOf j y' ∧
    blockOf j y ≠ blockOf j y' ∧ blockOf (j + 1) y = blockOf (j + 1) y'

theorem Siblings.symm {c d : IPRange} (h : Siblings c d) : Siblings d c := by
  obtain ⟨hf, j, y, y', hc, hd, hne, hpar⟩ := h
  exact ⟨hf.symm, j, y', y, hd, hc, Ne.symm hne, hpar.symm⟩

/-- Ranges of one family with the same addresses cover the same points. -/
theorem points_eq_of_values_eq {c d : IPRange} (hf : c.family = d.family)
    (hv : c.values = d.values) : c.points = d.points := by
  ext q
  rw [mem_points_iff, mem_points_iff, hf, hv]

/-! ## The subnets of a cover -/

section Cover

variable {r : IPRange} {l : List IPRange}

/-- The addresses of a range of a cover lie in the covered range. -/
theorem values_subset_of_covered (hcov : covered l = r.points) {c : IPRange} (hc : c ∈ l) :
    c.values ⊆ r.values := fun x hx => by
  have hq : (c.family, x) ∈ covered l := ⟨c, hc, ⟨rfl, hx⟩⟩
  rw [hcov] at hq
  exact hq.2

/-- Every address of the covered range lies in a range of the cover. -/
theorem exists_mem_values_of_covered (hcov : covered l = r.points) {x : ℕ}
    (hx : x ∈ r.values) : ∃ c ∈ l, x ∈ c.values := by
  have hq : (r.family, x) ∈ covered l := hcov ▸ ⟨rfl, hx⟩
  obtain ⟨c, hc, -, hxc⟩ := hq
  exact ⟨c, hc, hxc⟩

/-- A proper subnet of a cover has the covered range's family. -/
theorem family_eq_of_covered (hcov : covered l = r.points) {c : IPRange} (hc : c ∈ l) {p : ℕ}
    (hp : c.IsSubnet p) : c.family = r.family := by
  have hq : (c.family, c.lo) ∈ covered l := ⟨c, hc, ⟨rfl, le_rfl, hp.valid.le⟩⟩
  rw [hcov] at hq
  exact hq.1

/-- Disjoint subnets of one family have disjoint addresses. -/
theorem disjoint_values_of_points {c d : IPRange} (hf : c.family = d.family)
    (h : Disjoint c.points d.points) : Disjoint c.values d.values :=
  Set.disjoint_left.mpr fun x hxc hxd =>
    Set.disjoint_left.mp h (show (c.family, x) ∈ c.points from ⟨rfl, hxc⟩) ⟨hf, hxd⟩

end Cover

/-! ## The subnets of `toSubnets` -/

/-- The subnets `toSubnets` returns are maximal blocks of the range. -/
theorem maximalIn_of_parentsOutside {r : IPRange} {l : List IPRange}
    (hsub : SubnetList r.family r.points l) (hpar : ParentsOutside r.lo r.hi l) :
    ∀ c ∈ l, ∃ p, c.values = blockOf (8 * r.family - p) c.lo ∧
      MaximalIn r.values (8 * r.family - p) c.lo := by
  intro c hc
  obtain ⟨hfam, p, hp, hcs⟩ := hsub.subnets c hc
  have hv := hcs.values_eq
  rw [hfam] at hv
  refine ⟨p, hv, hv ▸ values_subset_of_covered hsub.covered_eq hc, ?_⟩
  have hout := hpar c hc p hp
  rwa [hfam] at hout

/-- Pairwise disjoint proper subnets cover pairwise different points. -/
theorem nodup_map_points {L : List IPRange} (hL : ∀ c ∈ L, ∃ p, c.IsSubnet p)
    (hd : L.Pairwise fun a b => Disjoint a.points b.points) : (L.map points).Nodup := by
  refine List.pairwise_map.mpr (hd.imp_of_mem fun {a b} ha _ h heq => ?_)
  obtain ⟨p, hp⟩ := hL a ha
  have hlo : (a.family, a.lo) ∈ a.points := ⟨rfl, le_rfl, hp.valid.le⟩
  exact Set.disjoint_left.mp h hlo (heq ▸ hlo)

section Minimal

variable {r : IPRange} {l : List IPRange}

/-- No two maximal blocks are siblings. -/
theorem pairwise_not_siblings (hsub : SubnetList r.family r.points l)
    (hpar : ParentsOutside r.lo r.hi l) : l.Pairwise fun a b => ¬ Siblings a b := by
  have hmax := maximalIn_of_parentsOutside hsub hpar
  refine hsub.disjoint.imp_of_mem fun {a b} ha hb _ hsib => ?_
  obtain ⟨-, j, y, y', hay, hby, hne, hpar'⟩ := hsib
  obtain ⟨p, hav, hamax⟩ := hmax a ha
  exact hamax.of_blockOf_eq (hay.symm.trans hav) |>.not_siblings
    (hby ▸ values_subset_of_covered hsub.covered_eq hb) hne hpar'

/-- A cover of the range by proper subnets needs one inside each maximal block. -/
theorem length_le_of_cover (hsub : SubnetList r.family r.points l)
    (hpar : ParentsOutside r.lo r.hi l) {l' : List IPRange} (hl' : ∀ c ∈ l', ∃ p, c.IsSubnet p)
    (hcov' : covered l' = r.points) : l.length ≤ l'.length := by
  have hmax := maximalIn_of_parentsOutside hsub hpar
  have hdisj : l.Pairwise fun a b => Disjoint a.values b.values :=
    hsub.disjoint.imp_of_mem fun ha hb h =>
      disjoint_values_of_points (((hsub.subnets _ ha).1).trans (hsub.subnets _ hb).1.symm) h
  refine length_le_of_maximal (fun c hc => ?_) hdisj (fun c hc => ?_)
    (fun x hx => exists_mem_values_of_covered hcov' hx)
  · obtain ⟨p, hv, hm⟩ := hmax c hc
    exact ⟨_, _, hv, hm⟩
  · obtain ⟨p, hp⟩ := hl' c hc
    exact ⟨⟨_, _, hp.values_eq⟩, values_subset_of_covered hcov' hc⟩

/-- A decomposition into disjoint proper subnets without siblings has the same
subnets: its blocks are maximal too, and maximal blocks that meet are equal. -/
theorem perm_of_no_siblings (hsub : SubnetList r.family r.points l)
    (hpar : ParentsOutside r.lo r.hi l) {l' : List IPRange} (hl' : ∀ c ∈ l', ∃ p, c.IsSubnet p)
    (hcov' : covered l' = r.points) (hdisj' : l'.Pairwise fun a b => Disjoint a.points b.points)
    (hsib' : l'.Pairwise fun a b => ¬ Siblings a b) : (l'.map points).Perm (l.map points) := by
  have hmax := maximalIn_of_parentsOutside hsub hpar
  have hfam' : ∀ c ∈ l', c.family = r.family := fun c hc =>
    family_eq_of_covered hcov' hc (hl' c hc).choose_spec
  have : Std.Symm fun a b : IPRange => ¬ Siblings a b := ⟨fun _ _ h h' => h h'.symm⟩
  have hmax' := maximalIn_of_no_siblings (fun c hc => ⟨_, _, (hl' c hc).choose_spec.values_eq⟩)
    (fun c hc => values_subset_of_covered hcov' hc)
    (hdisj'.imp_of_mem fun ha hb h => disjoint_values_of_points ((hfam' _ ha).trans (hfam' _ hb).symm) h)
    (fun x hx => exists_mem_values_of_covered hcov' hx)
    (fun ⟨a, ha, b, hb, j, y, y', hay, hby, hne, hpar'⟩ =>
      hsib'.forall ha hb (fun hab => hne (by rw [← hay, ← hby, hab]))
        ⟨(hfam' a ha).trans (hfam' b hb).symm, j, y, y', hay, hby, hne, hpar'⟩)
  -- a block of `l'` and one of `l` that meet are the same maximal block
  have hsame : ∀ c ∈ l', ∀ d ∈ l, (c.values ∩ d.values).Nonempty → c.points = d.points := by
    intro c hc d hd ⟨x, hxc, hxd⟩
    obtain ⟨p, hp⟩ := hl' c hc
    obtain ⟨q, hdv, hdm⟩ := hmax d hd
    refine points_eq_of_values_eq ((hfam' c hc).trans (hsub.subnets d hd).1.symm) ?_
    rw [hp.values_eq, hdv]
    exact (hmax' c hc _ _ hp.values_eq).eq_of_mem hdm (hp.values_eq ▸ hxc) (hdv ▸ hxd)
  refine (List.perm_ext_iff_of_nodup (nodup_map_points hl' hdisj')
    (nodup_map_points (fun c hc => ⟨_, ((hsub.subnets c hc).2.choose_spec).2⟩) hsub.disjoint)).mpr
    fun S => ?_
  simp only [List.mem_map]
  constructor
  · rintro ⟨c, hc, rfl⟩
    obtain ⟨p, hp⟩ := hl' c hc
    have hlo : c.lo ∈ c.values := ⟨le_rfl, hp.valid.le⟩
    obtain ⟨d, hd, hxd⟩ := exists_mem_values_of_covered hsub.covered_eq
      (values_subset_of_covered hcov' hc hlo)
    exact ⟨d, hd, (hsame c hc d hd ⟨c.lo, hlo, hxd⟩).symm⟩
  · rintro ⟨d, hd, rfl⟩
    obtain ⟨p, -, hdp⟩ := (hsub.subnets d hd).2
    have hlo : d.lo ∈ d.values := ⟨le_rfl, hdp.valid.le⟩
    obtain ⟨c, hc, hxc⟩ := exists_mem_values_of_covered hcov'
      (values_subset_of_covered hsub.covered_eq hd hlo)
    exact ⟨c, hc, hsame c hc d hd ⟨d.lo, hxc, hlo⟩⟩

end Minimal

/-- **`toSubnets` returns the minimal decomposition.** For every range the public
constructors build, `toSubnets` returns, without an exception, a list sorted by
`compareTo` of disjoint proper subnets covering exactly the range, no two of which
are sibling halves of one aligned block; every cover of the range by proper subnets
is at least as long, and every decomposition into disjoint proper subnets without
siblings consists of the same subnets. -/
theorem toSubnets_minimal {r : IPRange} (hr : r.WellFormed) :
    ∃ l, r.toSubnets = .ok l ∧ l.Pairwise (fun a b => (a.compareTo b).isLE) ∧
      SubnetList r.family r.points l ∧ l.Pairwise (fun a b => ¬ Siblings a b) ∧
      (∀ l' : List IPRange, (∀ c ∈ l', ∃ p, c.IsSubnet p) → covered l' = r.points →
        l.length ≤ l'.length) ∧
      (∀ l' : List IPRange, (∀ c ∈ l', ∃ p, c.IsSubnet p) → covered l' = r.points →
        l'.Pairwise (fun a b => Disjoint a.points b.points) →
        l'.Pairwise (fun a b => ¬ Siblings a b) → (l'.map points).Perm (l.map points)) := by
  obtain ⟨l, hl, hsorted, hsub, hpar⟩ := toSubnets_spec hr
  exact ⟨l, hl, hsorted, hsub, pairwise_not_siblings hsub hpar,
    fun _ hl' hcov' => length_le_of_cover hsub hpar hl' hcov',
    fun _ hl' hcov' hdisj' hsib' => perm_of_no_siblings hsub hpar hl' hcov' hdisj' hsib'⟩

/-- `10.0.0.1-10.0.0.6`: its split `10.0.0.1/32`, `10.0.0.2/31`, `10.0.0.4/31`,
`10.0.0.6/32` has two `/31`s that are not siblings. -/
theorem toSubnets_minimal_range :
    let r := ofBytes [10, 0, 0, 1] [10, 0, 0, 6]
    r.WellFormed ∧ ∃ l, r.toSubnets = .ok l ∧ l.Pairwise (fun a b => (a.compareTo b).isLE) ∧
      SubnetList r.family r.points l ∧ l.Pairwise (fun a b => ¬ Siblings a b) ∧
      (∀ l' : List IPRange, (∀ c ∈ l', ∃ p, c.IsSubnet p) → covered l' = r.points →
        l.length ≤ l'.length) ∧
      (∀ l' : List IPRange, (∀ c ∈ l', ∃ p, c.IsSubnet p) → covered l' = r.points →
        l'.Pairwise (fun a b => Disjoint a.points b.points) →
        l'.Pairwise (fun a b => ¬ Siblings a b) → (l'.map points).Perm (l.map points)) := by
  intro r
  have hr : r.WellFormed := ofBytes_wellFormed ⟨rfl, by decide⟩ (Or.inl rfl)
  exact ⟨hr, toSubnets_minimal hr⟩

end IPRange

end VpnClient.Android
