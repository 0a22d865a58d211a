import VpnClient.Ipsec.Subset

/-!
# Narrowing traffic selectors

`get_traffic_selectors` of `libcharon/config/child_cfg.c` computes the selectors of a
CHILD_SA in three steps. It first derives one list from the configured selectors,
replacing a dynamic selector, and in transport mode without proxy mode and without
supplied selectors any selector, by copies set to the hosts (`deriveTs`). It then
intersects every derived selector with every supplied one by `get_subset`
(`selectTs`). Last it removes, with two enumerators over one linked list, every
selector that `is_contained_in` another (`removeRedundant`).

`removeRedundant` terminates, leaves a sublist no element of which is contained in
another (`removeRedundant_pairwise`), and keeps a cover of everything it removes
(`removeRedundant_cover`). Where the selectors are well formed and not dynamic, and no
port is moved into the ICMP type byte (`IcmpSafe`), the result takes exactly the
packets that a derived selector and a supplied one both take. Where a port is moved,
it does not (`getTrafficSelectors_icmp_port_moved`).

Left out: the log and the `ALERT_TS_NARROWED` alert, which do not change the result.
-/

namespace VpnClient.Config

open VpnClient.Lib VpnClient.Ipsec TrafficSelector

/-! ## Removing redundant elements -/

section Redundant

variable {α : Type*} (contained : α → α → Bool)

/-- The last loop of `get_traffic_selectors`, with `e1` at position `i` and `e2` at `j`
of the list. Where the element at `j` is contained in the one at `i`, it is removed and
`e1` starts again; where the one at `i` is contained in the one at `j`, it is removed
and `e1` goes on with the next. `e2` starts again for each element of `e1`. -/
def removeRedundant (l : List α) (i j : ℕ) : List α :=
  if hi : i < l.length then
    if hj : j < l.length then
      if i ≠ j ∧ contained l[j] l[i] = true then removeRedundant (l.eraseIdx j) 0 0
      else if i ≠ j ∧ contained l[i] l[j] = true then removeRedundant (l.eraseIdx i) i 0
      else removeRedundant l i (j + 1)
    else removeRedundant l (i + 1) 0
  else l
termination_by (l.length, l.length - i, l.length - j)
decreasing_by
  · -- a removal shortens the list
    exact Prod.Lex.left _ _ (by rw [List.length_eraseIdx_of_lt hj]; omega)
  · exact Prod.Lex.left _ _ (by rw [List.length_eraseIdx_of_lt hi]; omega)
  · -- `e2` moves on
    exact Prod.Lex.right _ (Prod.Lex.right _ (by omega))
  · -- `e1` moves on
    exact Prod.Lex.right _ (Prod.Lex.left _ _ (by omega))

/-- Neither of two elements contains the other. -/
def Apart (x y : α) : Prop := contained x y = false ∧ contained y x = false

/-- The positions the loop has compared: every one below `i` with all others, and `i`
with those below `j`. -/
def Checked (l : List α) (i j : ℕ) : Prop :=
  ∀ p q (hp : p < l.length) (hq : q < l.length), p ≠ q → p < i ∨ p = i ∧ q < j →
    Apart contained l[p] l[q]

variable {contained}

section Unfold

/-! One iteration of the loop at a time. -/

variable {l : List α} {i j : ℕ}

/-- The element at `e2` is contained in the one at `e1`: it goes, and `e1` starts again. -/
theorem removeRedundant_remove_inner (hi : i < l.length) (hj : j < l.length)
    (h : i ≠ j ∧ contained l[j] l[i] = true) :
    removeRedundant contained l i j = removeRedundant contained (l.eraseIdx j) 0 0 := by
  rw [removeRedundant, dif_pos hi, dif_pos hj, if_pos h]

/-- The element at `e1` is contained in the one at `e2`: it goes, and `e1` is at the next. -/
theorem removeRedundant_remove_outer (hi : i < l.length) (hj : j < l.length)
    (h1 : ¬(i ≠ j ∧ contained l[j] l[i] = true)) (h2 : i ≠ j ∧ contained l[i] l[j] = true) :
    removeRedundant contained l i j = removeRedundant contained (l.eraseIdx i) i 0 := by
  rw [removeRedundant, dif_pos hi, dif_pos hj, if_neg h1, if_pos h2]

theorem removeRedundant_next_inner (hi : i < l.length) (hj : j < l.length)
    (h1 : ¬(i ≠ j ∧ contained l[j] l[i] = true)) (h2 : ¬(i ≠ j ∧ contained l[i] l[j] = true)) :
    removeRedundant contained l i j = removeRedundant contained l i (j + 1) := by
  rw [removeRedundant, dif_pos hi, dif_pos hj, if_neg h1, if_neg h2]

theorem removeRedundant_next_outer (hi : i < l.length) (hj : ¬j < l.length) :
    removeRedundant contained l i j = removeRedundant contained l (i + 1) 0 := by
  rw [removeRedundant, dif_pos hi, dif_neg hj]

theorem removeRedundant_done (hi : ¬i < l.length) : removeRedundant contained l i j = l := by
  rw [removeRedundant, dif_neg hi]

end Unfold

theorem checked_zero (l : List α) : Checked contained l 0 0 := by
  intro p q _ _ _ h
  omega

theorem Checked.eraseIdx {l : List α} {i j : ℕ} (h : Checked contained l i j) :
    Checked contained (l.eraseIdx i) i 0 := by
  intro p q hp hq hpq hlt
  have hp' : p < i := by omega
  rw [List.getElem_eraseIdx_of_lt hp hp']
  by_cases hqi : q < i
  · rw [List.getElem_eraseIdx_of_lt hq hqi]
    exact h p q _ _ hpq (.inl hp')
  · rw [List.getElem_eraseIdx_of_ge hq (by omega)]
    exact h p (q + 1) _ _ (by omega) (.inl hp')

theorem Checked.next {l : List α} {i j : ℕ} (h : Checked contained l i j) (hj : j < l.length)
    (hi : i < l.length) (h1 : ¬(i ≠ j ∧ contained l[j] l[i] = true))
    (h2 : ¬(i ≠ j ∧ contained l[i] l[j] = true)) : Checked contained l i (j + 1) := by
  intro p q hp hq hpq hlt
  rcases hlt with hlt | ⟨rfl, hq'⟩
  · exact h p q hp hq hpq (.inl hlt)
  · by_cases hqj : q = j
    · subst hqj
      simp only [ne_eq, hpq, not_false_eq_true, true_and, Bool.not_eq_true] at h1 h2
      exact ⟨h2, h1⟩
    · exact h p q hp hq hpq (.inr ⟨rfl, by omega⟩)

theorem Checked.succ {l : List α} {i j : ℕ} (h : Checked contained l i j) (hj : l.length ≤ j) :
    Checked contained l (i + 1) 0 := by
  intro p q hp hq hpq hlt
  rcases Nat.lt_succ_iff_lt_or_eq.mp (hlt.resolve_right (by omega)) with hlt | rfl
  · exact h p q hp hq hpq (.inl hlt)
  · exact h p q hp hq hpq (.inr ⟨rfl, by omega⟩)

theorem Checked.pairwise {l : List α} {i j : ℕ} (h : Checked contained l i j) (hi : l.length ≤ i) :
    l.Pairwise (Apart contained) := by
  rw [List.pairwise_iff_getElem]
  intro p q hp hq hpq
  exact h p q hp hq (by omega) (.inl (by omega))

/-- **No element the loop leaves contains another.** -/
theorem removeRedundant_pairwise (l : List α) (i j : ℕ) (h : Checked contained l i j) :
    (removeRedundant contained l i j).Pairwise (Apart contained) := by
  induction l, i, j using removeRedundant.induct contained with
  | case1 l i j hi hj _ ih =>
    rw [removeRedundant_remove_inner hi hj ‹_›]
    exact ih (checked_zero _)
  | case2 l i j hi hj h1 h2 ih =>
    rw [removeRedundant_remove_outer hi hj h1 h2]
    exact ih h.eraseIdx
  | case3 l i j hi hj h1 h2 ih =>
    rw [removeRedundant_next_inner hi hj h1 h2]
    exact ih (h.next hj hi h1 h2)
  | case4 l i j hi hj ih =>
    rw [removeRedundant_next_outer hi hj]
    exact ih (h.succ (by omega))
  | case5 l i j hi =>
    rw [removeRedundant_done hi]
    exact h.pairwise (by omega)

theorem removeRedundant_sublist (l : List α) (i j : ℕ) : (removeRedundant contained l i j).Sublist l := by
  induction l, i, j using removeRedundant.induct contained with
  | case1 l i j hi hj h1 ih =>
    rw [removeRedundant_remove_inner hi hj h1]
    exact ih.trans (List.eraseIdx_sublist l j)
  | case2 l i j hi hj h1 h2 ih =>
    rw [removeRedundant_remove_outer hi hj h1 h2]
    exact ih.trans (List.eraseIdx_sublist l i)
  | case3 l i j hi hj h1 h2 ih =>
    rw [removeRedundant_next_inner hi hj h1 h2]
    exact ih
  | case4 l i j hi hj ih =>
    rw [removeRedundant_next_outer hi hj]
    exact ih
  | case5 l i j hi =>
    rw [removeRedundant_done hi]

/-- An element erased at `k` is the one at `k`, and another one stays. -/
theorem mem_eraseIdx_or {l : List α} {k : ℕ} (hk : k < l.length) {x : α} (hx : x ∈ l) :
    x ∈ l.eraseIdx k ∨ x = l[k] := by
  obtain ⟨p, hp, rfl⟩ := List.mem_iff_getElem.mp hx
  by_cases hpk : p = k
  · exact .inr (by subst hpk; rfl)
  · exact .inl (List.mem_eraseIdx_iff_getElem.mpr ⟨p, hp, hpk, rfl⟩)

/-- **What the loop removes is covered by what it leaves**, for a reflexive and transitive
`c` that holds wherever `contained` does. -/
theorem removeRedundant_cover {c : α → α → Prop} (hrefl : ∀ x, c x x)
    (htrans : ∀ x y z, c x y → c y z → c x z) (l : List α) (i j : ℕ)
    (hc : ∀ x ∈ l, ∀ y ∈ l, contained x y = true → c x y) :
    ∀ x ∈ l, ∃ y ∈ removeRedundant contained l i j, c x y := by
  induction l, i, j using removeRedundant.induct contained with
  | case1 l i j hi hj h1 ih =>
    rw [removeRedundant_remove_inner hi hj h1]
    have hsub := List.eraseIdx_sublist l j
    have ih := ih (fun x hx y hy => hc x (hsub.mem hx) y (hsub.mem hy))
    intro x hx
    rcases mem_eraseIdx_or hj hx with hx | rfl
    · exact ih x hx
    · -- the element at `j` goes, inside the one at `i`, which stays
      have hmem : l[i] ∈ l.eraseIdx j := List.mem_eraseIdx_iff_getElem.mpr ⟨i, hi, h1.1, rfl⟩
      obtain ⟨y, hy, hcy⟩ := ih _ hmem
      exact ⟨y, hy, htrans _ _ _ (hc _ (List.getElem_mem hj) _ (List.getElem_mem hi) h1.2) hcy⟩
  | case2 l i j hi hj h1 h2 ih =>
    rw [removeRedundant_remove_outer hi hj h1 h2]
    have hsub := List.eraseIdx_sublist l i
    have ih := ih (fun x hx y hy => hc x (hsub.mem hx) y (hsub.mem hy))
    intro x hx
    rcases mem_eraseIdx_or hi hx with hx | rfl
    · exact ih x hx
    · have hmem : l[j] ∈ l.eraseIdx i :=
        List.mem_eraseIdx_iff_getElem.mpr ⟨j, hj, Ne.symm h2.1, rfl⟩
      obtain ⟨y, hy, hcy⟩ := ih _ hmem
      exact ⟨y, hy, htrans _ _ _ (hc _ (List.getElem_mem hi) _ (List.getElem_mem hj) h2.2) hcy⟩
  | case3 l i j hi hj h1 h2 ih =>
    rw [removeRedundant_next_inner hi hj h1 h2]
    exact ih hc
  | case4 l i j hi hj ih =>
    rw [removeRedundant_next_outer hi hj]
    exact ih hc
  | case5 l i j hi =>
    rw [removeRedundant_done hi]
    exact fun x hx => ⟨x, hx, hrefl x⟩

/-- A list no element of which contains another is left as it is. -/
theorem removeRedundant_of_apart (l : List α) (i j : ℕ)
    (h : ∀ p q (hp : p < l.length) (hq : q < l.length), p ≠ q → contained l[p] l[q] = false) :
    removeRedundant contained l i j = l := by
  induction l, i, j using removeRedundant.induct contained with
  | case1 l i j hi hj h1 _ =>
    exact absurd h1.2 (by simp [h j i hj hi (Ne.symm h1.1)])
  | case2 l i j hi hj _ h2 _ =>
    exact absurd h2.2 (by simp [h i j hi hj h2.1])
  | case3 l i j hi hj h1 h2 ih =>
    rw [removeRedundant_next_inner hi hj h1 h2]
    exact ih h
  | case4 l i j hi hj ih =>
    rw [removeRedundant_next_outer hi hj]
    exact ih h
  | case5 l i j hi =>
    rw [removeRedundant_done hi]

end Redundant

/-! ## The configuration -/

/-- `ipsec_mode_t`. -/
inductive IpsecMode
  | modeNone
  | modeTransport
  | modeTunnel
  | modeBeet
  | modePass
  | modeDrop
  deriving DecidableEq, Repr

/-- The part of `private_child_cfg_t` that `get_traffic_selectors` reads: the local and
remote selectors, the mode, and whether the option `OPT_PROXY_MODE` is set. -/
structure ChildCfg where
  myTs : List TrafficSelector
  otherTs : List TrafficSelector
  mode : IpsecMode
  proxyMode : Bool

namespace ChildCfg

/-- Whether a configured selector is replaced by copies set to the hosts: there are
hosts, and the selector is dynamic or the CHILD_SA is in transport mode without proxy
mode and without supplied selectors. -/
def Narrowed (cfg : ChildCfg) (supplied : Option (List TrafficSelector)) (hosts : List Host)
    (ts1 : TrafficSelector) : Prop :=
  hosts ≠ [] ∧ (ts1.dynamic = true ∨ cfg.mode = .modeTransport ∧ cfg.proxyMode = false ∧ supplied = none)

instance (cfg : ChildCfg) (supplied : Option (List TrafficSelector)) (hosts : List Host)
    (ts1 : TrafficSelector) : Decidable (cfg.Narrowed supplied hosts ts1) :=
  inferInstanceAs (Decidable (_ ∧ _))

/-- The first step for one configured selector. A dynamic selector gets a copy set to
each host. A narrowed selector that is not dynamic gets one for each host it includes,
set to it, and an unchanged one for each any-address. -/
def deriveOne (cfg : ChildCfg) (supplied : Option (List TrafficSelector)) (hosts : List Host)
    (ts1 : TrafficSelector) : List TrafficSelector :=
  if cfg.Narrowed supplied hosts ts1 then
    hosts.filterMap fun host =>
      -- in transport mode, a selector that does not match a specific address is skipped
      if !ts1.dynamic && !host.isAnyaddr && !ts1.includes host then none
      -- and a regular selector is not made larger than it was
      else some (if ts1.dynamic || !host.isAnyaddr then ts1.clone.setAddress host else ts1.clone)
  else [ts1.clone]

/-- The selectors of one side, as the first step derives them. -/
def deriveTs (cfg : ChildCfg) (isLocal : Bool) (supplied : Option (List TrafficSelector))
    (hosts : List Host) : List TrafficSelector :=
  (if isLocal then cfg.myTs else cfg.otherTs).flatMap (cfg.deriveOne supplied hosts)

end ChildCfg

/-- The second step: without supplied selectors the derived ones, and otherwise the
subset of each derived selector with each supplied one, where there is one. -/
def selectTs (derived : List TrafficSelector) : Option (List TrafficSelector) → List TrafficSelector
  | none => derived
  | some supplied => derived.flatMap fun ts1 => supplied.filterMap ts1.getSubset

/-- `get_traffic_selectors`. A list that is `NULL` is `none` for the supplied selectors
and empty for the hosts, which are only read when there are some. -/
def ChildCfg.getTrafficSelectors (cfg : ChildCfg) (isLocal : Bool)
    (supplied : Option (List TrafficSelector)) (hosts : List Host) : List TrafficSelector :=
  removeRedundant isContainedIn (selectTs (cfg.deriveTs isLocal supplied hosts) supplied) 0 0

/-! ## The derived selectors -/

namespace ChildCfg

variable {cfg : ChildCfg} {supplied : Option (List TrafficSelector)} {hosts : List Host}

/-- **The first step, for one configured selector**: a narrowed one gives, for each host
that is the any-address, that it includes, or that it is set to as a dynamic selector,
the clone set to the host, or the clone itself for the any-address where it is not
dynamic; any other gives its clone. -/
theorem mem_deriveOne {ts1 x : TrafficSelector} :
    x ∈ cfg.deriveOne supplied hosts ts1 ↔
      if cfg.Narrowed supplied hosts ts1 then
        ∃ host ∈ hosts, (ts1.dynamic = true ∨ host.isAnyaddr = true ∨ ts1.includes host = true) ∧
          x = if ts1.dynamic = true ∨ host.isAnyaddr = false then ts1.clone.setAddress host else ts1.clone
      else x = ts1.clone := by
  unfold deriveOne
  split_ifs with hn
  · simp only [List.mem_filterMap]
    refine exists_congr fun host => and_congr_right fun _ => ?_
    cases hd : ts1.dynamic <;> cases ha : host.isAnyaddr <;> cases hi : ts1.includes host <;>
      simp [eq_comm]
  · simp

/-- The derived selectors are well formed where the configured ones and the hosts are. -/
theorem wellFormed_deriveTs {isLocal : Bool}
    (hcfg : ∀ ts ∈ (if isLocal then cfg.myTs else cfg.otherTs), WellFormed ts)
    (hhosts : ∀ host ∈ hosts, host.WellFormed) : ∀ x ∈ cfg.deriveTs isLocal supplied hosts, WellFormed x := by
  intro x hx
  obtain ⟨ts1, hts1, hx⟩ := List.mem_flatMap.mp hx
  have hw := (hcfg ts1 hts1).clone
  rw [mem_deriveOne] at hx
  split_ifs at hx
  · obtain ⟨host, hhost, -, rfl⟩ := hx
    split_ifs
    exacts [hw.setAddress (hhosts host hhost), hw]
  · exact hx ▸ hw

/-- No derived selector is dynamic where there are hosts, or no configured selector is
dynamic. -/
theorem dynamic_deriveTs {isLocal : Bool}
    (h : hosts ≠ [] ∨ ∀ ts ∈ (if isLocal then cfg.myTs else cfg.otherTs), ts.dynamic = false) :
    ∀ x ∈ cfg.deriveTs isLocal supplied hosts, x.dynamic = false := by
  intro x hx
  obtain ⟨ts1, hts1, hx⟩ := List.mem_flatMap.mp hx
  rw [mem_deriveOne] at hx
  split_ifs at hx with hn
  · obtain ⟨host, -, -, rfl⟩ := hx
    split_ifs with hd
    · exact setAddress_dynamic _ _
    · -- an unchanged clone is of a selector that is not dynamic
      simpa using (not_or.mp hd).1
  · -- a selector left as it is: there are no hosts, or it is not dynamic
    subst hx
    rw [clone_dynamic]
    rcases h with h | h
    · simp only [Narrowed, ne_eq, h, not_false_eq_true, true_and, not_or] at hn
      simpa using hn.1
    · exact h ts1 hts1

end ChildCfg

theorem mem_selectTs_some {derived supplied : List TrafficSelector} {x : TrafficSelector} :
    x ∈ selectTs derived (some supplied) ↔ ∃ d ∈ derived, ∃ t ∈ supplied, d.getSubset t = some x := by
  simp [selectTs]

/-! ## Ports moved into the ICMP type byte -/

/-- The larger of two protocols is one of them. -/
theorem max_protocol_eq (p q : UInt8) : max p q = p ∨ max p q = q := by
  have h := UInt8.toNat_max p q
  by_cases hle : p.toNat ≤ q.toNat
  · exact .inr (UInt8.toNat_inj.mp (by omega))
  · exact .inl (UInt8.toNat_inj.mp (by omega))

theorem eq_zero_of_max_eq_zero {p q : UInt8} (h : max p q = 0) : p = 0 ∧ q = 0 := by
  have hm := UInt8.toNat_max p q
  rw [h, UInt8.toNat_zero] at hm
  exact ⟨UInt8.toNat_inj.mp (by simp; omega), UInt8.toNat_inj.mp (by simp; omega)⟩

theorem ne_zero_of_isIcmp {p : UInt8} (h : IsIcmp p) : p ≠ 0 := by
  rcases h with rfl | rfl <;> decide

/-- No port of the list is moved into the ICMP type byte: where one selector has an
ICMP protocol, those of protocol `0` hold ports `traffic_selector_create` leaves as they
are. -/
def IcmpSafe (l : List TrafficSelector) : Prop :=
  ∀ x ∈ l, IsIcmp x.protocol → ∀ y ∈ l, y.protocol = 0 → PortsKept y

instance (l : List TrafficSelector) : Decidable (IcmpSafe l) :=
  inferInstanceAs (Decidable (∀ x ∈ l, IsIcmp x.protocol → ∀ y ∈ l, y.protocol = 0 → PortsKept y))

namespace IcmpSafe

variable {l : List TrafficSelector} {a b : TrafficSelector}

/-- A selector whose protocol agrees with an ICMP one, or is `0`, keeps its ports. -/
theorem portsKept_of_icmp (hl : IcmpSafe l) (ha : a ∈ l) (hb : b ∈ l) (hwb : WellFormed b)
    (hicmp : IsIcmp a.protocol) (hconf : ¬(a.protocol ≠ b.protocol ∧ a.protocol ≠ 0 ∧ b.protocol ≠ 0)) :
    PortsKept b := by
  by_cases hb0 : b.protocol = 0
  · exact hl a ha hicmp b hb hb0
  · -- otherwise the protocols agree, and `b` is an ICMP selector itself
    have heq : a.protocol = b.protocol := by
      by_contra hne
      exact hconf ⟨hne, ne_zero_of_isIcmp hicmp, hb0⟩
    exact hwb.icmpPorts (heq ▸ hicmp)

/-- Where `get_subset` of two of its selectors passes the protocol check, neither has a
port the constructor moves for the subset's protocol. -/
theorem portsKept (hl : IcmpSafe l) (ha : a ∈ l) (hb : b ∈ l) (hwa : WellFormed a) (hwb : WellFormed b)
    (hconf : ¬(a.protocol ≠ b.protocol ∧ a.protocol ≠ 0 ∧ b.protocol ≠ 0)) :
    IsIcmp (max a.protocol b.protocol) → PortsKept a ∧ PortsKept b := by
  intro hicmp
  have hconf' : ¬(b.protocol ≠ a.protocol ∧ b.protocol ≠ 0 ∧ a.protocol ≠ 0) := by
    rintro ⟨hne, hb0, ha0⟩
    exact hconf ⟨Ne.symm hne, ha0, hb0⟩
  rcases max_protocol_eq a.protocol b.protocol with hm | hm <;> rw [hm] at hicmp
  · exact ⟨hwa.icmpPorts hicmp, hl.portsKept_of_icmp ha hb hwb hicmp hconf⟩
  · exact ⟨hl.portsKept_of_icmp hb ha hwa hicmp hconf', hwb.icmpPorts hicmp⟩

/-- **`is_contained_in` is inclusion** between selectors of such a list. -/
theorem selects_of_isContainedIn (hl : IcmpSafe l) (ha : a ∈ l) (hb : b ∈ l) (hwa : WellFormed a)
    (hwb : WellFormed b) (h : a.isContainedIn b = true) (u : Tuple) (hu : Selects a u) : Selects b u := by
  obtain ⟨s, hs⟩ : ∃ s, getSubset a b = some s := by
    unfold isContainedIn at h
    split at h
    · exact ⟨_, ‹_›⟩
    · cases h
  obtain ⟨hda, hdb, -, hconf, -⟩ := getSubset_eq_some hs
  exact (isContainedIn_iff hwa hwb hda hdb ⟨u, hu⟩ (hl.portsKept ha hb hwa hwb hconf)).mp h u hu

end IcmpSafe

/-- A well-formed selector that takes a tuple is contained in itself. -/
theorem isContainedIn_self {x : TrafficSelector} (hw : WellFormed x) (hd : x.dynamic = false)
    (hne : ∃ u, Selects x u) : x.isContainedIn x = true := by
  unfold isContainedIn
  rw [getSubset_self hw hd hne]
  simp [equals, trafficSelectorCmp]

/-! ## The subsets -/

section Subsets

variable {D T : List TrafficSelector}

/-- A subset of a derived and a supplied selector takes exactly what both take. -/
theorem selects_of_mem_selectTs (hsafe : IcmpSafe (D ++ T)) {d t s : TrafficSelector} (hd : d ∈ D)
    (ht : t ∈ T) (hwd : WellFormed d) (hwt : WellFormed t) (hs : d.getSubset t = some s) (u : Tuple) :
    Selects s u ↔ Selects d u ∧ Selects t u :=
  selects_getSubset hwd hwt hs
    (hsafe.portsKept (List.mem_append_left T hd) (List.mem_append_right D ht) hwd hwt (getSubset_eq_some hs).2.2.2.1) u

/-- The subsets keep ports that are not moved. -/
theorem icmpSafe_selectTs (hsafe : IcmpSafe (D ++ T)) : IcmpSafe (selectTs D (some T)) := by
  intro x hx hicmp y hy hy0
  obtain ⟨d1, hd1, t1, ht1, hx⟩ := mem_selectTs_some.mp hx
  obtain ⟨d2, hd2, t2, ht2, hy⟩ := mem_selectTs_some.mp hy
  -- the ICMP protocol of `x` is that of `d1` or of `t1`
  obtain ⟨z, hz, hzicmp⟩ : ∃ z ∈ D ++ T, IsIcmp z.protocol := by
    rw [getSubset_protocol hx] at hicmp
    rcases max_protocol_eq d1.protocol t1.protocol with hm | hm <;> rw [hm] at hicmp
    exacts [⟨d1, List.mem_append_left T hd1, hicmp⟩, ⟨t1, List.mem_append_right D ht1, hicmp⟩]
  -- `y`, of protocol `0`, is the subset of two selectors of protocol `0`
  rw [getSubset_protocol hy] at hy0
  obtain ⟨hd0, ht0⟩ := eq_zero_of_max_eq_zero hy0
  exact getSubset_portsKept hy (hsafe z hz hzicmp d2 (List.mem_append_left T hd2) hd0)
    (hsafe z hz hzicmp t2 (List.mem_append_right D ht2) ht0)

/-- The subsets are well formed, not dynamic, and take a tuple. -/
theorem selectTs_some_facts (hD : ∀ d ∈ D, WellFormed d ∧ d.dynamic = false)
    (hT : ∀ t ∈ T, WellFormed t ∧ t.dynamic = false) (hsafe : IcmpSafe (D ++ T)) :
    ∀ x ∈ selectTs D (some T), WellFormed x ∧ x.dynamic = false ∧ ∃ u, Selects x u := by
  intro x hx
  obtain ⟨d, hd, t, ht, hs⟩ := mem_selectTs_some.mp hx
  obtain ⟨-, -, htype, hconf, hcheck, haddr, -⟩ := getSubset_eq_some hs
  obtain ⟨u, hu⟩ := common_of_checks (hD d hd).1 (hT t ht).1 htype hconf hcheck haddr
  exact ⟨(hD d hd).1.getSubset (hT t ht).1 hs, getSubset_dynamic hs,
    u, (selects_of_mem_selectTs hsafe hd ht (hD d hd).1 (hT t ht).1 hs u).mpr hu⟩

/-- **The subsets take what a derived and a supplied selector both take.** -/
theorem exists_selects_selectTs (hD : ∀ d ∈ D, WellFormed d ∧ d.dynamic = false)
    (hT : ∀ t ∈ T, WellFormed t ∧ t.dynamic = false) (hsafe : IcmpSafe (D ++ T)) (u : Tuple) :
    (∃ x ∈ selectTs D (some T), Selects x u) ↔ ∃ d ∈ D, ∃ t ∈ T, Selects d u ∧ Selects t u := by
  constructor
  · rintro ⟨x, hx, hu⟩
    obtain ⟨d, hd, t, ht, hs⟩ := mem_selectTs_some.mp hx
    exact ⟨d, hd, t, ht, (selects_of_mem_selectTs hsafe hd ht (hD d hd).1 (hT t ht).1 hs u).mp hu⟩
  · rintro ⟨d, hd, t, ht, hdu, htu⟩
    -- a common tuple makes `get_subset` return a selector, which takes it
    cases hs : d.getSubset t with
    | none =>
      exact absurd ⟨hdu, htu⟩ ((getSubset_eq_none_iff (hD d hd).1 (hT t ht).1 (hD d hd).2 (hT t ht).2).mp hs u)
    | some s =>
      exact ⟨s, mem_selectTs_some.mpr ⟨d, hd, t, ht, hs⟩,
        (selects_of_mem_selectTs hsafe hd ht (hD d hd).1 (hT t ht).1 hs u).mpr ⟨hdu, htu⟩⟩

end Subsets

/-! ## The result -/

/-- **The last loop keeps what the list takes**, where `is_contained_in` is inclusion on
it. -/
theorem exists_selects_removeRedundant {S : List TrafficSelector} (hS : ∀ x ∈ S, WellFormed x)
    (hsafe : IcmpSafe S) (u : Tuple) :
    (∃ r ∈ removeRedundant isContainedIn S 0 0, Selects r u) ↔ ∃ x ∈ S, Selects x u := by
  constructor
  · rintro ⟨r, hr, hu⟩
    exact ⟨r, (removeRedundant_sublist S 0 0).subset hr, hu⟩
  · rintro ⟨x, hx, hu⟩
    -- inclusion of the taken tuples covers every removal
    obtain ⟨r, hr, hxr⟩ := removeRedundant_cover (c := fun x y => ∀ u, Selects x u → Selects y u)
      (fun _ _ h => h) (fun _ _ _ h1 h2 u hu => h2 u (h1 u hu)) S 0 0
      (fun a ha b hb h => hsafe.selects_of_isContainedIn ha hb (hS a ha) (hS b hb) h) x hx
    exact ⟨r, hr, hxr u hu⟩

/-- The last loop leaves no selector twice where each is contained in itself. -/
theorem nodup_removeRedundant {S : List TrafficSelector} (hS : ∀ x ∈ S, x.isContainedIn x = true) :
    (removeRedundant isContainedIn S 0 0).Nodup := by
  refine (removeRedundant_pairwise S 0 0 (checked_zero S)).imp_of_mem ?_
  rintro x y hx - ⟨hxy, -⟩ rfl
  have := hS x ((removeRedundant_sublist S 0 0).subset hx)
  simp [this] at hxy

theorem getTrafficSelectors_narrowing (cfg : ChildCfg) (isLocal : Bool)
    (supplied : Option (List TrafficSelector)) (hosts : List Host) :
    let D := cfg.deriveTs isLocal supplied hosts
    let R := cfg.getTrafficSelectors isLocal supplied hosts
    (∀ x, x ∈ D ↔ ∃ ts1 ∈ (if isLocal then cfg.myTs else cfg.otherTs),
      if cfg.Narrowed supplied hosts ts1 then
        ∃ host ∈ hosts, (ts1.dynamic = true ∨ host.isAnyaddr = true ∨ ts1.includes host = true) ∧
          x = if ts1.dynamic = true ∨ host.isAnyaddr = false then ts1.clone.setAddress host else ts1.clone
      else x = ts1.clone) ∧
    (∀ r ∈ R, match supplied with
      | none => r ∈ D
      | some T => ∃ d ∈ D, ∃ t ∈ T, d.getSubset t = some r) ∧
    R.Pairwise (fun x y => x.isContainedIn y = false ∧ y.isContainedIn x = false) ∧
    ((∀ d ∈ D, WellFormed d ∧ d.dynamic = false) →
      (∀ t ∈ supplied.getD [], WellFormed t ∧ t.dynamic = false) → IcmpSafe (D ++ supplied.getD []) →
      (∀ u, (∃ r ∈ R, Selects r u) ↔ match supplied with
        | none => ∃ d ∈ D, Selects d u
        | some T => ∃ d ∈ D, ∃ t ∈ T, Selects d u ∧ Selects t u) ∧
      ((supplied = none → ∀ d ∈ D, ∃ u, Selects d u) → R.Nodup)) := by
  intro D R
  have hsub : R.Sublist (selectTs D supplied) := removeRedundant_sublist _ 0 0
  refine ⟨fun x => ?_, fun r hr => ?_, removeRedundant_pairwise _ 0 0 (checked_zero _),
    fun hD hT hsafe => ?_⟩
  · simp only [D, ChildCfg.deriveTs, List.mem_flatMap, ChildCfg.mem_deriveOne]
  · -- what the loop leaves is from the list it was given
    have hS := hsub.subset hr
    cases supplied with
    | none => exact hS
    | some T => exact mem_selectTs_some.mp hS
  · cases supplied with
    | none =>
      -- the list is the derived one
      have hsafe' : IcmpSafe D := by simpa using hsafe
      exact ⟨exists_selects_removeRedundant (fun x hx => (hD x hx).1) hsafe',
        fun hne => nodup_removeRedundant fun x hx => isContainedIn_self (hD x hx).1 (hD x hx).2 (hne rfl x hx)⟩
    | some T =>
      -- the list is that of the subsets
      have hfacts := selectTs_some_facts hD hT hsafe
      exact ⟨fun u => (exists_selects_removeRedundant (fun x hx => (hfacts x hx).1) (icmpSafe_selectTs hsafe) u).trans
          (exists_selects_selectTs hD hT hsafe u),
        fun _ => nodup_removeRedundant fun x hx =>
          isContainedIn_self (hfacts x hx).1 (hfacts x hx).2.1 (hfacts x hx).2.2⟩

/-- Every IPv4 address, any protocol and port. -/
def anyIpv4Ts : TrafficSelector := createFromSubnet ⟨.inet, [0, 0, 0, 0], 0⟩ 0 0 0 0xffff

/-- A tunnel for TCP from `10.0.0.0/8`. -/
def tcpCfg : ChildCfg := ⟨[createFromSubnet ⟨.inet, [10, 0, 0, 0], 0⟩ 8 6 0 0xffff], [], .modeTunnel, false⟩

theorem getTrafficSelectors_narrowing_tcp :
    (∀ u, (∃ r ∈ tcpCfg.getTrafficSelectors true (some [anyIpv4Ts]) [], Selects r u) ↔
      ∃ d ∈ tcpCfg.deriveTs true (some [anyIpv4Ts]) [], ∃ t ∈ [anyIpv4Ts], Selects d u ∧ Selects t u) := by
  have hw : ∀ ts ∈ (if true then tcpCfg.myTs else tcpCfg.otherTs), WellFormed ts := by
    simpa [tcpCfg] using wellFormed_createFromSubnet
      (show Host.WellFormed ⟨.inet, [10, 0, 0, 0], 0⟩ from rfl) 8 6 0 0xffff
  have hD : ∀ d ∈ tcpCfg.deriveTs true (some [anyIpv4Ts]) [], WellFormed d ∧ d.dynamic = false :=
    fun d hd => ⟨ChildCfg.wellFormed_deriveTs hw (by simp) d hd,
      ChildCfg.dynamic_deriveTs (.inr (by decide)) d hd⟩
  have hT : ∀ t ∈ [anyIpv4Ts], WellFormed t ∧ t.dynamic = false := by
    simpa [anyIpv4Ts] using ⟨wellFormed_createFromSubnet
      (show Host.WellFormed ⟨.inet, [0, 0, 0, 0], 0⟩ from rfl) 0 0 0 0xffff, by decide⟩
  have hsafe : IcmpSafe (tcpCfg.deriveTs true (some [anyIpv4Ts]) [] ++ [anyIpv4Ts]) := by
    decide
  exact ((getTrafficSelectors_narrowing tcpCfg true (some [anyIpv4Ts]) []).2.2.2 hD hT hsafe).1

/-- A selector of any protocol, port `5`, `10.0.0.0/8`. -/
def port5Ts : TrafficSelector := createFromSubnet ⟨.inet, [10, 0, 0, 0], 0⟩ 8 0 5 5

/-- ICMP, every IPv4 address. -/
def icmpAnyTs : TrafficSelector := createFromSubnet ⟨.inet, [0, 0, 0, 0], 0⟩ 0 ipprotoIcmp 0 0xffff

/-- A tunnel for `port5Ts`. -/
def port5Cfg : ChildCfg := ⟨[port5Ts], [], .modeTunnel, false⟩

/-- **A port moved into the ICMP type byte**: narrowing `port5Ts` by `icmpAnyTs` gives ICMP
`10.0.0.0/8` with ports `1280-1280`, which does not take ICMP packets of port `5` from
`10.0.0.1`, though both selectors do. -/
theorem getTrafficSelectors_icmp_port_moved :
    port5Cfg.getTrafficSelectors true (some [icmpAnyTs]) [] =
        [⟨.ipv4AddrRange, ipprotoIcmp, false, 8, [10, 0, 0, 0], [10, 255, 255, 255], 1280, 1280⟩] ∧
      Selects port5Ts ⟨.ipv4AddrRange, ipprotoIcmp, some 5, Bytes.value [10, 0, 0, 1]⟩ ∧
      Selects icmpAnyTs ⟨.ipv4AddrRange, ipprotoIcmp, some 5, Bytes.value [10, 0, 0, 1]⟩ ∧
      ¬ Selects ⟨.ipv4AddrRange, ipprotoIcmp, false, 8, [10, 0, 0, 0], [10, 255, 255, 255], 1280, 1280⟩
        ⟨.ipv4AddrRange, ipprotoIcmp, some 5, Bytes.value [10, 0, 0, 1]⟩ := by
  refine ⟨?_, by decide, by decide, by decide⟩
  have hsel : selectTs (port5Cfg.deriveTs true (some [icmpAnyTs]) []) (some [icmpAnyTs]) =
      [⟨.ipv4AddrRange, ipprotoIcmp, false, 8, [10, 0, 0, 0], [10, 255, 255, 255], 1280, 1280⟩] := by
    decide
  rw [ChildCfg.getTrafficSelectors, hsel]
  -- a single selector is left as it is
  exact removeRedundant_of_apart _ 0 0 fun p q hp hq hpq => absurd (by simp at hp hq; omega) hpq

/-- Two equal dynamic selectors of a tunnel. -/
def dynamicCfg : ChildCfg := ⟨[createDynamic 0 0 0xffff, createDynamic 0 0 0xffff], [], .modeTunnel, false⟩

end VpnClient.Config
