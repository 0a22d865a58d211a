import Mathlib.Order.Interval.Set.Basic
import VpnClient.Ipsec.Netbits

/-!
# What `get_subset` selects

A traffic selector selects tuples of a packet: the address type, the protocol, a
port, and an address. A selector of protocol `0` takes every protocol; its ports are
the numbers from `from_port` to `to_port`, and the port of a packet whose ports are
not known (a fragment) is taken only by the OPAQUE pair `65535-0` and by ANY,
`0-65535`; its addresses run from `from` to `to`.

On well-formed selectors `get_subset` is the intersection of these sets as far as it
decides between none and a selector: it returns none exactly when no tuple is taken
by both (`getSubset_eq_none_iff`), and it does not depend on the order of its
arguments (`getSubset_comm`). The selector it returns takes exactly the common tuples
(`selects_getSubset`) unless `traffic_selector_create`, which builds it, moves a port
below `256` of an ICMP subset into the high byte: a bound that came from a selector
of protocol `0` is then read as an ICMP type (`getSubset_icmp_moves_port`). Where no
port is moved, a selector is its own subset (`getSubset_self`) and `is_contained_in`
is the inclusion of the selected sets (`isContainedIn_iff`).
-/

namespace VpnClient.Ipsec.TrafficSelector

open VpnClient.Lib Bytes

/-! ## 1. Selected tuples -/

/-- A tuple of a packet as selectors see it: the address type, the protocol, the port
(`none` where the ports are not known), and the address as a number. -/
structure Tuple where
  type : TsType
  protocol : UInt8
  port : Option UInt16
  address : ℕ
  deriving DecidableEq, Repr

/-- The ports a port range takes: the numbers in it, and the unknown port where the
range is OPAQUE or ANY. -/
def PortSelects (fromPort toPort : UInt16) : Option UInt16 → Prop
  | none => (fromPort = 0xffff ∧ toPort = 0) ∨ (fromPort = 0 ∧ toPort = 0xffff)
  | some port => fromPort ≤ port ∧ port ≤ toPort

instance (fromPort toPort : UInt16) : ∀ port, Decidable (PortSelects fromPort toPort port)
  | none => inferInstanceAs (Decidable (_ ∨ _))
  | some _ => inferInstanceAs (Decidable (_ ∧ _))

/-- The tuples a selector takes: its type, its protocol unless it is `0`, its ports,
and the addresses from `from` to `to`. -/
def Selects (ts : TrafficSelector) (t : Tuple) : Prop :=
  t.type = ts.type ∧ (ts.protocol = 0 ∨ ts.protocol = t.protocol) ∧
    PortSelects ts.fromPort ts.toPort t.port ∧ value ts.fromAddr ≤ t.address ∧
    t.address ≤ value ts.toAddr

instance (ts : TrafficSelector) (t : Tuple) : Decidable (Selects ts t) :=
  inferInstanceAs (Decidable (_ ∧ _ ∧ _ ∧ _ ∧ _))

/-! ## 2. The intersection, part by part -/

/-- Two protocols take a protocol together when they do not conflict and the one that
is not zero takes it. -/
theorem protocol_inter (a b q : UInt8) :
    ((a = 0 ∨ a = q) ∧ (b = 0 ∨ b = q)) ↔
      ¬ (a ≠ b ∧ a ≠ 0 ∧ b ≠ 0) ∧ (max a b = 0 ∨ max a b = q) := by
  simp only [ne_eq, ← UInt8.toNat_inj, UInt8.toNat_max, UInt8.toNat_zero]
  omega

/-- Two port ranges take a port together when `get_subset`'s port check passes and
the ports it computes take it. -/
theorem portSelects_inter (a b : TrafficSelector) (port : Option UInt16) :
    (PortSelects a.fromPort a.toPort port ∧ PortSelects b.fromPort b.toPort port) ↔
      ¬ (opaqueSubset a b = false ∧ (subsetPorts a b).1 > (subsetPorts a b).2) ∧
        PortSelects (subsetPorts a b).1 (subsetPorts a b).2 port := by
  have ha := a.fromPort.toNat_lt
  have ha' := a.toPort.toNat_lt
  have hb := b.fromPort.toNat_lt
  have hb' := b.toPort.toNat_lt
  unfold subsetPorts
  -- the OPAQUE pair, and the widest common range; each with the unknown port and a
  -- known one
  split_ifs with hop <;> cases port <;>
    simp only [PortSelects, opaqueSubset, isOpaque, isAny, ← UInt16.toNat_inj,
      UInt16.lt_iff_toNat_lt, UInt16.le_iff_toNat_le, UInt16.toNat_max, UInt16.toNat_min,
      UInt16.reduceToNat, Bool.or_eq_true, Bool.and_eq_true, decide_eq_true_eq,
      Bool.or_eq_false_iff, Bool.and_eq_false_iff, decide_eq_false_iff_not, gt_iff_lt,
      and_self, and_true, true_or] at hop ⊢ <;>
    omega

/-- At equal lengths `get_subset` takes the higher `from`. -/
theorem value_higherAddr {a b : List UInt8} (h : a.length = b.length) :
    value (higherAddr a b) = max (value a) (value b) := by
  unfold higherAddr
  rw [memcmp_eq_compare h]
  split
  · rename_i hc
    rw [compare_gt_iff_gt] at hc
    exact (max_eq_left hc.le).symm
  · rename_i hc
    rw [compare_gt_iff_gt, not_lt] at hc
    exact (max_eq_right hc).symm

/-- At equal lengths `get_subset` takes the lower `to`. -/
theorem value_lowerAddr {a b : List UInt8} (h : a.length = b.length) :
    value (lowerAddr a b) = min (value a) (value b) := by
  unfold lowerAddr
  rw [memcmp_eq_compare h]
  split
  · rename_i hc
    rw [compare_gt_iff_gt] at hc
    exact (min_eq_right hc.le).symm
  · rename_i hc
    rw [compare_gt_iff_gt, not_lt] at hc
    exact (min_eq_left hc).symm

/-- A tuple both take, part by part: the types agree, the protocols do not conflict
and the one that is not zero takes it, the port check passes and the computed ports
take it, and the address lies between the higher `from` and the lower `to`. -/
theorem selects_inter_iff {a b : TrafficSelector} (hf : a.fromAddr.length = b.fromAddr.length)
    (ht : a.toAddr.length = b.toAddr.length) (t : Tuple) :
    (Selects a t ∧ Selects b t) ↔
      a.type = b.type ∧ ¬ (a.protocol ≠ b.protocol ∧ a.protocol ≠ 0 ∧ b.protocol ≠ 0) ∧
        ¬ (opaqueSubset a b = false ∧ (subsetPorts a b).1 > (subsetPorts a b).2) ∧
        t.type = a.type ∧ (max a.protocol b.protocol = 0 ∨ max a.protocol b.protocol = t.protocol) ∧
        PortSelects (subsetPorts a b).1 (subsetPorts a b).2 t.port ∧
        value (higherAddr a.fromAddr b.fromAddr) ≤ t.address ∧
        t.address ≤ value (lowerAddr a.toAddr b.toAddr) := by
  have hp := protocol_inter a.protocol b.protocol t.protocol
  have hq := portSelects_inter a b t.port
  rw [value_higherAddr hf, value_lowerAddr ht, max_le_iff, le_min_iff]
  constructor
  · rintro ⟨⟨hta, hpa, hporta, hfa, hua⟩, htb, hpb, hportb, hfb, hub⟩
    obtain ⟨hconf, hmax⟩ := hp.mp ⟨hpa, hpb⟩
    obtain ⟨hcheck, hports⟩ := hq.mp ⟨hporta, hportb⟩
    exact ⟨hta ▸ htb, hconf, hcheck, hta, hmax, hports, ⟨hfa, hfb⟩, hua, hub⟩
  · rintro ⟨htype, hconf, hcheck, hta, hmax, hports, ⟨hfa, hfb⟩, hua, hub⟩
    obtain ⟨hpa, hpb⟩ := hp.mpr ⟨hconf, hmax⟩
    obtain ⟨hporta, hportb⟩ := hq.mpr ⟨hcheck, hports⟩
    exact ⟨⟨hta, hpa, hporta, hfa, hua⟩, hta.trans htype, hpb, hportb, hfb, hub⟩

/-! ## 3. When `get_subset` answers none -/

section Checks

variable {a b : TrafficSelector}

/-- Both selectors of one type hold addresses of one length. -/
theorem WellFormed.length_eq (ha : WellFormed a) (hb : WellFormed b) (htype : a.type = b.type) :
    a.fromAddr.length = b.fromAddr.length ∧ a.toAddr.length = b.toAddr.length := by
  rw [ha.length_from, ha.length_to, hb.length_from, hb.length_to, htype]
  exact ⟨rfl, rfl⟩

/-- The subset's addresses are ordered exactly when its `from` is not above its `to`. -/
theorem memcmp_higher_lower (ha : WellFormed a) (hb : WellFormed b) (htype : a.type = b.type) :
    memcmp (higherAddr a.fromAddr b.fromAddr) (lowerAddr a.toAddr b.toAddr) ≠ .gt ↔
      value (higherAddr a.fromAddr b.fromAddr) ≤ value (lowerAddr a.toAddr b.toAddr) := by
  have hlen : (higherAddr a.fromAddr b.fromAddr).length = (lowerAddr a.toAddr b.toAddr).length := by
    rw [length_higherAddr ha.length_from (htype ▸ hb.length_from),
      length_lowerAddr ha.length_to (htype ▸ hb.length_to)]
  rw [memcmp_eq_compare hlen, ne_eq, compare_gt_iff_gt, not_lt]

/-- A tuple both take passes every check of `get_subset`. -/
theorem checks_of_common (ha : WellFormed a) (hb : WellFormed b) {t : Tuple}
    (h : Selects a t ∧ Selects b t) :
    a.type = b.type ∧ ¬ (a.protocol ≠ b.protocol ∧ a.protocol ≠ 0 ∧ b.protocol ≠ 0) ∧
      ¬ (opaqueSubset a b = false ∧ (subsetPorts a b).1 > (subsetPorts a b).2) ∧
      memcmp (higherAddr a.fromAddr b.fromAddr) (lowerAddr a.toAddr b.toAddr) ≠ .gt := by
  have htype : a.type = b.type := h.1.1.symm.trans h.2.1
  obtain ⟨hf, ht⟩ := ha.length_eq hb htype
  obtain ⟨-, hconf, hcheck, -, -, -, hfrom, hto⟩ := (selects_inter_iff hf ht t).mp h
  exact ⟨htype, hconf, hcheck, (memcmp_higher_lower ha hb htype).mpr (hfrom.trans hto)⟩

/-- Where the checks of `get_subset` pass, both selectors take the subset's lowest
address with its first port, or with the unknown port where the subset is OPAQUE. -/
theorem common_of_checks (ha : WellFormed a) (hb : WellFormed b) (htype : a.type = b.type)
    (hconf : ¬ (a.protocol ≠ b.protocol ∧ a.protocol ≠ 0 ∧ b.protocol ≠ 0))
    (hcheck : ¬ (opaqueSubset a b = false ∧ (subsetPorts a b).1 > (subsetPorts a b).2))
    (haddr : memcmp (higherAddr a.fromAddr b.fromAddr) (lowerAddr a.toAddr b.toAddr) ≠ .gt) :
    ∃ t, Selects a t ∧ Selects b t := by
  obtain ⟨hf, ht⟩ := ha.length_eq hb htype
  let port : Option UInt16 := if opaqueSubset a b then none else some (subsetPorts a b).1
  have hport : PortSelects (subsetPorts a b).1 (subsetPorts a b).2 port := by
    by_cases hop : opaqueSubset a b = true
    · simp only [port, subsetPorts, hop, if_true]
      exact Or.inl ⟨rfl, rfl⟩
    · have hle : (subsetPorts a b).1 ≤ (subsetPorts a b).2 := by
        rw [Bool.not_eq_true] at hop
        simpa [hop] using hcheck
      simp only [port, hop, Bool.false_eq_true, if_false]
      exact ⟨UInt16.le_refl _, hle⟩
  refine ⟨⟨a.type, max a.protocol b.protocol, port, value (higherAddr a.fromAddr b.fromAddr)⟩,
    (selects_inter_iff hf ht _).mpr ⟨htype, hconf, hcheck, rfl, Or.inr rfl, hport, le_rfl, ?_⟩⟩
  exact (memcmp_higher_lower ha hb htype).mp haddr

/-- `get_subset` builds its selector wherever its checks pass. -/
theorem getSubset_of_checks (hda : a.dynamic = false) (hdb : b.dynamic = false)
    (htype : a.type = b.type) (hconf : ¬ (a.protocol ≠ b.protocol ∧ a.protocol ≠ 0 ∧ b.protocol ≠ 0))
    (hcheck : ¬ (opaqueSubset a b = false ∧ (subsetPorts a b).1 > (subsetPorts a b).2))
    (haddr : memcmp (higherAddr a.fromAddr b.fromAddr) (lowerAddr a.toAddr b.toAddr) ≠ .gt) :
    getSubset a b = some (calcNetbits
        { trafficSelectorCreate (max a.protocol b.protocol) a.type (subsetPorts a b).1
            (subsetPorts a b).2 with
          fromAddr := higherAddr a.fromAddr b.fromAddr
          toAddr := lowerAddr a.toAddr b.toAddr }).2 := by
  have hdyn : ¬ (a.dynamic = true ∨ b.dynamic = true) := by simp [hda, hdb]
  unfold getSubset
  dsimp only
  rw [if_neg hdyn, if_neg (not_not.mpr htype), if_neg hconf, if_neg hcheck, if_neg haddr]

/-- **`get_subset` answers none exactly when no tuple is taken by both.** -/
theorem getSubset_eq_none_iff (ha : WellFormed a) (hb : WellFormed b) (hda : a.dynamic = false)
    (hdb : b.dynamic = false) : getSubset a b = none ↔ ∀ t, ¬ (Selects a t ∧ Selects b t) := by
  constructor
  · intro h t hab
    obtain ⟨htype, hconf, hcheck, haddr⟩ := checks_of_common ha hb hab
    rw [getSubset_of_checks hda hdb htype hconf hcheck haddr] at h
    cases h
  · intro h
    cases hs : getSubset a b with
    | none => rfl
    | some s =>
      obtain ⟨-, -, htype, hconf, hcheck, haddr, -⟩ := getSubset_eq_some hs
      obtain ⟨t, ht⟩ := common_of_checks ha hb htype hconf hcheck haddr
      exact absurd ht (h t)

end Checks

/-! ## 4. What the subset takes -/

/-- The ports `traffic_selector_create` leaves as they are for ICMP: `0`, and those
from `256` on. -/
theorem icmpPort_eq_self_iff (port : UInt16) :
    icmpPort port = port ↔ port.toNat = 0 ∨ 256 ≤ port.toNat := by
  unfold icmpPort
  have hp := port.toNat_lt
  split_ifs with h
  · simp only [UInt16.lt_iff_toNat_lt, UInt16.reduceToNat] at h
    rw [← UInt16.toNat_inj, UInt16.toNat_shiftLeft]
    simp only [UInt16.reduceToNat, Nat.reduceMod, Nat.shiftLeft_eq, Nat.reducePow]
    omega
  · simp only [UInt16.lt_iff_toNat_lt, UInt16.reduceToNat] at h
    simp only [true_iff]
    omega

/-- The ports `get_subset` computes from ports left as they are are left as they are:
the OPAQUE pair, a maximum and a minimum. -/
theorem subsetPorts_kept {a b : TrafficSelector} (ha : PortsKept a) (hb : PortsKept b) :
    icmpPort (subsetPorts a b).1 = (subsetPorts a b).1 ∧
      icmpPort (subsetPorts a b).2 = (subsetPorts a b).2 := by
  unfold PortsKept at ha hb
  simp only [icmpPort_eq_self_iff] at ha hb ⊢
  unfold subsetPorts
  split_ifs
  · decide
  · simp only [UInt16.toNat_max, UInt16.toNat_min]
    omega

/-- `calc_netbits` changes only the cached prefix, so it takes what its input takes. -/
@[simp] theorem selects_calcNetbits (ts : TrafficSelector) (t : Tuple) :
    Selects (calcNetbits ts).2 t ↔ Selects ts t := by
  rw [calcNetbits_eq]
  exact Iff.rfl

/-- **The subset takes exactly the common tuples** where no port of it is moved: the
protocol of the subset is no ICMP protocol, or both selectors hold their ports as
`traffic_selector_create` leaves them for ICMP. -/
theorem selects_getSubset {a b s : TrafficSelector} (ha : WellFormed a) (hb : WellFormed b)
    (hs : getSubset a b = some s)
    (hk : IsIcmp (max a.protocol b.protocol) → PortsKept a ∧ PortsKept b) (t : Tuple) :
    Selects s t ↔ Selects a t ∧ Selects b t := by
  obtain ⟨-, -, htype, hconf, hcheck, -, rfl⟩ := getSubset_eq_some hs
  obtain ⟨hf, ht⟩ := ha.length_eq hb htype
  obtain ⟨hfp, htp⟩ := trafficSelectorCreate_ports_of (max a.protocol b.protocol) a.type _ _
    (fun hi => subsetPorts_kept (hk hi).1 (hk hi).2)
  rw [selects_calcNetbits, selects_inter_iff hf ht]
  simp only [Selects, trafficSelectorCreate_type, trafficSelectorCreate_protocol, hfp, htp]
  constructor
  · intro h
    exact ⟨htype, hconf, hcheck, h⟩
  · intro h
    exact h.2.2.2

/-! ## 5. Equal selectors -/

/-- `memcmp` finds no byte that differs in an address and itself. -/
@[simp] theorem memcmp_self : ∀ (a : List UInt8), memcmp a a = .eq
  | [] => rfl
  | x :: xs => by simp [memcmp, memcmp_self xs]

/-- `traffic_selector_cmp` answers `0` for selectors of one address length exactly when
they agree in all but `netbits` and `dynamic`. -/
theorem trafficSelectorCmp_eq_iff {a b : TrafficSelector} (hf : a.fromAddr.length = b.fromAddr.length)
    (ht : a.toAddr.length = b.toAddr.length) :
    trafficSelectorCmp a b = .eq ↔
      a.type = b.type ∧ a.fromAddr = b.fromAddr ∧ a.toAddr = b.toAddr ∧ a.protocol = b.protocol ∧
        a.fromPort = b.fromPort ∧ a.toPort = b.toPort := by
  unfold trafficSelectorCmp
  rw [memcmp_eq_compare hf, memcmp_eq_compare ht.symm]
  simp only [Ordering.then_eq_eq, UInt8.compare_eq_toNat_compare_toNat,
    UInt16.compare_eq_toNat_compare_toNat, compare_eq_iff_eq, UInt8.toNat_inj, UInt16.toNat_inj]
  constructor
  · rintro ⟨hc, hv, hw, hp, hfp, htp⟩
    exact ⟨TsType.code_inj hc, eq_of_value_eq hf hv, (eq_of_value_eq ht.symm hw).symm, hp, hfp, htp.symm⟩
  · rintro ⟨htype, hfrom, hto, hp, hfp, htp⟩
    rw [htype, hfrom, hto, hp, hfp, htp]
    exact ⟨rfl, rfl, rfl, rfl, rfl, rfl⟩

/-- Selectors `traffic_selector_cmp` does not tell apart take the same tuples. -/
theorem selects_of_cmp_eq {a b : TrafficSelector} (hf : a.fromAddr.length = b.fromAddr.length)
    (ht : a.toAddr.length = b.toAddr.length) (h : trafficSelectorCmp a b = .eq) (t : Tuple) :
    Selects a t ↔ Selects b t := by
  obtain ⟨htype, hfrom, hto, hp, hfp, htp⟩ := (trafficSelectorCmp_eq_iff hf ht).mp h
  simp only [Selects, htype, hfrom, hto, hp, hfp, htp]

/-- `traffic_selector_cmp` answers `0` only for selectors of one type. -/
theorem type_eq_of_cmp_eq {a b : TrafficSelector} (h : trafficSelectorCmp a b = .eq) :
    a.type = b.type := by
  unfold trafficSelectorCmp at h
  rw [Ordering.then_eq_eq, compare_eq_iff_eq] at h
  exact TsType.code_inj h.1

/-- For well-formed selectors `traffic_selector_cmp` answers `0` exactly when they agree
in all but `netbits` and `dynamic`. -/
theorem WellFormed.cmp_eq_iff {a b : TrafficSelector} (ha : WellFormed a) (hb : WellFormed b) :
    trafficSelectorCmp a b = .eq ↔
      a.type = b.type ∧ a.fromAddr = b.fromAddr ∧ a.toAddr = b.toAddr ∧ a.protocol = b.protocol ∧
        a.fromPort = b.fromPort ∧ a.toPort = b.toPort := by
  constructor
  · intro h
    obtain ⟨hf, ht⟩ := ha.length_eq hb (type_eq_of_cmp_eq h)
    exact (trafficSelectorCmp_eq_iff hf ht).mp h
  · intro h
    obtain ⟨hf, ht⟩ := ha.length_eq hb h.1
    exact (trafficSelectorCmp_eq_iff hf ht).mpr h

/-- Well-formed selectors `traffic_selector_cmp` does not tell apart hand `to_subnet`
the same data, so `to_subnet` answers the same for both. -/
theorem WellFormed.toSubnet_fst_eq {a b : TrafficSelector} (ha : WellFormed a) (hb : WellFormed b)
    (h : trafficSelectorCmp a b = .eq) : (toSubnet a).1 = (toSubnet b).1 := by
  obtain ⟨htype, hfrom, hto, -, hfp, htp⟩ := (ha.cmp_eq_iff hb).mp h
  -- the cached prefix is the one `calc_netbits` computes from the addresses
  have h1 : (TrafficSelector.calcNetbits a).1 = (TrafficSelector.calcNetbits b).1 := by
    rw [calcNetbits_eq, calcNetbits_eq, htype, hfrom, hto]
  have h2 : (TrafficSelector.calcNetbits a).2.netbits = (TrafficSelector.calcNetbits b).2.netbits := by
    rw [calcNetbits_eq, calcNetbits_eq, htype, hfrom, hto]
  rw [ha.toSubnet_fst, hb.toSubnet_fst, ha.netbits_eq, hb.netbits_eq, h1, h2, htype, hfrom, hfp, htp]

/-- A protocol is known from the protocols it takes: `0` takes them all, another only
itself. -/
theorem protocol_eq_of_takes {p p' : UInt8} (h : ∀ q, (p = 0 ∨ p = q) ↔ (p' = 0 ∨ p' = q)) :
    p = p' := by
  rcases (h p).mp (Or.inr rfl) with h0' | h'
  · rcases (h p').mpr (Or.inr rfl) with h0 | h''
    · exact h0.trans h0'.symm
    · exact h''
  · exact h'.symm

/-- A port range that takes a port is known from the ports it takes: a range that takes
a known port from its ends, and one that takes only the unknown port is OPAQUE. -/
theorem ports_eq_of_takes {f t f' t' : UInt16} (hne : ∃ o, PortSelects f t o)
    (h : ∀ o, PortSelects f t o ↔ PortSelects f' t' o) : f = f' ∧ t = t' := by
  have h1 := h (some f)
  have h2 := h (some f')
  have h3 := h (some t)
  have h4 := h (some t')
  have h5 := h none
  obtain ⟨o, ho⟩ := hne
  have := f'.toNat_lt
  have := t'.toNat_lt
  cases o <;>
    simp only [PortSelects, ← UInt16.toNat_inj, UInt16.le_iff_toNat_le, UInt16.reduceToNat] at * <;>
    omega

/-- **Two selectors of one address length that take the same tuples, and take one, are
equal** for `traffic_selector_cmp`. -/
theorem trafficSelectorCmp_eq_of_selects {a b : TrafficSelector}
    (hf : a.fromAddr.length = b.fromAddr.length) (ht : a.toAddr.length = b.toAddr.length)
    (hne : ∃ t, Selects a t) (h : ∀ t, Selects a t ↔ Selects b t) : trafficSelectorCmp a b = .eq := by
  obtain ⟨t, hta, hpa, hporta, hfa, hua⟩ := hne
  obtain ⟨htb, hpb, hportb, hfb, hub⟩ := (h t).mp ⟨hta, hpa, hporta, hfa, hua⟩
  -- vary one part of `t` at a time: both take the other parts
  have hproto : a.protocol = b.protocol := protocol_eq_of_takes fun q => by
    simpa [Selects, ← hta, ← htb, hporta, hportb, hfa, hua, hfb, hub] using h { t with protocol := q }
  have hports := ports_eq_of_takes ⟨t.port, hporta⟩ fun o => by
    simpa [Selects, ← hta, ← htb, hpa, hpb, hfa, hua, hfb, hub] using h { t with port := o }
  have haddr : Set.Icc (value a.fromAddr) (value a.toAddr) =
      Set.Icc (value b.fromAddr) (value b.toAddr) := by
    ext n
    simpa [Selects, ← hta, ← htb, hpa, hpb, hporta, hportb] using h { t with address := n }
  obtain ⟨hv, hw⟩ := (Set.Icc_eq_Icc_iff (hfa.trans hua)).mp haddr
  rw [trafficSelectorCmp_eq_iff hf ht]
  exact ⟨hta.symm.trans htb, eq_of_value_eq hf hv, eq_of_value_eq ht hw, hproto, hports.1, hports.2⟩

/-! ## 6. Order, self and containment -/

section Laws

variable {a b : TrafficSelector}

/-- The OPAQUE rule of `get_subset` does not depend on the order of its operands. -/
theorem opaqueSubset_comm (a b : TrafficSelector) : opaqueSubset a b = opaqueSubset b a := by
  unfold opaqueSubset
  cases a.isOpaque <;> cases b.isOpaque <;> cases a.isAny <;> cases b.isAny <;> rfl

theorem subsetPorts_comm (a b : TrafficSelector) : subsetPorts a b = subsetPorts b a := by
  unfold subsetPorts
  rw [opaqueSubset_comm]
  split
  · rfl
  · rw [Prod.mk.injEq, ← UInt16.toNat_inj, ← UInt16.toNat_inj, UInt16.toNat_max, UInt16.toNat_max,
      UInt16.toNat_min, UInt16.toNat_min]
    exact ⟨Nat.max_comm _ _, Nat.min_comm _ _⟩

theorem higherAddr_comm {x y : List UInt8} (h : x.length = y.length) :
    higherAddr x y = higherAddr y x := by
  refine eq_of_value_eq ?_ ?_
  · rw [length_higherAddr rfl h.symm, length_higherAddr h.symm rfl]
  · rw [value_higherAddr h, value_higherAddr h.symm, max_comm]

theorem lowerAddr_comm {x y : List UInt8} (h : x.length = y.length) :
    lowerAddr x y = lowerAddr y x := by
  refine eq_of_value_eq ?_ ?_
  · rw [length_lowerAddr rfl h.symm, length_lowerAddr h.symm rfl]
  · rw [value_lowerAddr h, value_lowerAddr h.symm, min_comm]

/-- The subset has the type of its operands. -/
theorem getSubset_type {s : TrafficSelector} (hs : getSubset a b = some s) : s.type = a.type := by
  obtain ⟨-, -, -, -, -, -, rfl⟩ := getSubset_eq_some hs
  simp [calcNetbits_eq]

/-- The subset is no dynamic selector. -/
theorem getSubset_dynamic {s : TrafficSelector} (hs : getSubset a b = some s) : s.dynamic = false := by
  obtain ⟨-, -, -, -, -, -, rfl⟩ := getSubset_eq_some hs
  rw [calcNetbits_eq]
  unfold trafficSelectorCreate; split <;> rfl

/-- The subset has the protocol that is not `0`, or `0`. -/
theorem getSubset_protocol {s : TrafficSelector} (hs : getSubset a b = some s) :
    s.protocol = max a.protocol b.protocol := by
  obtain ⟨-, -, -, -, -, -, rfl⟩ := getSubset_eq_some hs
  simp [calcNetbits_eq]

/-- The subset of selectors whose ports the constructor leaves as they are holds such
ports too. -/
theorem getSubset_portsKept {s : TrafficSelector} (hs : getSubset a b = some s) (ha : PortsKept a)
    (hb : PortsKept b) : PortsKept s := by
  obtain ⟨-, -, -, -, -, -, rfl⟩ := getSubset_eq_some hs
  obtain ⟨hf, ht⟩ := subsetPorts_kept ha hb
  obtain ⟨hfp, htp⟩ := trafficSelectorCreate_ports_of (max a.protocol b.protocol) a.type _ _ (fun _ => ⟨hf, ht⟩)
  simp only [PortsKept, calcNetbits_eq]
  rw [hfp, htp]
  exact ⟨hf, ht⟩

/-- **`get_subset` does not depend on the order of its operands**: the same checks
pass, and the same selector is built. -/
theorem getSubset_comm (ha : WellFormed a) (hb : WellFormed b) : getSubset a b = getSubset b a := by
  by_cases hd : a.dynamic = false ∧ b.dynamic = false
  · obtain ⟨hda, hdb⟩ := hd
    -- none on one side is none on the other: no tuple is common, in either order
    have hnone : getSubset a b = none ↔ getSubset b a = none := by
      rw [getSubset_eq_none_iff ha hb hda hdb, getSubset_eq_none_iff hb ha hdb hda]
      exact forall_congr' fun t => not_congr and_comm
    cases hab : getSubset a b with
    | none => exact (hnone.mp hab).symm
    | some s =>
      cases hba : getSubset b a with
      | none => simp [hnone.mpr hba] at hab
      | some s' =>
        obtain ⟨-, -, htype, -, -, -, rfl⟩ := getSubset_eq_some hab
        obtain ⟨-, -, -, -, -, -, rfl⟩ := getSubset_eq_some hba
        obtain ⟨hf, ht⟩ := ha.length_eq hb htype
        have hp : max a.protocol b.protocol = max b.protocol a.protocol :=
          UInt8.toNat_inj.mp (by rw [UInt8.toNat_max, UInt8.toNat_max, Nat.max_comm])
        rw [subsetPorts_comm, hp, higherAddr_comm hf, lowerAddr_comm ht, htype]
  · -- a dynamic selector has no subset
    have hdyn : a.dynamic = true ∨ b.dynamic = true := by
      simpa only [not_and_or, Bool.not_eq_false] using hd
    unfold getSubset
    rw [if_pos hdyn, if_pos hdyn.symm]

/-- A selector with itself gives its own ports. -/
theorem subsetPorts_self (a : TrafficSelector) : subsetPorts a a = (a.fromPort, a.toPort) := by
  unfold subsetPorts
  split_ifs with hop
  · -- OPAQUE with OPAQUE or ANY: `a` is OPAQUE
    have hopq : a.isOpaque = true := by
      simp only [opaqueSubset, Bool.or_eq_true, Bool.and_eq_true] at hop
      tauto
    simp only [isOpaque, Bool.decide_and, Bool.and_eq_true, decide_eq_true_eq] at hopq
    rw [hopq.1, hopq.2]
  · rw [Prod.mk.injEq, ← UInt16.toNat_inj, ← UInt16.toNat_inj, UInt16.toNat_max, UInt16.toNat_min]
    exact ⟨Nat.max_self _, Nat.min_self _⟩

theorem higherAddr_self (x : List UInt8) : higherAddr x x = x := by
  unfold higherAddr; split <;> rfl

theorem lowerAddr_self (x : List UInt8) : lowerAddr x x = x := by
  unfold lowerAddr; split <;> rfl

/-- **A selector that takes a tuple is its own subset.** The constructor leaves the
ports of a well-formed selector as they are, and `calc_netbits` stores the cached
prefix again. -/
theorem getSubset_self (ha : WellFormed a) (hd : a.dynamic = false) (hne : ∃ t, Selects a t) :
    getSubset a a = some a := by
  obtain ⟨t, ht⟩ := hne
  obtain ⟨-, hconf, hcheck, haddr⟩ := checks_of_common ha ha ⟨ht, ht⟩
  obtain ⟨hfp, htp⟩ := trafficSelectorCreate_ports_of a.protocol a.type a.fromPort a.toPort
    ha.icmpPorts
  have hp : max a.protocol a.protocol = a.protocol :=
    UInt8.toNat_inj.mp (by rw [UInt8.toNat_max, Nat.max_self])
  rw [getSubset_of_checks hd hd rfl hconf hcheck haddr, subsetPorts_self, hp, higherAddr_self,
    lowerAddr_self, calcNetbits_eq]
  have hnet := ha.netbits_eq
  rw [calcNetbits_eq] at hnet
  have hdyn : (trafficSelectorCreate a.protocol a.type a.fromPort a.toPort).dynamic = false := by
    unfold trafficSelectorCreate; split <;> rfl
  congr 1
  cases a
  simp only at hd hnet hfp htp hdyn ⊢
  simp only [trafficSelectorCreate_type, trafficSelectorCreate_protocol, hfp, htp, hdyn, hd, hnet]

/-- **`is_contained_in` is the inclusion of the tuples taken**, for a selector that
takes a tuple, where no port of the subset is moved. -/
theorem isContainedIn_iff (ha : WellFormed a) (hb : WellFormed b) (hda : a.dynamic = false)
    (hdb : b.dynamic = false) (hne : ∃ t, Selects a t)
    (hk : IsIcmp (max a.protocol b.protocol) → PortsKept a ∧ PortsKept b) :
    a.isContainedIn b = true ↔ ∀ t, Selects a t → Selects b t := by
  unfold isContainedIn
  constructor
  · intro h t hta
    split at h
    · rename_i s hs
      obtain ⟨hf, hto⟩ := (ha.getSubset hb hs).length_eq ha (getSubset_type hs)
      have hsa : trafficSelectorCmp s a = .eq := by simpa [equals] using h
      exact ((selects_getSubset ha hb hs hk t).mp ((selects_of_cmp_eq hf hto hsa t).mpr hta)).2
    · cases h
  · intro h
    obtain ⟨t, ht⟩ := hne
    cases hs : getSubset a b with
    | none => exact absurd ⟨ht, h t ht⟩ ((getSubset_eq_none_iff ha hb hda hdb).mp hs t)
    | some s =>
      -- the subset takes what `a` takes, so `traffic_selector_cmp` finds them equal
      have hsel : ∀ u, Selects s u ↔ Selects a u := fun u =>
        (selects_getSubset ha hb hs hk u).trans ⟨And.left, fun hu => ⟨hu, h u hu⟩⟩
      obtain ⟨hf, hto⟩ := (ha.getSubset hb hs).length_eq ha (getSubset_type hs)
      simpa [equals] using trafficSelectorCmp_eq_of_selects hf hto ⟨t, (hsel t).mpr ht⟩ hsel

/-- **`get_subset` is the intersection of the tuples taken**, where it moves no port
into an ICMP type. For well-formed selectors that are not dynamic, it is `NULL` exactly
when no tuple is common, its result takes exactly the common tuples, and the order of
the two does not matter. For a selector that takes a tuple, its subset with itself is
itself, and `is_contained_in` is inclusion. -/
theorem getSubset_laws (ha : WellFormed a) (hb : WellFormed b) (hda : a.dynamic = false)
    (hdb : b.dynamic = false) (hk : IsIcmp (max a.protocol b.protocol) → PortsKept a ∧ PortsKept b) :
    (getSubset a b = none ↔ ∀ t, ¬ (Selects a t ∧ Selects b t)) ∧
      (∀ s, getSubset a b = some s → ∀ t, Selects s t ↔ Selects a t ∧ Selects b t) ∧
      getSubset a b = getSubset b a ∧
      ((∃ t, Selects a t) →
        getSubset a a = some a ∧ (a.isContainedIn b = true ↔ ∀ t, Selects a t → Selects b t)) :=
  ⟨getSubset_eq_none_iff ha hb hda hdb, fun _ hs => selects_getSubset ha hb hs hk, getSubset_comm ha hb,
    fun hne => ⟨getSubset_self ha hda hne, isContainedIn_iff ha hb hda hdb hne hk⟩⟩

/-- `10.0.0.0/8` TCP and `0.0.0.0/0` of any protocol: no ICMP subset, so no port is
moved; `10.0.0.1` port `22` is taken by the first. -/
theorem getSubset_laws_tcp :
    getSubset (createFromSubnet ⟨.inet, [10, 0, 0, 0], 0⟩ 8 6 0 0xffff)
        (createFromSubnet ⟨.inet, [0, 0, 0, 0], 0⟩ 0 0 0 0xffff) =
      getSubset (createFromSubnet ⟨.inet, [0, 0, 0, 0], 0⟩ 0 0 0 0xffff)
        (createFromSubnet ⟨.inet, [10, 0, 0, 0], 0⟩ 8 6 0 0xffff) ∧
      getSubset (createFromSubnet ⟨.inet, [10, 0, 0, 0], 0⟩ 8 6 0 0xffff)
        (createFromSubnet ⟨.inet, [10, 0, 0, 0], 0⟩ 8 6 0 0xffff) =
        some (createFromSubnet ⟨.inet, [10, 0, 0, 0], 0⟩ 8 6 0 0xffff) := by
  have hlaws := getSubset_laws (@wellFormed_createFromSubnet ⟨.inet, [10, 0, 0, 0], 0⟩ rfl 8 6 0 0xffff)
    (@wellFormed_createFromSubnet ⟨.inet, [0, 0, 0, 0], 0⟩ rfl 0 0 0 0xffff) (by decide) (by decide)
    (fun h => absurd h (by decide))
  exact ⟨hlaws.2.2.1, (hlaws.2.2.2 ⟨⟨.ipv4AddrRange, 6, some 22, value [10, 0, 0, 1]⟩, by decide⟩).1⟩

end Laws

/-! ## 7. Where a port is moved -/

/-- **A port of a selector of any protocol is read as an ICMP type.** The subset of
`10.0.0.0/8` port `5`, any protocol, and of ICMP `0.0.0.0/0` is ICMP `10.0.0.0/8` of
ports `1280-1280`, as `traffic_selector_create` moves `5` into the high byte: it takes
ICMP packets of port `1280`, which the first selector does not take, and misses those
of port `5`, which both take. So ICMP `10.0.0.0/8` of ports `0-1280` counts as
contained in `10.0.0.0/8` ports `0-5` of any protocol, though it takes port `1024`. -/
theorem getSubset_icmp_moves_port :
    getSubset (createFromSubnet ⟨.inet, [10, 0, 0, 0], 0⟩ 8 0 5 5)
        (createFromSubnet ⟨.inet, [0, 0, 0, 0], 0⟩ 0 ipprotoIcmp 0 0xffff) =
        some ⟨.ipv4AddrRange, ipprotoIcmp, false, 8, [10, 0, 0, 0], [10, 255, 255, 255], 1280, 1280⟩ ∧
      Selects ⟨.ipv4AddrRange, ipprotoIcmp, false, 8, [10, 0, 0, 0], [10, 255, 255, 255], 1280, 1280⟩
        ⟨.ipv4AddrRange, ipprotoIcmp, some 1280, value [10, 0, 0, 1]⟩ ∧
      ¬ Selects (createFromSubnet ⟨.inet, [10, 0, 0, 0], 0⟩ 8 0 5 5)
        ⟨.ipv4AddrRange, ipprotoIcmp, some 1280, value [10, 0, 0, 1]⟩ ∧
      Selects (createFromSubnet ⟨.inet, [10, 0, 0, 0], 0⟩ 8 0 5 5)
        ⟨.ipv4AddrRange, ipprotoIcmp, some 5, value [10, 0, 0, 1]⟩ ∧
      Selects (createFromSubnet ⟨.inet, [0, 0, 0, 0], 0⟩ 0 ipprotoIcmp 0 0xffff)
        ⟨.ipv4AddrRange, ipprotoIcmp, some 5, value [10, 0, 0, 1]⟩ ∧
      ¬ Selects ⟨.ipv4AddrRange, ipprotoIcmp, false, 8, [10, 0, 0, 0], [10, 255, 255, 255], 1280, 1280⟩
        ⟨.ipv4AddrRange, ipprotoIcmp, some 5, value [10, 0, 0, 1]⟩ ∧
      (createFromSubnet ⟨.inet, [10, 0, 0, 0], 0⟩ 8 ipprotoIcmp 0 5).isContainedIn
        (createFromSubnet ⟨.inet, [10, 0, 0, 0], 0⟩ 8 0 0 5) = true ∧
      Selects (createFromSubnet ⟨.inet, [10, 0, 0, 0], 0⟩ 8 ipprotoIcmp 0 5)
        ⟨.ipv4AddrRange, ipprotoIcmp, some 1024, value [10, 0, 0, 1]⟩ ∧
      ¬ Selects (createFromSubnet ⟨.inet, [10, 0, 0, 0], 0⟩ 8 0 0 5)
        ⟨.ipv4AddrRange, ipprotoIcmp, some 1024, value [10, 0, 0, 1]⟩ := by
  decide

end VpnClient.Ipsec.TrafficSelector
