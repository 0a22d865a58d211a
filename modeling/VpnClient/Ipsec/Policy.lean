import VpnClient.Ipsec.TrafficSelector
import VpnClient.Lib.LinkedList

/-!
# IPsec policies

`ipsec_policy_t` (`libipsec/ipsec_policy.c`) and the policy manager of
`ipsec_policy_mgr.c`, as far as the data path uses them: a policy has two traffic
selectors (`traffic_selector_t`, `libstrongswan/selectors/traffic_selector.c`), a
protocol, a direction and the reqid of its SAs, and `match_packet` decides whether a
packet falls under it. The manager keeps its policies in one list, in priority order
(`add_policy` inserts before the first entry of no smaller priority), and
`find_by_packet` returns the first policy of the wanted direction that matches the
packet and, unless the reqid asked for is `0`, has that reqid.

`findByPacket_eq_some` says what was found: a policy of the list that satisfies the
search, and no entry before it does.
-/

namespace VpnClient.Ipsec

open VpnClient.Lib LinkedList

/-! ## 1. Policies -/

/-- `policy_dir_t`. -/
inductive PolicyDir
  | policyIn
  | policyOut
  | policyFwd
  deriving DecidableEq, Repr

/-- `policy_type_t`. -/
inductive PolicyType
  | policyIpsec
  | policyPass
  | policyDrop
  deriving DecidableEq, Repr

/-- `policy_priority_t`, the high-level priority of a policy. -/
inductive PolicyPriority
  | policyPriorityPass
  | policyPriorityDefault
  | policyPriorityRouted
  | policyPriorityFallback
  deriving DecidableEq, Repr

/-- `mark_t`. -/
structure Mark where
  value : UInt32
  mask : UInt32
  deriving DecidableEq, Repr

/-- `private_ipsec_policy_t`: the selectors, the protocol cached from them, the
direction, the SA configuration's reqid, the mark and the priority. -/
structure IpsecPolicy where
  srcTs : TrafficSelector
  dstTs : TrafficSelector
  protocol : UInt8
  direction : PolicyDir
  reqid : UInt32
  mark : Mark
  priority : PolicyPriority
  deriving DecidableEq, Repr

/-- `ipsec_policy_create`: copies of the selectors, the protocol of the one that is not
`0`, and the reqid of the SA configuration. The hosts and the type are not kept. -/
def ipsecPolicyCreate (srcTs dstTs : TrafficSelector) (direction : PolicyDir) (reqid : UInt32)
    (mark : Mark) (priority : PolicyPriority) : IpsecPolicy :=
  ⟨srcTs.clone, dstTs.clone, max srcTs.protocol dstTs.protocol, direction, reqid, mark, priority⟩

/-- `match` (a keyword in Lean): the policy of these selectors, direction, reqid,
mark and priority. -/
def IpsecPolicy.matches (policy : IpsecPolicy) (srcTs dstTs : TrafficSelector)
    (direction : PolicyDir) (reqid : UInt32) (mark : Mark) (priority : PolicyPriority) : Bool :=
  policy.direction = direction ∧ policy.priority = priority ∧ policy.reqid = reqid ∧
    policy.mark = mark ∧ policy.srcTs.equals srcTs ∧ policy.dstTs.equals dstTs

/-- `match_packet`: the packet's protocol, addresses and ports fall under the
policy. -/
def IpsecPolicy.matchPacket (policy : IpsecPolicy) (packet : IpPacket) : Bool :=
  (policy.protocol = 0 ∨ policy.protocol = packet.nextHeader) ∧
    policy.srcTs.includes packet.src ∧ policy.srcTs.matchPort packet.src ∧
    policy.dstTs.includes packet.dst ∧ policy.dstTs.matchPort packet.dst

/-- `ipsec_policy_entry_t`: a policy with the priority it is sorted by. -/
structure IpsecPolicyEntry where
  priority : UInt32
  policy : IpsecPolicy
  deriving DecidableEq, Repr

/-- The test of `find_by_packet`'s loop: the direction, the packet, and the reqid
unless it is `0`. -/
def IpsecPolicyEntry.wanted (packet : IpPacket) (inbound : Bool) (reqid : UInt32)
    (current : IpsecPolicyEntry) : Bool :=
  (inbound == (current.policy.direction == .policyIn)) && current.policy.matchPacket packet &&
    (reqid == 0 || reqid == current.policy.reqid)

/-- `find_by_packet`: the first policy, in priority order, of the wanted direction
that matches the packet and has the reqid asked for. -/
def findByPacket (policies : List IpsecPolicyEntry) (packet : IpPacket) (inbound : Bool)
    (reqid : UInt32) : Option IpsecPolicy :=
  (findFirst (IpsecPolicyEntry.wanted packet inbound reqid) policies).map (·.2.policy)

/-- **What `find_by_packet` finds**: an entry of the list that has the wanted
direction, matches the packet and has the reqid (any when `0` is asked for), and no
entry before it does. -/
theorem findByPacket_eq_some {policies : List IpsecPolicyEntry} {packet : IpPacket}
    {inbound : Bool} {reqid : UInt32} {policy : IpsecPolicy}
    (h : findByPacket policies packet inbound reqid = some policy) :
    ∃ (i : ℕ) (e : IpsecPolicyEntry), policies[i]? = some e ∧ e.policy = policy ∧
      (inbound = true ↔ policy.direction = .policyIn) ∧ policy.matchPacket packet = true ∧
      (reqid = 0 ∨ policy.reqid = reqid) ∧
      ∀ j < i, ∀ e' : IpsecPolicyEntry, policies[j]? = some e' → e'.wanted packet inbound reqid = false := by
  obtain ⟨⟨i, e⟩, hfind, rfl⟩ := Option.map_eq_some_iff.mp h
  obtain ⟨hget, hwanted, hfirst⟩ := findFirst_eq_some hfind
  simp only [IpsecPolicyEntry.wanted, Bool.and_eq_true, beq_iff_eq, Bool.or_eq_true] at hwanted
  obtain ⟨⟨hdir, hmatch⟩, hreqid⟩ := hwanted
  refine ⟨i, e, hget, rfl, ?_, hmatch, ?_, hfirst⟩
  · cases inbound <;> simp_all
  · rcases hreqid with h0 | h0
    · exact Or.inl h0
    · exact Or.inr h0.symm

end VpnClient.Ipsec
