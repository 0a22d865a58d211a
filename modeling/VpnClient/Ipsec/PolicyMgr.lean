import VpnClient.Ipsec.Processor
import VpnClient.Ipsec.Subset

/-!
# The policy manager

`ipsec_policy_mgr_t` (`libipsec/ipsec_policy_mgr.c`) keeps the installed policies in
one list, each with the pseudo-priority `calculate_priority` gives it, the one the
NETLINK kernel interface uses: the smaller value wins. `add_policy` inserts a policy
before the first entry of no smaller priority, `del_policy` removes the first entry of
the priority and the policy asked for, `flush_policies` removes all of them, and
`find_by_packet` takes the first entry that fits a packet. Both `add_policy` and
`del_policy` ignore policies that are not IPsec policies and forwarding policies, and
answer `SUCCESS` for them.

Over every run of these calls with well-formed selectors the list stays ordered, and
each entry keeps the priority of its policy, well-formed selectors and a direction
other than forwarding (`Inv`, `runOps_inv`). From that, `policyMgr_sound`: an added
policy makes the list one longer; a deletion of an installed policy removes one entry
that matches it, the first, and fails, leaving the list as it was, only when none does;
and what `find_by_packet` finds has the least priority among the entries that fit. An
ignored deletion answers success and removes nothing, also where a policy it names is
installed (`delPolicy_pass_keeps`).
-/

namespace VpnClient.Ipsec

open VpnClient.Lib Bytes LinkedList TrafficSelector

/-! ## 1. Priorities and the calls -/

/-- `PRIO_BASE`. -/
def prioBase : UInt32 := 384

/-- The `switch` of `calculate_priority`: the base, shifted once for each case it falls
through. -/
def PolicyPriority.shifted : PolicyPriority → UInt32
  | .policyPriorityFallback => prioBase <<< 1 <<< 1 <<< 1
  | .policyPriorityRouted => prioBase <<< 1 <<< 1
  | .policyPriorityDefault => prioBase <<< 1
  | .policyPriorityPass => prioBase

/-- `calculate_priority`: the class, less the masks of both selectors, then two flags
for a port and a protocol of `0`. `to_subnet` may store the cached prefix in the
selector again; for a well-formed selector that changes nothing
(`WellFormed.toSubnet_snd`), so only its result is kept. -/
def calculatePriority (policyPriority : PolicyPriority) (src dst : TrafficSelector) : UInt32 :=
  let s := (toSubnet src).1
  let d := (toSubnet dst).1
  let priority := policyPriority.shifted - s.mask.toUInt32 - d.mask.toUInt32
  let proto := max src.protocol dst.protocol
  let port := max s.net.port d.net.port
  (priority <<< 2) + (if port ≠ 0 then 0 else 2) + (if proto ≠ 0 then 0 else 1)

/-- `policy_entry_create`. -/
def policyEntryCreate (policy : IpsecPolicy) : IpsecPolicyEntry :=
  ⟨calculatePriority policy.priority policy.srcTs policy.dstTs, policy⟩

/-- `add_policy`; it answers `SUCCESS` whatever it does. -/
def addPolicy (policies : List IpsecPolicyEntry) (srcTs dstTs : TrafficSelector)
    (direction : PolicyDir) (type : PolicyType) (reqid : UInt32) (mark : Mark)
    (priority : PolicyPriority) : Except Status Unit × List IpsecPolicyEntry :=
  if type ≠ .policyIpsec ∨ direction = .policyFwd then (.ok (), policies)
  else
    let entry := policyEntryCreate (ipsecPolicyCreate srcTs dstTs direction reqid mark priority)
    (.ok (), insertBefore (fun current => current.priority ≥ entry.priority) entry policies)

/-- The test of `del_policy`'s loop: the priority of the selectors asked for, and the
policy asked for. -/
def delTest (srcTs dstTs : TrafficSelector) (direction : PolicyDir) (reqid : UInt32) (mark : Mark)
    (policyPriority : PolicyPriority) (current : IpsecPolicyEntry) : Bool :=
  current.priority == calculatePriority policyPriority srcTs dstTs &&
    current.policy.matches srcTs dstTs direction reqid mark policyPriority

/-- `del_policy`: `FAILED` when no entry passes the test. -/
def delPolicy (policies : List IpsecPolicyEntry) (srcTs dstTs : TrafficSelector)
    (direction : PolicyDir) (type : PolicyType) (reqid : UInt32) (mark : Mark)
    (policyPriority : PolicyPriority) : Except Status Unit × List IpsecPolicyEntry :=
  if type ≠ .policyIpsec ∨ direction = .policyFwd then (.ok (), policies)
  else
    match removeFirst (delTest srcTs dstTs direction reqid mark policyPriority) policies with
    | some policies' => (.ok (), policies')
    | none => (.error .failed, policies)

/-- `flush_policies`: `remove_last` until the list is empty. -/
def flushPolicies (_policies : List IpsecPolicyEntry) : Except Status Unit × List IpsecPolicyEntry :=
  (.ok (), [])

/-- The calls of `ipsec_policy_mgr_t` that change the list. -/
inductive PolicyMgrOp
  | addPolicy (srcTs dstTs : TrafficSelector) (direction : PolicyDir) (type : PolicyType)
      (reqid : UInt32) (mark : Mark) (priority : PolicyPriority)
  | delPolicy (srcTs dstTs : TrafficSelector) (direction : PolicyDir) (type : PolicyType)
      (reqid : UInt32) (mark : Mark) (priority : PolicyPriority)
  | flushPolicies

/-- One call on the list. -/
def PolicyMgrOp.apply : PolicyMgrOp → List IpsecPolicyEntry → Except Status Unit × List IpsecPolicyEntry
  | .addPolicy s d dir t r m p, policies => Ipsec.addPolicy policies s d dir t r m p
  | .delPolicy s d dir t r m p, policies => Ipsec.delPolicy policies s d dir t r m p
  | .flushPolicies, policies => Ipsec.flushPolicies policies

/-- The list after a run of calls. -/
def runOps : List PolicyMgrOp → List IpsecPolicyEntry → List IpsecPolicyEntry
  | [], policies => policies
  | op :: ops, policies => runOps ops (op.apply policies).2

/-- The selectors of a call are ones the program builds. -/
def PolicyMgrOp.WellFormed : PolicyMgrOp → Prop
  | .addPolicy s d .. => s.WellFormed ∧ d.WellFormed
  | .delPolicy s d .. => s.WellFormed ∧ d.WellFormed
  | .flushPolicies => True

/-! ## 2. The invariant -/

/-- Selectors `traffic_selector_cmp` does not tell apart give one priority, when they
are well formed: the masks and ports of `to_subnet` and the protocols agree. -/
theorem calculatePriority_congr {src src' dst dst' : TrafficSelector} (hs : src.WellFormed)
    (hs' : src'.WellFormed) (hd : dst.WellFormed) (hd' : dst'.WellFormed)
    (hcs : trafficSelectorCmp src src' = .eq) (hcd : trafficSelectorCmp dst dst' = .eq)
    (p : PolicyPriority) : calculatePriority p src dst = calculatePriority p src' dst' := by
  obtain ⟨-, -, -, hps, -, -⟩ := (hs.cmp_eq_iff hs').mp hcs
  obtain ⟨-, -, -, hpd, -, -⟩ := (hd.cmp_eq_iff hd').mp hcd
  unfold calculatePriority
  rw [hs.toSubnet_fst_eq hs' hcs, hd.toSubnet_fst_eq hd' hcd, hps, hpd]

/-- An entry as `add_policy` leaves it: the priority of its policy, well-formed
selectors, and no forwarding. -/
structure IpsecPolicyEntry.Valid (e : IpsecPolicyEntry) : Prop where
  priority_eq : e.priority = calculatePriority e.policy.priority e.policy.srcTs e.policy.dstTs
  srcTs : e.policy.srcTs.WellFormed
  dstTs : e.policy.dstTs.WellFormed
  notFwd : e.policy.direction ≠ .policyFwd

/-- What holds of the list between calls: it is ordered by priority, and every entry
is valid. -/
structure Inv (policies : List IpsecPolicyEntry) : Prop where
  sorted : policies.Pairwise fun e e' => e.priority ≤ e'.priority
  valid : ∀ e ∈ policies, e.Valid

theorem Inv.nil : Inv [] := ⟨List.Pairwise.nil, fun _ h => absurd h List.not_mem_nil⟩

section Step

variable {policies : List IpsecPolicyEntry} {srcTs dstTs : TrafficSelector} {direction : PolicyDir}
  {type : PolicyType} {reqid : UInt32} {mark : Mark} {priority : PolicyPriority}

/-- The entry `add_policy` inserts is valid. -/
theorem valid_policyEntryCreate (hs : srcTs.WellFormed) (hd : dstTs.WellFormed)
    (hdir : direction ≠ .policyFwd) :
    (policyEntryCreate (ipsecPolicyCreate srcTs dstTs direction reqid mark priority)).Valid :=
  ⟨rfl, hs.clone, hd.clone, hdir⟩

theorem Inv.addPolicy (h : Inv policies) (hs : srcTs.WellFormed) (hd : dstTs.WellFormed) :
    Inv (addPolicy policies srcTs dstTs direction type reqid mark priority).2 := by
  unfold Ipsec.addPolicy
  split_ifs with hign
  · exact h
  · rw [not_or, not_not] at hign
    have hvalid := @valid_policyEntryCreate srcTs dstTs direction reqid mark priority hs hd hign.2
    dsimp only
    refine ⟨pairwise_insertBefore ?_ ?_ ?_ h.sorted, ?_⟩
    · intro x y z hxy hyz
      exact UInt32.le_trans hxy hyz
    · -- an entry the loop passes has a smaller priority
      intro c hc
      rw [decide_eq_false_iff_not, ge_iff_le, UInt32.not_le] at hc
      exact UInt32.le_of_lt hc
    · intro c hc
      exact of_decide_eq_true hc
    · intro e he
      rcases (mem_insertBefore _ _ e policies).mp he with rfl | he
      · exact hvalid
      · exact h.valid e he

theorem Inv.delPolicy (h : Inv policies) :
    Inv (delPolicy policies srcTs dstTs direction type reqid mark priority).2 := by
  unfold Ipsec.delPolicy
  split_ifs
  · exact h
  · split
    · rename_i policies' hr
      -- the entries left are the list with one of them taken out
      obtain ⟨xs, a, ys, rfl, -, -, rfl⟩ := removeFirst_eq_some hr
      have hsub : (xs ++ ys).Sublist (xs ++ a :: ys) :=
        (List.sublist_cons_self a ys).append_left xs
      exact ⟨h.sorted.sublist hsub, fun e he => h.valid e (hsub.subset he)⟩
    · exact h

theorem Inv.flushPolicies : Inv (flushPolicies policies).2 := Inv.nil

end Step

/-- Every call with well-formed selectors keeps the invariant. -/
theorem Inv.apply {policies : List IpsecPolicyEntry} (h : Inv policies) :
    ∀ {op : PolicyMgrOp}, op.WellFormed → Inv (op.apply policies).2
  | .addPolicy .., ⟨hs, hd⟩ => h.addPolicy hs hd
  | .delPolicy .., _ => h.delPolicy
  | .flushPolicies, _ => @Inv.flushPolicies policies

/-- **The invariant holds along every run** of calls with well-formed selectors. -/
theorem runOps_inv : ∀ {ops : List PolicyMgrOp} {policies : List IpsecPolicyEntry},
    Inv policies → (∀ op ∈ ops, op.WellFormed) → Inv (runOps ops policies)
  | [], _, h, _ => h
  | op :: ops, _, h, hops => by
    rw [runOps]
    exact runOps_inv (h.apply (hops op List.mem_cons_self)) fun op' hop' =>
      hops op' (List.mem_cons_of_mem op hop')

/-! ## 3. What the calls do -/

section Calls

variable {policies : List IpsecPolicyEntry} {srcTs dstTs : TrafficSelector} {direction : PolicyDir}
  {reqid : UInt32} {mark : Mark} {priority : PolicyPriority}

/-- An IPsec policy that does not forward makes the list one longer. -/
theorem length_addPolicy (hdir : direction ≠ .policyFwd) :
    (addPolicy policies srcTs dstTs direction .policyIpsec reqid mark priority).2.length =
      policies.length + 1 := by
  unfold Ipsec.addPolicy
  rw [if_neg (by simp [hdir])]
  exact length_insertBefore _ _ _

/-- On a valid entry the test of `del_policy` is `match`: an entry of the policy asked
for has the priority of the selectors asked for. -/
theorem delTest_eq_matches {e : IpsecPolicyEntry} (he : e.Valid) (hs : srcTs.WellFormed)
    (hd : dstTs.WellFormed) :
    delTest srcTs dstTs direction reqid mark priority e =
      e.policy.matches srcTs dstTs direction reqid mark priority := by
  unfold delTest
  cases hm : e.policy.matches srcTs dstTs direction reqid mark priority with
  | false => exact Bool.and_false _
  | true =>
    simp only [IpsecPolicy.matches, equals, Bool.decide_and, Bool.and_eq_true,
      decide_eq_true_eq] at hm
    obtain ⟨-, hprio, -, -, hcs, hcd⟩ := hm
    rw [he.priority_eq, hprio, calculatePriority_congr he.srcTs hs he.dstTs hd hcs hcd]
    simp

/-- A deletion of an installed IPsec policy that does not forward removes the first
entry that matches it, and only that one. -/
theorem delPolicy_of_matches (h : Inv policies) (hs : srcTs.WellFormed) (hd : dstTs.WellFormed)
    (hdir : direction ≠ .policyFwd)
    (hm : ∃ e ∈ policies, e.policy.matches srcTs dstTs direction reqid mark priority = true) :
    ∃ xs e ys, policies = xs ++ e :: ys ∧
      (∀ x ∈ xs, x.policy.matches srcTs dstTs direction reqid mark priority = false) ∧
      e.policy.matches srcTs dstTs direction reqid mark priority = true ∧
      delPolicy policies srcTs dstTs direction .policyIpsec reqid mark priority = (.ok (), xs ++ ys) := by
  have htest : ∀ e ∈ policies, delTest srcTs dstTs direction reqid mark priority e =
      e.policy.matches srcTs dstTs direction reqid mark priority := fun e he =>
    delTest_eq_matches (h.valid e he) hs hd
  unfold Ipsec.delPolicy
  rw [if_neg (by simp [hdir])]
  cases hr : removeFirst (delTest srcTs dstTs direction reqid mark priority) policies with
  | none =>
    -- nothing passes the test, yet an installed entry matches
    obtain ⟨e, he, hme⟩ := hm
    have := removeFirst_eq_none_iff.mp hr e he
    rw [htest e he, hme] at this
    cases this
  | some policies' =>
    obtain ⟨xs, e, ys, rfl, hxs, he, rfl⟩ := removeFirst_eq_some hr
    have hmem : e ∈ xs ++ e :: ys := List.mem_append_right xs List.mem_cons_self
    refine ⟨xs, e, ys, rfl, fun x hx => ?_, (htest e hmem).symm.trans he, rfl⟩
    rw [← htest x (List.mem_append_left _ hx)]
    exact hxs x hx

/-- A deletion that no installed policy matches fails and leaves the list. -/
theorem delPolicy_of_not_matches (hdir : direction ≠ .policyFwd)
    (hm : ∀ e ∈ policies, e.policy.matches srcTs dstTs direction reqid mark priority = false) :
    delPolicy policies srcTs dstTs direction .policyIpsec reqid mark priority =
      (.error .failed, policies) := by
  have hr : removeFirst (delTest srcTs dstTs direction reqid mark priority) policies = none :=
    removeFirst_eq_none_iff.mpr fun e he => by
      unfold delTest
      rw [hm e he, Bool.and_false]
  unfold Ipsec.delPolicy
  rw [if_neg (by simp [hdir]), hr]

/-- **What `find_by_packet` finds has the least priority** among the entries of the
wanted direction that match the packet and have the reqid asked for; with no
forwarding entry, the direction is the one asked for. -/
theorem findByPacket_least (h : Inv policies) {packet : IpPacket} {inbound : Bool} {reqid : UInt32}
    {policy : IpsecPolicy} (hf : findByPacket policies packet inbound reqid = some policy) :
    ∃ e ∈ policies, e.policy = policy ∧
      policy.direction = (if inbound then .policyIn else .policyOut) ∧
      policy.matchPacket packet = true ∧ (reqid = 0 ∨ policy.reqid = reqid) ∧
      ∀ e' ∈ policies, e'.wanted packet inbound reqid = true → e.priority ≤ e'.priority := by
  obtain ⟨⟨i, e⟩, hfind, rfl⟩ := Option.map_eq_some_iff.mp hf
  obtain ⟨hget, hwanted, -⟩ := findFirst_eq_some hfind
  have he : e ∈ policies := List.mem_of_getElem? hget
  -- the list is ordered, so the first entry wanted is a least one
  have hleast := findFirst_rel_of_pairwise (fun x => UInt32.le_refl x.priority) h.sorted hfind
  simp only [IpsecPolicyEntry.wanted, Bool.and_eq_true, beq_iff_eq, Bool.or_eq_true] at hwanted
  obtain ⟨⟨hdir, hmatch⟩, hreqid⟩ := hwanted
  refine ⟨e, he, rfl, ?_, hmatch, ?_, hleast⟩
  · -- no entry forwards: an entry that is not inbound is outbound
    have hfwd := (h.valid e he).notFwd
    revert hdir hfwd
    generalize e.policy.direction = d
    cases inbound <;> cases d <;> decide
  · rcases hreqid with h0 | h0
    · exact Or.inl h0
    · exact Or.inr h0.symm

/-- Nothing is found only when no entry is wanted. -/
theorem findByPacket_eq_none {packet : IpPacket} {inbound : Bool} {reqid : UInt32}
    (hf : findByPacket policies packet inbound reqid = none) :
    ∀ e ∈ policies, e.wanted packet inbound reqid = false :=
  findFirst_eq_none (Option.map_eq_none_iff.mp hf)

end Calls

/-! ## 4. Every run -/

/-- What the manager guarantees of a list: it is ordered by priority; an IPsec policy
that does not forward makes it one longer; a deletion of an IPsec policy that does not
forward removes the first entry that matches it and no other, or fails and leaves the
list when none matches; an ignored deletion leaves the list; and `find_by_packet` finds
an entry of the direction asked for, matching the packet and the reqid, of least
priority among those it could take, or nothing when none fits. -/
structure PolicyMgrSound (policies : List IpsecPolicyEntry) : Prop where
  sorted : policies.Pairwise fun e e' => e.priority ≤ e'.priority
  add_length : ∀ srcTs dstTs direction reqid mark priority, direction ≠ .policyFwd →
    (addPolicy policies srcTs dstTs direction .policyIpsec reqid mark priority).2.length =
      policies.length + 1
  del_found : ∀ srcTs dstTs direction reqid mark priority, srcTs.WellFormed → dstTs.WellFormed →
    direction ≠ .policyFwd →
    (∃ e ∈ policies, e.policy.matches srcTs dstTs direction reqid mark priority = true) →
    ∃ xs e ys, policies = xs ++ e :: ys ∧
      (∀ x ∈ xs, x.policy.matches srcTs dstTs direction reqid mark priority = false) ∧
      e.policy.matches srcTs dstTs direction reqid mark priority = true ∧
      delPolicy policies srcTs dstTs direction .policyIpsec reqid mark priority = (.ok (), xs ++ ys)
  del_missing : ∀ srcTs dstTs direction reqid mark priority, direction ≠ .policyFwd →
    (∀ e ∈ policies, e.policy.matches srcTs dstTs direction reqid mark priority = false) →
    delPolicy policies srcTs dstTs direction .policyIpsec reqid mark priority =
      (.error .failed, policies)
  del_ignored : ∀ srcTs dstTs direction type reqid mark priority,
    type ≠ .policyIpsec ∨ direction = .policyFwd →
    delPolicy policies srcTs dstTs direction type reqid mark priority = (.ok (), policies)
  find_some : ∀ packet inbound reqid policy, findByPacket policies packet inbound reqid = some policy →
    ∃ e ∈ policies, e.policy = policy ∧
      policy.direction = (if inbound then .policyIn else .policyOut) ∧
      policy.matchPacket packet = true ∧ (reqid = 0 ∨ policy.reqid = reqid) ∧
      ∀ e' ∈ policies, e'.wanted packet inbound reqid = true → e.priority ≤ e'.priority
  find_none : ∀ packet inbound reqid, findByPacket policies packet inbound reqid = none →
    ∀ e ∈ policies, e.wanted packet inbound reqid = false

/-- **The policy manager along every run** of `add_policy`, `del_policy` and
`flush_policies` calls with selectors the program builds. -/
theorem policyMgr_sound {ops : List PolicyMgrOp} (hops : ∀ op ∈ ops, op.WellFormed) :
    PolicyMgrSound (runOps ops []) := by
  have h := runOps_inv Inv.nil hops
  refine ⟨h.sorted, fun _ _ _ _ _ _ hdir => length_addPolicy hdir,
    fun _ _ _ _ _ _ hs hd hdir hm => delPolicy_of_matches h hs hd hdir hm,
    fun _ _ _ _ _ _ hdir hm => delPolicy_of_not_matches hdir hm, ?_,
    fun _ _ _ _ hf => findByPacket_least h hf, fun _ _ _ hf => findByPacket_eq_none hf⟩
  intro _ _ _ _ _ _ _ hign
  unfold delPolicy
  rw [if_pos hign]

/-- The selector of every IPv4 address and port is one the constructors build. -/
theorem wellFormed_anyIpv4 : anyIpv4.WellFormed := ⟨rfl, rfl, by decide, fun h => absurd h (by decide)⟩

/-- Two policies for all IPv4 traffic, out and in, installed and the first deleted. -/
theorem policyMgr_sound_install :
    (∀ op ∈ [PolicyMgrOp.addPolicy anyIpv4 anyIpv4 .policyOut .policyIpsec 1 ⟨0, 0⟩
          .policyPriorityDefault,
        .addPolicy anyIpv4 anyIpv4 .policyIn .policyIpsec 1 ⟨0, 0⟩ .policyPriorityDefault,
        .delPolicy anyIpv4 anyIpv4 .policyOut .policyIpsec 1 ⟨0, 0⟩ .policyPriorityDefault],
        op.WellFormed) ∧
      PolicyMgrSound (runOps [.addPolicy anyIpv4 anyIpv4 .policyOut .policyIpsec 1 ⟨0, 0⟩
          .policyPriorityDefault,
        .addPolicy anyIpv4 anyIpv4 .policyIn .policyIpsec 1 ⟨0, 0⟩ .policyPriorityDefault,
        .delPolicy anyIpv4 anyIpv4 .policyOut .policyIpsec 1 ⟨0, 0⟩ .policyPriorityDefault] []) :=
  have hops : ∀ op ∈ [PolicyMgrOp.addPolicy anyIpv4 anyIpv4 .policyOut .policyIpsec 1 ⟨0, 0⟩
          .policyPriorityDefault,
        .addPolicy anyIpv4 anyIpv4 .policyIn .policyIpsec 1 ⟨0, 0⟩ .policyPriorityDefault,
        .delPolicy anyIpv4 anyIpv4 .policyOut .policyIpsec 1 ⟨0, 0⟩ .policyPriorityDefault],
        op.WellFormed := by
    intro op hop
    simp only [List.mem_cons, List.not_mem_nil, or_false] at hop
    rcases hop with rfl | rfl | rfl <;> exact ⟨wellFormed_anyIpv4, wellFormed_anyIpv4⟩
  ⟨hops, policyMgr_sound hops⟩

/-- `del_policy` of a pass policy answers `SUCCESS` and removes nothing, though an
installed IPsec policy has the selectors, direction, reqid, mark and priority class it
names; with nothing installed it answers `SUCCESS` all the same. -/
theorem delPolicy_pass_keeps :
    (∃ e ∈ runOps [.addPolicy anyIpv4 anyIpv4 .policyOut .policyIpsec 1 ⟨0, 0⟩
          .policyPriorityDefault] [],
        e.policy.matches anyIpv4 anyIpv4 .policyOut 1 ⟨0, 0⟩ .policyPriorityDefault = true) ∧
      delPolicy (runOps [.addPolicy anyIpv4 anyIpv4 .policyOut .policyIpsec 1 ⟨0, 0⟩
          .policyPriorityDefault] []) anyIpv4 anyIpv4 .policyOut .policyPass 1 ⟨0, 0⟩
          .policyPriorityDefault =
        (.ok (), runOps [.addPolicy anyIpv4 anyIpv4 .policyOut .policyIpsec 1 ⟨0, 0⟩
          .policyPriorityDefault] []) ∧
      delPolicy [] anyIpv4 anyIpv4 .policyOut .policyPass 1 ⟨0, 0⟩ .policyPriorityDefault =
        (.ok (), []) := by
  decide

/-! ## 5. The data path over the manager's policies -/

/-- The policies the manager installs discharge what the outbound data path assumes:
a packet sent was encrypted under the first outbound SA of the reqid of the first
outbound policy that matches it. -/
theorem sendAuthorised_of_runOps {ops : List PolicyMgrOp} (hops : ∀ op ∈ ops, op.WellFormed)
    {st : IpsecState} (hst : st.policies = runOps ops []) {packet : IpPacket} {i : ℕ}
    {esp : EspPacket} {encap : Bool} (h : (processOutbound st packet).2 = some (i, esp, encap)) :
    SendAuthorised st packet i esp := by
  have hinv := runOps_inv Inv.nil hops
  refine sendAuthorised_of_notFwd (fun e he => ?_) h
  rw [hst] at he
  exact (hinv.valid e he).notFwd

/-- Policies for all IPv4 traffic, out and in. -/
def anyIpv4Ops : List PolicyMgrOp :=
  [.addPolicy anyIpv4 anyIpv4 .policyOut .policyIpsec 1 ⟨0, 0⟩ .policyPriorityDefault,
    .addPolicy anyIpv4 anyIpv4 .policyIn .policyIpsec 1 ⟨0, 0⟩ .policyPriorityDefault]

/-- The SAs of `exampleState` under the policies the manager installs from `anyIpv4Ops`. -/
def managedState : IpsecState := { exampleState with policies := runOps anyIpv4Ops [] }

/-- Under the manager's policies the echo request is sent under the outbound SA. -/
theorem sendAuthorised_of_runOps_echo :
    ∃ esp encap, (processOutbound managedState icmpPacket).2 = some (1, esp, encap) ∧
      SendAuthorised managedState icmpPacket 1 esp := by
  have hops : ∀ op ∈ anyIpv4Ops, op.WellFormed := by
    intro op hop
    simp only [anyIpv4Ops, List.mem_cons, List.not_mem_nil, or_false] at hop
    rcases hop with rfl | rfl <;> exact ⟨wellFormed_anyIpv4, wellFormed_anyIpv4⟩
  exact ⟨_, _, rfl, sendAuthorised_of_runOps hops rfl rfl⟩

end VpnClient.Ipsec
