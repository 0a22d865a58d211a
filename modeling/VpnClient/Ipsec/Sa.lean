import VpnClient.Ipsec.EspPacket
import VpnClient.Lib.LinkedList

/-!
# IPsec SAs and the SA manager

`ipsec_sa_t` (`libipsec/ipsec_sa.c`) and the lookups of `ipsec_sa_mgr.c` the data
path uses. An SA has its SPI, addresses, reqid, direction and ESP context, and counts
the packets and bytes it protected; `update_usestats` expires it softly or hard when
a packet or byte limit is reached. The manager keeps the SAs in one list:
`checkout_by_spi` finds the first SA with an SPI and destination that is not hard
expired, `checkout_by_reqid` the first one with a reqid and direction.

Locking (`wait_for_entry`, `checkin`) orders the threads' accesses to one SA and is
not modelled: a checkout here is the SA's position in the list, and checking in writes
the changed SA back there. The time limits belong to the scheduler and the expire
events to the IKE daemon; neither is modelled.

What the data path needs of `update_usestats` is that it touches only the counters
and the expiry flags (`IpsecSa.updateUsestats_espContext` and its siblings).
-/

namespace VpnClient.Ipsec

open VpnClient.Lib LinkedList

/-- The packet and byte limits of `lifetime_cfg_t`; `0` means none. -/
structure Lifetime where
  packetsLife : UInt64
  packetsRekey : UInt64
  bytesLife : UInt64
  bytesRekey : UInt64

/-- `private_ipsec_sa_t`. -/
structure IpsecSa where
  spi : UInt32
  src : Host
  dst : Host
  reqid : UInt32
  lifetime : Lifetime
  encap : Bool
  inbound : Bool
  espContext : EspContext
  usePackets : UInt64
  useBytes : UInt64
  softExpired : Bool
  hardExpired : Bool

namespace IpsecSa

/-- `expire`: a hard expiry sticks; a soft one only comes before any. -/
def expire (sa : IpsecSa) (hard : Bool) : IpsecSa :=
  if hard then
    if !sa.hardExpired then { sa with hardExpired := true } else sa
  else if !sa.hardExpired && !sa.softExpired then { sa with softExpired := true }
  else sa

/-- `update_usestats`: count one more packet of `bytes` bytes, and expire on the
first limit reached, hard limits first. -/
def updateUsestats (sa : IpsecSa) (bytes : UInt32) : IpsecSa :=
  let sa := { sa with usePackets := sa.usePackets + 1, useBytes := sa.useBytes + bytes.toUInt64 }
  if sa.lifetime.packetsLife ≠ 0 ∧ sa.usePackets ≥ sa.lifetime.packetsLife then sa.expire true
  else if sa.lifetime.bytesLife ≠ 0 ∧ sa.useBytes ≥ sa.lifetime.bytesLife then sa.expire true
  else if sa.lifetime.packetsRekey ≠ 0 ∧ sa.usePackets ≥ sa.lifetime.packetsRekey then sa.expire false
  else if sa.lifetime.bytesRekey ≠ 0 ∧ sa.useBytes ≥ sa.lifetime.bytesRekey then sa.expire false
  else sa

/-- `match_by_spi_dst`. -/
def matchBySpiDst (sa : IpsecSa) (spi : UInt32) (dst : Host) : Bool :=
  sa.spi == spi && sa.dst.ipEquals dst && !sa.hardExpired

/-- `match_by_reqid`. -/
def matchByReqid (sa : IpsecSa) (reqid : UInt32) (inbound : Bool) : Bool :=
  sa.reqid == reqid && sa.inbound == inbound && !sa.hardExpired

/-! ### What expiring leaves alone -/

section Frame

variable (sa : IpsecSa) (b : Bool) (bytes : UInt32)

/-- `expire` sets expiry flags and nothing else. -/
theorem expire_eq : ∃ se he, sa.expire b = { sa with softExpired := se, hardExpired := he } := by
  unfold expire
  split_ifs <;> exact ⟨_, _, rfl⟩

/-- `update_usestats` sets the counters and expiry flags and nothing else. -/
theorem updateUsestats_eq : ∃ packets bytes' se he, sa.updateUsestats bytes =
    { sa with usePackets := packets, useBytes := bytes', softExpired := se, hardExpired := he } := by
  unfold updateUsestats
  dsimp only
  split_ifs
  -- four limits to expire on, or none
  all_goals first
    | obtain ⟨se, he, h⟩ := expire_eq
        { sa with usePackets := sa.usePackets + 1, useBytes := sa.useBytes + bytes.toUInt64 } _
      rw [h]
      exact ⟨_, _, _, _, rfl⟩
    | exact ⟨_, _, _, _, rfl⟩

@[simp] theorem updateUsestats_espContext : (sa.updateUsestats bytes).espContext = sa.espContext := by
  obtain ⟨_, _, _, _, h⟩ := updateUsestats_eq sa bytes
  rw [h]

@[simp] theorem updateUsestats_reqid : (sa.updateUsestats bytes).reqid = sa.reqid := by
  obtain ⟨_, _, _, _, h⟩ := updateUsestats_eq sa bytes
  rw [h]

@[simp] theorem updateUsestats_inbound : (sa.updateUsestats bytes).inbound = sa.inbound := by
  obtain ⟨_, _, _, _, h⟩ := updateUsestats_eq sa bytes
  rw [h]

@[simp] theorem updateUsestats_encap : (sa.updateUsestats bytes).encap = sa.encap := by
  obtain ⟨_, _, _, _, h⟩ := updateUsestats_eq sa bytes
  rw [h]

end Frame

end IpsecSa

/-- `checkout_by_spi`: the first SA for an SPI and destination that is not hard
expired, with its position. -/
def checkoutBySpi (sas : List IpsecSa) (spi : UInt32) (dst : Host) : Option (ℕ × IpsecSa) :=
  findFirst (·.matchBySpiDst spi dst) sas

/-- `checkout_by_reqid`: the first SA for a reqid and direction that is not hard
expired, with its position. -/
def checkoutByReqid (sas : List IpsecSa) (reqid : UInt32) (inbound : Bool) : Option (ℕ × IpsecSa) :=
  findFirst (·.matchByReqid reqid inbound) sas

theorem checkoutBySpi_eq_some {sas : List IpsecSa} {spi : UInt32} {dst : Host} {i : ℕ}
    {sa : IpsecSa} (h : checkoutBySpi sas spi dst = some (i, sa)) :
    sas[i]? = some sa ∧ sa.spi = spi ∧ sa.dst.ipEquals dst = true ∧ sa.hardExpired = false := by
  obtain ⟨hget, hmatch, -⟩ := findFirst_eq_some h
  simp only [IpsecSa.matchBySpiDst, Bool.and_eq_true, beq_iff_eq, Bool.not_eq_eq_eq_not,
    Bool.not_true] at hmatch
  exact ⟨hget, hmatch.1.1, hmatch.1.2, hmatch.2⟩

/-- The SA found for a reqid is the first one of that reqid and direction that is
not hard expired. -/
theorem checkoutByReqid_eq_some {sas : List IpsecSa} {reqid : UInt32} {inbound : Bool} {i : ℕ}
    {sa : IpsecSa} (h : checkoutByReqid sas reqid inbound = some (i, sa)) :
    sas[i]? = some sa ∧ sa.reqid = reqid ∧ sa.inbound = inbound ∧ sa.hardExpired = false ∧
      ∀ j < i, ∀ sa', sas[j]? = some sa' → sa'.matchByReqid reqid inbound = false := by
  obtain ⟨hget, hmatch, hfirst⟩ := findFirst_eq_some h
  simp only [IpsecSa.matchByReqid, Bool.and_eq_true, beq_iff_eq, Bool.not_eq_eq_eq_not,
    Bool.not_true] at hmatch
  exact ⟨hget, hmatch.1.1, hmatch.1.2, hmatch.2, hfirst⟩

end VpnClient.Ipsec
