import VpnClient.Ipsec.IpPacket
import VpnClient.Lib.Bytes

/-!
# Traffic selectors

`traffic_selector_t` (`libstrongswan/selectors/traffic_selector.c`): a range of
addresses of one family, a range of ports and a protocol. The address range caches
its prefix length in `netbits`, `255` when the range is no subnet; a dynamic selector
stands for the host's own address until `set_address` gives it one.

The selector keeps its addresses in two arrays of 16 bytes, of which only the first
`TS_IP_LEN` are ever read: the model keeps those bytes only. The ICMP protocols keep
the message type in the high byte of a port and the code in the low one, and
`traffic_selector_create` moves a port below `256` into the high byte, for every
selector it builds, also for the one `get_subset` returns and for a clone.

Left out: the getters, `is_host`, `hash`, and the printing hook.
-/

namespace VpnClient.Ipsec

open VpnClient.Lib Bytes

/-- The address range types of `ts_type_t`. -/
inductive TsType
  | ipv4AddrRange
  | ipv6AddrRange
  deriving DecidableEq, Repr

namespace TsType

/-- The numbers of `ts_type_t`, compared by `traffic_selector_cmp`:
`TS_IPV4_ADDR_RANGE = 7`, `TS_IPV6_ADDR_RANGE = 8`. -/
def code : TsType → ℕ
  | ipv4AddrRange => 7
  | ipv6AddrRange => 8

/-- `TS_IP_LEN`: the length of an address of the type. -/
def ipLen : TsType → ℕ
  | ipv4AddrRange => 4
  | ipv6AddrRange => 16

@[simp] theorem ipLen_pos (t : TsType) : 0 < t.ipLen := by cases t <;> decide

theorem ipLen_le (t : TsType) : t.ipLen ≤ 16 := by cases t <;> decide

theorem code_inj {t t' : TsType} (h : t.code = t'.code) : t = t' := by
  cases t <;> cases t' <;> first | rfl | cases h

end TsType

/-- `IPPROTO_ICMP`. -/
def ipprotoIcmp : UInt8 := 1
/-- `IPPROTO_ICMPV6`. -/
def ipprotoIcmpv6 : UInt8 := 58

/-- `NON_SUBNET_ADDRESS_RANGE`: the `netbits` of an address range that is no subnet. -/
def nonSubnetAddressRange : UInt8 := 255

/-- `private_traffic_selector_t`. -/
structure TrafficSelector where
  type : TsType
  protocol : UInt8
  dynamic : Bool
  netbits : UInt8
  fromAddr : List UInt8
  toAddr : List UInt8
  fromPort : UInt16
  toPort : UInt16
  deriving DecidableEq, Repr

/-- `memcmp` over the bytes of the shorter operand. -/
def memcmp : List UInt8 → List UInt8 → Ordering
  | a :: as, b :: bs => if a = b then memcmp as bs else compare a b
  | _, _ => .eq

/-- At equal lengths `memcmp` compares the addresses as numbers. -/
theorem memcmp_eq_compare : ∀ {a b : List UInt8}, a.length = b.length →
    memcmp a b = compare (value a) (value b)
  | [], [], _ => rfl
  | x :: xs, y :: ys, h => by
    have h' : xs.length = ys.length := by simpa using h
    simp only [memcmp]
    split
    · rename_i hxy
      subst hxy
      rw [memcmp_eq_compare h', compare_value_cons_self h']
    · rename_i hxy
      rw [compare_value_cons_of_ne h' hxy, UInt8.compare_eq_toNat_compare_toNat]

namespace TrafficSelector

/-! ## 1. Construction -/

/-- The port `traffic_selector_create` stores for an ICMP protocol: a port below
`256` is an ICMP type, moved into the high byte. -/
def icmpPort (port : UInt16) : UInt16 := if port < 256 then port <<< 8 else port

/-- `traffic_selector_create`, the internal constructor: the protocol, the type and
the ports, with the ICMP ports moved; `INIT` leaves the addresses zero. -/
def trafficSelectorCreate (protocol : UInt8) (type : TsType) (fromPort toPort : UInt16) :
    TrafficSelector :=
  let ts : TrafficSelector := ⟨type, protocol, false, 0, List.replicate type.ipLen 0,
    List.replicate type.ipLen 0, fromPort, toPort⟩
  if protocol = ipprotoIcmp ∨ protocol = ipprotoIcmpv6 then
    { ts with fromPort := icmpPort fromPort, toPort := icmpPort toPort }
  else ts

/-- A port is moved once: a port below `256` lands at `256` or above, or stays `0`. -/
theorem icmpPort_icmpPort (port : UInt16) : icmpPort (icmpPort port) = icmpPort port := by
  unfold icmpPort
  by_cases h : port < 256
  · have hs : (port <<< 8).toNat = port.toNat * 256 := by
      rw [UInt16.toNat_shiftLeft]
      rw [UInt16.lt_iff_toNat_lt] at h
      simp [Nat.shiftLeft_eq] at h ⊢
      omega
    rw [if_pos h]
    split_ifs with h'
    · -- only `0` stays below `256`
      have h0 : port = 0 := by
        rw [UInt16.lt_iff_toNat_lt, hs] at h'
        apply UInt16.toNat_inj.mp
        simp at h' ⊢
        omega
      subst h0
      rfl
    · rfl
  · rw [if_neg h, if_neg h]

/-- The protocols whose ports `traffic_selector_create` moves. -/
def IsIcmp (protocol : UInt8) : Prop := protocol = ipprotoIcmp ∨ protocol = ipprotoIcmpv6

instance (protocol : UInt8) : Decidable (IsIcmp protocol) := inferInstanceAs (Decidable (_ ∨ _))

/-- Ports `traffic_selector_create` leaves as they are for an ICMP protocol. -/
def PortsKept (ts : TrafficSelector) : Prop :=
  icmpPort ts.fromPort = ts.fromPort ∧ icmpPort ts.toPort = ts.toPort

instance (ts : TrafficSelector) : Decidable (PortsKept ts) := inferInstanceAs (Decidable (_ ∧ _))

/-- The ports of an ICMP selector as `traffic_selector_create` leaves them. -/
def IcmpPorts (ts : TrafficSelector) : Prop := IsIcmp ts.protocol → PortsKept ts

section Create

variable (protocol : UInt8) (type : TsType) (fromPort toPort : UInt16)

@[simp] theorem trafficSelectorCreate_type : (trafficSelectorCreate protocol type fromPort toPort).type = type := by
  unfold trafficSelectorCreate; split <;> rfl

@[simp] theorem trafficSelectorCreate_protocol :
    (trafficSelectorCreate protocol type fromPort toPort).protocol = protocol := by
  unfold trafficSelectorCreate; split <;> rfl

theorem trafficSelectorCreate_fromPort : (trafficSelectorCreate protocol type fromPort toPort).fromPort =
    if IsIcmp protocol then icmpPort fromPort else fromPort := by
  unfold trafficSelectorCreate IsIcmp; split <;> simp_all

theorem trafficSelectorCreate_toPort : (trafficSelectorCreate protocol type fromPort toPort).toPort =
    if IsIcmp protocol then icmpPort toPort else toPort := by
  unfold trafficSelectorCreate IsIcmp; split <;> simp_all

/-- `traffic_selector_create` leaves ICMP ports as it would leave them again. -/
theorem trafficSelectorCreate_icmpPorts :
    IcmpPorts (trafficSelectorCreate protocol type fromPort toPort) := by
  intro hicmp
  rw [trafficSelectorCreate_protocol] at hicmp
  rw [PortsKept, trafficSelectorCreate_fromPort, trafficSelectorCreate_toPort, if_pos hicmp,
    if_pos hicmp]
  exact ⟨icmpPort_icmpPort fromPort, icmpPort_icmpPort toPort⟩

/-- Ports the constructor would leave alone come back as given. -/
theorem trafficSelectorCreate_ports_of (h : IsIcmp protocol → icmpPort fromPort = fromPort ∧
    icmpPort toPort = toPort) :
    (trafficSelectorCreate protocol type fromPort toPort).fromPort = fromPort ∧
      (trafficSelectorCreate protocol type fromPort toPort).toPort = toPort := by
  rw [trafficSelectorCreate_fromPort, trafficSelectorCreate_toPort]
  by_cases hicmp : IsIcmp protocol
  · rw [if_pos hicmp, if_pos hicmp]
    exact h hicmp
  · rw [if_neg hicmp, if_neg hicmp]
    exact ⟨rfl, rfl⟩

end Create

/-- `calc_range`: the subnet of the first `netbits` bits of `from`. The first `bytes`
bytes of `from` are copied to `to`, the bytes after them cleared in `from` and set in
`to`, and the host bits of the last copied byte cleared and set under `mask`. -/
def calcRange (ts : TrafficSelector) (netbits : UInt8) : TrafficSelector :=
  let len := ts.type.ipLen
  let bytes := (netbits.toNat + 7) / 8
  let bits := bytes * 8 - netbits.toNat
  let mask : UInt8 := if bits ≠ 0 then ((1 : UInt8) <<< bits.toUInt8) - 1 else 0
  let fromAddr := ts.fromAddr.take bytes ++ List.replicate (len - bytes) 0
  let toAddr := ts.fromAddr.take bytes ++ List.replicate (len - bytes) 0xff
  if bytes ≠ 0 then
    { ts with
      netbits := netbits
      fromAddr := fromAddr.set (bytes - 1) (fromAddr.getD (bytes - 1) 0 &&& ~~~mask)
      toAddr := toAddr.set (bytes - 1) (toAddr.getD (bytes - 1) 0 ||| mask) }
  else { ts with netbits := netbits, fromAddr := fromAddr, toAddr := toAddr }

/-- The two loops of `calc_netbits` run as one, over the bit positions
`8 * byte + (7 - bit)` from the most significant bit of the addresses on. `matching`
is the flag `prefix`, and `netbits` the prefix length found; the result is the value
returned and the one left in `this->netbits`. -/
def calcNetbitsLoop (src dst : List UInt8) : List ℕ → Bool → UInt8 → UInt8 × UInt8
  | [], _, netbits => (netbits, netbits)
  | idx :: rest, matching, netbits =>
    let bitmask : UInt8 := 1 <<< (7 - idx % 8).toUInt8
    if matching then
      if bitmask &&& src.getD (idx / 8) 0 ≠ bitmask &&& dst.getD (idx / 8) 0 then
        -- the common prefix, which might be a true subnet
        calcNetbitsLoop src dst rest false idx.toUInt8
      else calcNetbitsLoop src dst rest true netbits
    else if bitmask &&& src.getD (idx / 8) 0 ≠ 0 ∨ bitmask &&& dst.getD (idx / 8) 0 = 0 then
      -- a pseudo subnet
      (netbits, nonSubnetAddressRange)
    else calcNetbitsLoop src dst rest false netbits

/-- `calc_netbits`: the length of the common prefix of `from` and `to`, returned,
and stored in `netbits` unless the range is no subnet. -/
def calcNetbits (ts : TrafficSelector) : UInt8 × TrafficSelector :=
  let size := ts.type.ipLen
  let r := calcNetbitsLoop ts.fromAddr ts.toAddr (List.range (size * 8)) true (size * 8).toUInt8
  (r.1, { ts with netbits := r.2 })

/-- `traffic_selector_create_from_bytes`: addresses of the type's length, or none. -/
def createFromBytes (protocol : UInt8) (type : TsType) (fromAddr : List UInt8)
    (fromPort : UInt16) (toAddr : List UInt8) (toPort : UInt16) : Option TrafficSelector :=
  let ts := trafficSelectorCreate protocol type fromPort toPort
  if fromAddr.length ≠ toAddr.length ∨ fromAddr.length ≠ type.ipLen then none
  else some (calcNetbits { ts with fromAddr := fromAddr, toAddr := toAddr }).2

/-- `traffic_selector_create_from_rfc3779_format`: the two addresses as ASN.1 bit
strings, a byte of unused bits and the bytes given; `from` is filled up with `0`s and
`to` with `1`s, also in its unused bits. -/
def createFromRfc3779Format (type : TsType) (fromChunk toChunk : List UInt8) : TrafficSelector :=
  let ts := trafficSelectorCreate 0 type 0 65535
  let len := type.ipLen
  let fromAddr :=
    if fromChunk.length > 1 then (fromChunk.drop 1 ++ List.replicate len 0).take len
    else List.replicate len 0
  let toAddr :=
    if toChunk.length > 1 then
      let mask : UInt8 :=
        if toChunk.getD 0 0 ≠ 0 then UInt8.ofNat (2 ^ (toChunk.getD 0 0).toNat - 1) else 0
      let a := (toChunk.drop 1 ++ List.replicate len 0xff).take len
      a.set (toChunk.length - 2) (a.getD (toChunk.length - 2) 0 ||| mask)
    else List.replicate len 0xff
  (calcNetbits { ts with fromAddr := fromAddr, toAddr := toAddr }).2

/-- `traffic_selector_create_from_subnet`: the subnet of `net` with a prefix of
`netbits` bits, at most the address length. -/
def createFromSubnet (net : Host) (netbits protocol : UInt8) (fromPort toPort : UInt16) :
    TrafficSelector :=
  let type := if net.family = .inet then TsType.ipv4AddrRange else .ipv6AddrRange
  let ts := trafficSelectorCreate protocol type fromPort toPort
  calcRange { ts with fromAddr := net.address } (min netbits (type.ipLen * 8).toUInt8)

/-- `traffic_selector_create_from_string`, over the address parser `inet_pton` of
the C library. -/
def createFromString (inetPton : Family → String → Option (List UInt8)) (protocol : UInt8)
    (type : TsType) (fromAddr : String) (fromPort : UInt16) (toAddr : String)
    (toPort : UInt16) : Option TrafficSelector :=
  let family := if type = .ipv4AddrRange then Family.inet else .inet6
  let ts := trafficSelectorCreate protocol type fromPort toPort
  match inetPton family fromAddr, inetPton family toAddr with
  | some src, some dst => some (calcNetbits { ts with fromAddr := src, toAddr := dst }).2
  | _, _ => none

/-- `traffic_selector_create_from_cidr`, over `host_create_from_subnet`, which reads
a subnet as a host and an `int` prefix length; the length is passed on as a
`uint8_t`. -/
def createFromCidr (hostCreateFromSubnet : String → Option (Host × ℤ)) (string : String)
    (protocol : UInt8) (fromPort toPort : UInt16) : Option TrafficSelector :=
  (hostCreateFromSubnet string).map fun (net, bits) =>
    createFromSubnet net (UInt8.ofInt bits) protocol fromPort toPort

/-- `traffic_selector_create_dynamic`: every IPv4 address until `set_address`. -/
def createDynamic (protocol : UInt8) (fromPort toPort : UInt16) : TrafficSelector :=
  { trafficSelectorCreate protocol .ipv4AddrRange fromPort toPort with
    fromAddr := List.replicate 4 0, toAddr := List.replicate 4 0xff, netbits := 0,
    dynamic := true }

/-- `clone_`: a new selector with the ports given again to the constructor, and the
rest copied. -/
def clone (ts : TrafficSelector) : TrafficSelector :=
  { trafficSelectorCreate ts.protocol ts.type ts.fromPort ts.toPort with
    netbits := ts.netbits, dynamic := ts.dynamic, fromAddr := ts.fromAddr,
    toAddr := ts.toAddr }

/-- A clone of a selector whose ICMP ports are as the constructor leaves them is the
selector. -/
theorem clone_eq {ts : TrafficSelector} (h : IcmpPorts ts) : ts.clone = ts := by
  obtain ⟨hf, ht⟩ := trafficSelectorCreate_ports_of ts.protocol ts.type ts.fromPort ts.toPort h
  cases ts
  simp only [clone] at hf ht ⊢
  rw [hf, ht]
  simp

/-- `set_address`: the selector narrowed to `host`, or to every address of its family
when `host` is the any-address. -/
def setAddress (ts : TrafficSelector) (host : Host) : TrafficSelector :=
  let type := if host.family = .inet then TsType.ipv4AddrRange else .ipv6AddrRange
  if host.isAnyaddr then
    { ts with
      type, fromAddr := List.replicate type.ipLen 0, toAddr := List.replicate type.ipLen 0xff,
      netbits := 0, dynamic := false }
  else
    { ts with
      type, fromAddr := host.address, toAddr := host.address,
      netbits := (host.address.length * 8).toUInt8, dynamic := false }

@[simp] theorem clone_dynamic (ts : TrafficSelector) : ts.clone.dynamic = ts.dynamic := rfl

@[simp] theorem setAddress_dynamic (ts : TrafficSelector) (host : Host) :
    (ts.setAddress host).dynamic = false := by
  unfold setAddress; split_ifs <;> rfl

/-! ## 2. Comparison and intersection -/

/-- `is_opaque`: the port pair `65535-0` of a selector of the packets whose ports
are not known. -/
def isOpaque (ts : TrafficSelector) : Bool := ts.fromPort = 0xffff ∧ ts.toPort = 0

/-- `is_any`: the port pair `0-65535`. -/
def isAny (ts : TrafficSelector) : Bool := ts.fromPort = 0 ∧ ts.toPort = 0xffff

/-- `traffic_selector_cmp`, the sign of its result: the type, then the lower `from`,
the higher `to`, the lower protocol, the lower `from_port` and the higher `to_port`
first. -/
def trafficSelectorCmp (a b : TrafficSelector) : Ordering :=
  (compare a.type.code b.type.code).then <|
    (memcmp a.fromAddr b.fromAddr).then <|
      (memcmp b.toAddr a.toAddr).then <|
        (compare a.protocol b.protocol).then <|
          (compare a.fromPort b.fromPort).then (compare b.toPort a.toPort)

/-- `equals`: `traffic_selector_cmp` answers `0`. -/
def equals (ts other : TrafficSelector) : Bool := trafficSelectorCmp ts other = .eq

/-- Whether `get_subset` gives the OPAQUE pair: one side OPAQUE and the other OPAQUE
or ANY. -/
def opaqueSubset (ts other : TrafficSelector) : Bool :=
  (ts.isOpaque && other.isOpaque) || (ts.isOpaque && other.isAny) || (other.isOpaque && ts.isAny)

/-- The ports `get_subset` gives: the OPAQUE pair, or the widest range within both. -/
def subsetPorts (ts other : TrafficSelector) : UInt16 × UInt16 :=
  if opaqueSubset ts other then (0xffff, 0)
  else (max ts.fromPort other.fromPort, min ts.toPort other.toPort)

/-- `get_subset`'s `from`: the higher of the two by `memcmp`. -/
def higherAddr (a b : List UInt8) : List UInt8 := if memcmp a b = .gt then a else b

/-- `get_subset`'s `to`: the lower of the two by `memcmp`. -/
def lowerAddr (a b : List UInt8) : List UInt8 := if memcmp a b = .gt then b else a

/-- `get_subset`: the selector of what both select, or none. The protocol is the
one that is not zero, the ports are `subsetPorts`, and the addresses run from the
higher `from` to the lower `to`; the subset is built by `traffic_selector_create`. -/
def getSubset (ts other : TrafficSelector) : Option TrafficSelector :=
  if ts.dynamic ∨ other.dynamic then none
  else if ts.type ≠ other.type then none
  else if ts.protocol ≠ other.protocol ∧ ts.protocol ≠ 0 ∧ other.protocol ≠ 0 then none
  else
    let protocol := max ts.protocol other.protocol
    let ports := subsetPorts ts other
    if opaqueSubset ts other = false ∧ ports.1 > ports.2 then none
    else
      let fromAddr := higherAddr ts.fromAddr other.fromAddr
      let toAddr := lowerAddr ts.toAddr other.toAddr
      if memcmp fromAddr toAddr = .gt then none
      else some (calcNetbits
        { trafficSelectorCreate protocol ts.type ports.1 ports.2 with
          fromAddr := fromAddr, toAddr := toAddr }).2

/-- What `get_subset` checked and what it built, when it returns a selector. -/
theorem getSubset_eq_some {a b s : TrafficSelector} (h : getSubset a b = some s) :
    a.dynamic = false ∧ b.dynamic = false ∧ a.type = b.type ∧
      ¬ (a.protocol ≠ b.protocol ∧ a.protocol ≠ 0 ∧ b.protocol ≠ 0) ∧
      ¬ (opaqueSubset a b = false ∧ (subsetPorts a b).1 > (subsetPorts a b).2) ∧
      memcmp (higherAddr a.fromAddr b.fromAddr) (lowerAddr a.toAddr b.toAddr) ≠ .gt ∧
      s = (calcNetbits
        { trafficSelectorCreate (max a.protocol b.protocol) a.type (subsetPorts a b).1
            (subsetPorts a b).2 with
          fromAddr := higherAddr a.fromAddr b.fromAddr
          toAddr := lowerAddr a.toAddr b.toAddr }).2 := by
  unfold getSubset at h
  dsimp only at h
  split at h
  · cases h
  rename_i hdyn
  split at h
  · cases h
  rename_i htype
  split at h
  · cases h
  rename_i hproto
  split at h
  · cases h
  rename_i hports
  split at h
  · cases h
  rename_i haddr
  cases h
  simp only [not_or, Bool.not_eq_true] at hdyn
  exact ⟨hdyn.1, hdyn.2, not_not.mp htype, hproto, hports, haddr, rfl⟩

/-- `is_contained_in`: the subset with `other` is the selector itself. -/
def isContainedIn (ts other : TrafficSelector) : Bool :=
  match getSubset ts other with
  | some subset => subset.equals ts
  | none => false

/-! ## 3. Hosts and subnets -/

/-- `includes`: an address of the selector's family inside its range. -/
def includes (ts : TrafficSelector) (host : Host) : Bool :=
  if (host.family = .inet ∧ ts.type = .ipv4AddrRange) ∨
      (host.family = .inet6 ∧ ts.type = .ipv6AddrRange) then
    memcmp ts.fromAddr host.address ≠ .gt ∧ memcmp ts.toAddr host.address ≠ .lt
  else false

/-- `match_port` of `ipsec_policy.c`: a port inside the selector's port range;
`0-65535` and the reversed `65535-0` (OPAQUE) match any port. -/
def matchPort (ts : TrafficSelector) (host : Host) : Bool :=
  if (ts.fromPort = 0 ∧ ts.toPort = 0xffff) ∨ (ts.fromPort = 0xffff ∧ ts.toPort = 0) then true
  else ts.fromPort ≤ host.port ∧ host.port ≤ ts.toPort

/-- What `to_subnet` hands back: its result, `*net` and `*mask`. -/
structure ToSubnet where
  isSubnet : Bool
  net : Host
  mask : UInt8
  deriving DecidableEq, Repr

/-- The network `to_subnet` builds: the first `mask` bits of `from`, the other bits
cleared. -/
def netChunk (fromAddr : List UInt8) (len : ℕ) (mask : UInt8) : List UInt8 :=
  if mask ≠ 0 then
    let nonZeroBytes := (mask.toNat + 7) / 8
    let c := fromAddr.take nonZeroBytes ++ List.replicate (len - nonZeroBytes) 0
    c.set (nonZeroBytes - 1)
      (c.getD (nonZeroBytes - 1) 0 &&& UInt8.ofNat (0xff <<< (8 * nonZeroBytes - mask.toNat)))
  else List.replicate len 0

/-- `to_subnet`: the prefix length, the cached one or `calc_netbits`' (which stores
`netbits` again), and the network of `netChunk`; the port is the one port of a range
of one. The selector comes back with what `calc_netbits` stored. -/
def toSubnet (ts : TrafficSelector) : ToSubnet × TrafficSelector :=
  let r := if ts.netbits = nonSubnetAddressRange then calcNetbits ts else (ts.netbits, ts)
  let family := if ts.type = .ipv4AddrRange then Family.inet else .inet6
  let port := if ts.toPort = ts.fromPort then ts.toPort else 0
  (⟨r.2.netbits ≠ nonSubnetAddressRange, ⟨family, netChunk ts.fromAddr ts.type.ipLen r.1, port⟩,
    r.1⟩, r.2)

end TrafficSelector

end VpnClient.Ipsec
