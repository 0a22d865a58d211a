import VpnClient.Lib.ByteReader

/-!
# Hosts and IP packets

`host_t` (`libstrongswan/networking/host.c`), as far as libipsec uses it: an address
of one family with a port, compared by `ip_equals`. `ip_packet_t`
(`libipsec/ip_packet.c`): `ip_packet_create` parses an IPv4 or IPv6 packet from its
bytes. It cuts off any RFC 4303 TFC padding behind the length the header gives,
skips IPv6 extension headers, and reads the ports of UDP and TCP headers. As in the
source, the header fields are read through the original bytes and the payload from
the cut ones.

The result the ESP round trip needs is that a packet parsed again from its own
encoding comes out the same (`ipPacketCreate_encoding`). It holds for every IPv6
packet, but for IPv4 only when the encoding still holds the whole 20-byte header:
`ip_packet_create` accepts an IPv4 header whose total length is below 20, cuts the
packet to that length, and refuses anything shorter than 20 bytes
(`ipPacketCreate_of_length_lt`).
-/

namespace VpnClient.Ipsec

open VpnClient.Lib ByteReader

/-! ## 1. Hosts -/

/-- `AF_INET` and `AF_INET6`. -/
inductive Family
  | inet
  | inet6
  deriving DecidableEq, Repr

/-- `host_t`: an address of 4 or 16 bytes and a port. -/
structure Host where
  family : Family
  address : List UInt8
  port : UInt16
  deriving DecidableEq, Repr

/-- The address length of a family: `IPV4_LEN` and `IPV6_LEN`. -/
def Family.addrLen : Family → ℕ
  | inet => 4
  | inet6 => 16

namespace Host

/-- A host as the constructors of `host_t` build it: an address of its family's
length. -/
def WellFormed (h : Host) : Prop := h.address.length = h.family.addrLen

/-- `is_anyaddr`: the address of all zero bytes. -/
def isAnyaddr (h : Host) : Bool := h.address.all (· = 0)

/-- `ip_equals`: the same address, ports aside; `0.0.0.0` and `::` are equal. -/
def ipEquals (h other : Host) : Bool :=
  if h.family ≠ other.family then h.isAnyaddr && other.isAnyaddr
  else h.address = other.address

end Host

/-! ## 2. IP packets -/

/-- `IPPROTO_TCP`. -/
def ipprotoTcp : UInt8 := 6
/-- `IPPROTO_UDP`. -/
def ipprotoUdp : UInt8 := 17

/-- `ip_packet_t`: the addresses with the transport ports, the packet's bytes up to
its stated length (`get_encoding`), what follows the IP header, the IP version and
the transport protocol. -/
structure IpPacket where
  src : Host
  dst : Host
  packet : List UInt8
  payload : List UInt8
  version : UInt8
  nextHeader : UInt8
  deriving DecidableEq, Repr

/-- `parse_transport_header`: the source and destination ports of a UDP or TCP
header, which must be complete; other protocols have none. -/
def parseTransportHeader (packet : List UInt8) (proto : UInt8) : Option (UInt16 × UInt16) :=
  if proto = ipprotoUdp then
    if packet.length < 8 then none
    else some (u16OfBytes (packet.getD 0 0) (packet.getD 1 0),
      u16OfBytes (packet.getD 2 0) (packet.getD 3 0))
  else if proto = ipprotoTcp then
    if packet.length < 20 then none
    else some (u16OfBytes (packet.getD 0 0) (packet.getD 1 0),
      u16OfBytes (packet.getD 2 0) (packet.getD 3 0))
  else some (0, 0)

/-- The IPv6 extension headers `parse_transport_header_v6` skips, the fragment
header `44` among them. -/
def ipv6ExtensionHeaders : List UInt8 := [44, 0, 43, 60, 135, 139, 140]

/-- The loop of `parse_transport_header_v6`: skip extension headers while two bytes
remain; then read the ports of the upper layer header, unless a fragment header was
passed. The payload, the protocol and the ports. -/
def parseTransportHeaderV6 (payload : List UInt8) (proto : UInt8) (fragment : Bool) :
    Option (List UInt8 × UInt8 × UInt16 × UInt16) :=
  if h : 2 ≤ payload.length then
    if proto ∈ ipv6ExtensionHeaders then
      parseTransportHeaderV6 (payload.drop (8 * ((payload.getD 1 0).toNat + 1))) (payload.getD 0 0)
        (fragment || proto = 44)
    else if fragment then some (payload, proto, 0, 0)
    else (parseTransportHeader payload proto).map fun ports => (payload, proto, ports)
  else some (payload, proto, 0, 0)
termination_by payload.length
decreasing_by simp only [List.length_drop]; omega

/-- The ports of an IPv4 packet: those of its transport header, unless the packet is
a fragment other than the first (`ip_off & IP_OFFMASK`), which has none. -/
def ipv4Ports (ip payload : List UInt8) : Option (UInt16 × UInt16) :=
  if u16OfBytes (ip.getD 6 0) (ip.getD 7 0) &&& 0x1fff = 0 then parseTransportHeader payload (ip.getD 9 0)
  else some (0, 0)

/-- `ip_packet_create`. -/
def ipPacketCreate (packet : List UInt8) : Option IpPacket :=
  if packet.length < 1 then none
  else
    let ip := packet
    let version := (ip.getD 0 0 &&& 0xf0) >>> 4
    if version = 4 then
      if packet.length < 20 then none
      else do
        -- remove any RFC 4303 TFC extra padding
        let packet := packet.take (min packet.length (u16OfBytes (ip.getD 2 0) (ip.getD 3 0)).toNat)
        let payload := packet.drop ((ip.getD 0 0 &&& 0x0f).toNat * 4)
        let proto := ip.getD 9 0
        let ports ← ipv4Ports ip payload
        some { src := ⟨.inet, (ip.drop 12).take 4, ports.1⟩, dst := ⟨.inet, (ip.drop 16).take 4, ports.2⟩,
               packet, payload, version, nextHeader := proto }
    else if version = 6 then
      if packet.length < 40 then none
      else do
        -- remove any RFC 4303 TFC extra padding
        let packet := packet.take (min packet.length (40 + (u16OfBytes (ip.getD 4 0) (ip.getD 5 0)).toNat))
        let r ← parseTransportHeaderV6 (packet.drop 40) (ip.getD 6 0) false
        some { src := ⟨.inet6, (ip.drop 8).take 16, r.2.2.1⟩, dst := ⟨.inet6, (ip.drop 24).take 16, r.2.2.2⟩,
               packet, payload := r.1, version, nextHeader := r.2.1 }
    else none

/-! ## 3. Parsing a packet's own encoding -/

theorem getD_take_of_lt {l : List UInt8} {i m : ℕ} (h : i < m) : (l.take m).getD i 0 = l.getD i 0 := by
  rw [List.getD_eq_getElem?_getD, List.getD_eq_getElem?_getD, List.getElem?_take_of_lt h]

theorem take_drop_take {l : List UInt8} {m n k : ℕ} (h : n + k ≤ m) :
    ((l.take m).drop n).take k = (l.drop n).take k := by
  rw [List.drop_take, List.take_take]
  congr 1
  omega

theorem ipv4Ports_take {ip payload : List UInt8} {m : ℕ} (hm : 10 ≤ m) :
    ipv4Ports (ip.take m) payload = ipv4Ports ip payload := by
  simp only [ipv4Ports, getD_take_of_lt (show 6 < m by omega), getD_take_of_lt (show 7 < m by omega),
    getD_take_of_lt (show 9 < m by omega)]

/-- Nothing shorter than an IPv4 header parses. -/
theorem ipPacketCreate_of_length_lt {packet : List UInt8} (hs : packet.length < 20) :
    ipPacketCreate packet = none := by
  unfold ipPacketCreate
  dsimp only
  split_ifs <;> first | rfl | omega

/-- **A packet parsed again from its encoding is the same packet**, provided the
encoding of an IPv4 packet still holds its whole header. -/
theorem ipPacketCreate_encoding {data : List UInt8} {p : IpPacket} (h : ipPacketCreate data = some p)
    (hv4 : p.version = 4 → 20 ≤ p.packet.length) : ipPacketCreate p.packet = some p := by
  unfold ipPacketCreate at h
  dsimp only at h
  split_ifs at h with h1 h4 h20 h6 h40
  · -- IPv4: the header lies inside the encoding, and cutting it again cuts nothing
    obtain ⟨ports, hports, ⟨⟩⟩ := Option.bind_eq_some_iff.mp h
    generalize hm : min data.length (u16OfBytes (data.getD 2 0) (data.getD 3 0)).toNat = m at *
    have hlen : (data.take m).length = m := by simp; omega
    have hm20 : 20 ≤ m := hlen ▸ hv4 h4
    unfold ipPacketCreate
    dsimp only
    rw [if_neg (by omega), getD_take_of_lt (show 0 < m by omega), if_pos h4, if_neg (by omega),
      getD_take_of_lt (show 2 < m by omega), getD_take_of_lt (show 3 < m by omega),
      getD_take_of_lt (show 9 < m by omega), hlen, List.take_take,
      show min (min m (u16OfBytes (data.getD 2 0) (data.getD 3 0)).toNat) m = m by omega,
      ipv4Ports_take (by omega), hports]
    simp only [Option.bind_eq_bind, Option.bind_some, take_drop_take (show 12 + 4 ≤ m by omega),
      take_drop_take (show 16 + 4 ≤ m by omega)]
  · -- IPv6: the same, with a 40-byte header
    obtain ⟨r, hr, ⟨⟩⟩ := Option.bind_eq_some_iff.mp h
    generalize hm : min data.length (40 + (u16OfBytes (data.getD 4 0) (data.getD 5 0)).toNat) = m at *
    have hlen : (data.take m).length = m := by simp; omega
    have hm40 : 40 ≤ m := by omega
    unfold ipPacketCreate
    dsimp only
    rw [if_neg (by omega), getD_take_of_lt (show 0 < m by omega), if_neg h4, if_pos h6, if_neg (by omega),
      getD_take_of_lt (show 4 < m by omega), getD_take_of_lt (show 5 < m by omega),
      getD_take_of_lt (show 6 < m by omega), hlen, List.take_take,
      show min (min m (40 + (u16OfBytes (data.getD 4 0) (data.getD 5 0)).toNat)) m = m by omega, hr]
    simp only [Option.bind_eq_bind, Option.bind_some, take_drop_take (show 8 + 16 ≤ m by omega),
      take_drop_take (show 24 + 16 ≤ m by omega)]

end VpnClient.Ipsec
