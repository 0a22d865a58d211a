import VpnClient.Ipsec.IpPacket
import VpnClient.Lib.InternetChecksum

/-!
# Building IP packets around data

`ip_packet_create_from_data` (`libipsec/ip_packet.c`) puts an IP header of the hosts'
family in front of the data: for IPv4 with the total length and the header checksum,
for IPv6 with the payload length. In a UDP or TCP header at the start of the data
`fix_transport_header` writes the hosts' ports that are not `0` and the checksum over
a pseudo header and the data. The bytes are then parsed with `ip_packet_create`.
`ip_packet_create_udp_from_data`, with which the Android DNS proxy injects its
responses, first puts a UDP header with the length and no ports in front of the data.

For hosts of one family and data whose length fits the header's length field, the
packet has the hosts' addresses, the protocol, the data with its ports and checksum
fixed as payload, ports that are the hosts' where they are not `0` and the data's
otherwise, and checksums that verify (`ipPacketCreateFromData_spec`). It is `NULL`
exactly when a UDP or TCP header does not fit in the data, except that for IPv6
`parse_transport_header_v6` reads no transport header from fewer than two bytes: such
data gives a packet, with ports `0` and the data as it was
(`ipPacketCreateFromData_eq_none_iff`, `ipPacketCreateFromData_inet6_short`). That data is
not the complete data after the IP header that `ip_packet.h` asks for, and the only
caller, `ip_packet_create_udp_from_data`, always puts a UDP header in front
(`ipPacketCreateFromData_laws`).
-/

namespace VpnClient.Ipsec

open VpnClient.Lib ByteReader InternetChecksum

/-! ## 1. The headers -/

/-- `htons`: the two bytes of a 16-bit number in network order. -/
def u16Bytes (v : UInt16) : List UInt8 := [(v >>> 8).toUInt8, v.toUInt8]

/-- The pseudo header of `pseudo_header_checksum`, as a little-endian host lays it out:
for IPv6 the 16-bit `htons(payload.len)` fills the first half of the 32-bit length
field. -/
def pseudoHeader (src dst : Host) (proto : UInt8) (len : ℕ) : List UInt8 :=
  match src.family with
  | .inet => src.address ++ dst.address ++ [0, proto] ++ u16Bytes len.toUInt16
  | .inet6 => src.address ++ dst.address ++ u16Bytes len.toUInt16 ++ [0, 0, 0, 0, 0, proto]

/-- `pseudo_header_checksum`. -/
def pseudoHeaderChecksum (src dst : Host) (proto : UInt8) (payload : List UInt8) : UInt16 :=
  checksum (pseudoHeader src dst proto payload.length)

/-- A case of `fix_transport_header`, for a header of `size` bytes with its checksum at
`checkOffset`: the ports of the hosts that are not `0`, then the checksum over the
pseudo header and the payload with the checksum field cleared. -/
def fixHeader (size checkOffset : ℕ) (src dst : Host) (proto : UInt8) (payload : List UInt8) :
    List UInt8 :=
  if payload.length < size then payload
  else
    let payload := if src.port ≠ 0 then setWord payload 0 src.port else payload
    let payload := if dst.port ≠ 0 then setWord payload 2 dst.port else payload
    let payload := setWord payload checkOffset 0
    setWord payload checkOffset (checksumInc payload (pseudoHeaderChecksum src dst proto payload))

/-- `fix_transport_header`: `struct udphdr` has 8 bytes with the checksum at 6,
`struct tcphdr` 20 with the checksum at 16. -/
def fixTransportHeader (src dst : Host) (proto : UInt8) (payload : List UInt8) : List UInt8 :=
  if proto = ipprotoUdp then fixHeader 8 6 src dst proto payload
  else if proto = ipprotoTcp then fixHeader 20 16 src dst proto payload
  else payload

/-- The `struct ip` of `ip_packet_create_from_data` with `ip_sum` as given: version 4,
five words of header, the total length, TTL `0x80`, the protocol and the addresses. -/
def ipv4HeaderWith (src dst : Host) (nextHeader : UInt8) (len : ℕ) (sum : UInt16) : List UInt8 :=
  [0x45, 0] ++ u16Bytes (20 + len).toUInt16 ++ [0, 0, 0, 0, 0x80, nextHeader] ++ u16Bytes sum ++
    src.address ++ dst.address

/-- The IPv4 header, with `ip_sum` the checksum of the header as initialised. -/
def ipv4Header (src dst : Host) (nextHeader : UInt8) (len : ℕ) : List UInt8 :=
  ipv4HeaderWith src dst nextHeader len (checksum (ipv4HeaderWith src dst nextHeader len 0))

/-- The `struct ip6_hdr` of `ip_packet_create_from_data`: version 6, the payload length,
the next header, hop limit `0x80` and the addresses. -/
def ipv6Header (src dst : Host) (nextHeader : UInt8) (len : ℕ) : List UInt8 :=
  [0x60, 0, 0, 0] ++ u16Bytes len.toUInt16 ++ [nextHeader, 0x80] ++ src.address ++ dst.address

/-- `ip_packet_create_from_data`. -/
def ipPacketCreateFromData (src dst : Host) (nextHeader : UInt8) (data : List UInt8) : Option IpPacket :=
  if src.family ≠ dst.family then none
  else
    match src.family with
    | .inet =>
      ipPacketCreate (ipv4Header src dst nextHeader data.length ++ fixTransportHeader src dst nextHeader data)
    | .inet6 =>
      ipPacketCreate (ipv6Header src dst nextHeader data.length ++ fixTransportHeader src dst nextHeader data)

/-- `ip_packet_create_udp_from_data`: a UDP header with no ports, the UDP length and no
checksum in front of the data. -/
def ipPacketCreateUdpFromData (src dst : Host) (data : List UInt8) : Option IpPacket :=
  ipPacketCreateFromData src dst ipprotoUdp
    ([0, 0, 0, 0] ++ u16Bytes (8 + data.length).toUInt16 ++ [0, 0] ++ data)

/-! ## 2. Words in a byte string -/

/-- The big-endian 16-bit number at `i`, as `ntohs` reads it. -/
def u16At (l : List UInt8) (i : ℕ) : UInt16 := u16OfBytes (l.getD i 0) (l.getD (i + 1) 0)

theorem u16OfBytes_u16Bytes (v : UInt16) : u16OfBytes (v >>> 8).toUInt8 v.toUInt8 = v := by
  rw [u16OfBytes, show (2 : ℕ) ^ 8 = 256 from rfl, word_bytes, UInt16.ofNat_toNat]

@[simp] theorem length_u16Bytes (v : UInt16) : (u16Bytes v).length = 2 := rfl

theorem u16At_eq_word (l : List UInt8) (i : ℕ) : u16At l i = UInt16.ofNat (word l i) := rfl

theorem u16At_setWord_self {l : List UInt8} {i : ℕ} (w : UInt16) (hi : i + 1 < l.length) :
    u16At (setWord l i w) i = w := by
  rw [u16At_eq_word, word_setWord w hi, UInt16.ofNat_toNat]

theorem u16At_setWord_of_ne {l : List UInt8} {i j : ℕ} (w : UInt16) (hij : j + 1 < i ∨ i + 1 < j) :
    u16At (setWord l i w) j = u16At l j := by
  simp only [u16At, getD_setWord_of_ne w (show j ≠ i by omega) (show j ≠ i + 1 by omega),
    getD_setWord_of_ne w (show j + 1 ≠ i by omega) (show j + 1 ≠ i + 1 by omega)]

/-! ## 3. The transport header -/

section FixHeader

variable {size checkOffset : ℕ} {src dst : Host} {proto : UInt8} {payload : List UInt8}

@[simp] theorem length_fixHeader :
    (fixHeader size checkOffset src dst proto payload).length = payload.length := by
  unfold fixHeader
  split_ifs <;> simp

theorem length_fixTransportHeader :
    (fixTransportHeader src dst proto payload).length = payload.length := by
  unfold fixTransportHeader
  split_ifs <;> simp

/-- A payload too short for the header stays as it is. -/
theorem fixHeader_of_lt (h : payload.length < size) :
    fixHeader size checkOffset src dst proto payload = payload := by
  simp [fixHeader, h]

/-- The header's bytes are all that changes. -/
theorem drop_fixHeader (hsize : checkOffset + 1 < size) (h3 : 3 < size) :
    (fixHeader size checkOffset src dst proto payload).drop size = payload.drop size := by
  unfold fixHeader
  split_ifs <;> simp only [drop_setWord _ hsize, drop_setWord _ (show 2 + 1 < size by omega),
    drop_setWord _ (show 0 + 1 < size by omega)]

section Fits

variable (hsize : checkOffset + 1 < size) (hlen : size ≤ payload.length)
include hsize hlen

/-- The source port is the host's, unless that is `0`. -/
theorem fixHeader_sport (hcheck : 3 < checkOffset) :
    u16At (fixHeader size checkOffset src dst proto payload) 0 =
      if src.port ≠ 0 then src.port else u16At payload 0 := by
  unfold fixHeader
  rw [if_neg (by omega)]
  dsimp only
  rw [u16At_setWord_of_ne _ (by omega), u16At_setWord_of_ne _ (by omega)]
  by_cases hd : dst.port ≠ 0
  · rw [if_pos hd, u16At_setWord_of_ne _ (by omega)]
    split_ifs with hs
    · exact u16At_setWord_self _ (by omega)
    · rfl
  · rw [if_neg hd]
    split_ifs with hs
    · exact u16At_setWord_self _ (by omega)
    · rfl

/-- The destination port is the host's, unless that is `0`. -/
theorem fixHeader_dport (hcheck : 3 < checkOffset) :
    u16At (fixHeader size checkOffset src dst proto payload) 2 =
      if dst.port ≠ 0 then dst.port else u16At payload 2 := by
  unfold fixHeader
  rw [if_neg (by omega)]
  dsimp only
  rw [u16At_setWord_of_ne _ (by omega), u16At_setWord_of_ne _ (by omega)]
  have hsrc : u16At (if src.port ≠ 0 then setWord payload 0 src.port else payload) 2 = u16At payload 2 := by
    split_ifs
    · exact u16At_setWord_of_ne _ (by omega)
    · rfl
  have hsrclen : (if src.port ≠ 0 then setWord payload 0 src.port else payload).length = payload.length := by
    split_ifs <;> simp
  by_cases hd : dst.port ≠ 0
  · rw [if_pos hd, if_pos hd]
    exact u16At_setWord_self _ (by omega)
  · rw [if_neg hd, if_neg hd]
    exact hsrc

/-- **The transport checksum verifies** against the pseudo header. -/
theorem fixHeader_checksum (heven : checkOffset % 2 = 0)
    (hpseudo : (pseudoHeader src dst proto payload.length).length % 2 = 0) :
    checksum (pseudoHeader src dst proto payload.length ++ fixHeader size checkOffset src dst proto payload) = 0 := by
  rw [checksum, checksumInc_append _ hpseudo]
  unfold fixHeader
  rw [if_neg (by omega)]
  dsimp only
  generalize hp : (if dst.port ≠ 0 then setWord (if src.port ≠ 0 then setWord payload 0 src.port else payload) 2 dst.port
    else if src.port ≠ 0 then setWord payload 0 src.port else payload) = p
  have hplen : p.length = payload.length := by
    rw [← hp]
    split_ifs <;> simp
  -- the checksum field is cleared before the sum is taken
  have hoff : checkOffset = 2 * (checkOffset / 2) := by omega
  have hzero : word (setWord p checkOffset 0) (2 * (checkOffset / 2)) = 0 := by
    rw [← hoff, word_setWord _ (by omega)]
    rfl
  have hpc : pseudoHeaderChecksum src dst proto (setWord p checkOffset 0) =
      checksum (pseudoHeader src dst proto payload.length) := by
    rw [pseudoHeaderChecksum, length_setWord, hplen]
  rw [hpc]
  have := @checksumInc_setWord (setWord p checkOffset 0) (checkOffset / 2)
    (checksum (pseudoHeader src dst proto payload.length)) (by simp; omega) hzero
  rwa [← hoff] at this

end Fits

end FixHeader

/-! ## 4. Parsing what was built -/

theorem toNat_toUInt16_of_lt {n : ℕ} (h : n < 2 ^ 16) : n.toUInt16.toNat = n := by
  rw [Nat.toUInt16, UInt16.toNat_ofNat', Nat.mod_eq_of_lt h]

/-- `ip_packet_create` on a built IPv4 packet: the header is read back, and the ports
come from the transport header. -/
theorem ipPacketCreate_ipv4 {src dst : Host} {nextHeader : UInt8} {sum : UInt16} {d : List UInt8}
    (hsrc : src.address.length = 4) (hdst : dst.address.length = 4) (hlen : 20 + d.length < 2 ^ 16) :
    ipPacketCreate (ipv4HeaderWith src dst nextHeader d.length sum ++ d) =
      (parseTransportHeader d nextHeader).map fun ports =>
        { src := ⟨.inet, src.address, ports.1⟩, dst := ⟨.inet, dst.address, ports.2⟩,
          packet := ipv4HeaderWith src dst nextHeader d.length sum ++ d, payload := d, version := 4,
          nextHeader } := by
  have hpk : ipv4HeaderWith src dst nextHeader d.length sum ++ d =
      (0x45 : UInt8) :: 0 :: ((20 + d.length).toUInt16 >>> 8).toUInt8 :: (20 + d.length).toUInt16.toUInt8 ::
        0 :: 0 :: 0 :: 0 :: 0x80 :: nextHeader :: (sum >>> 8).toUInt8 :: sum.toUInt8 ::
        (src.address ++ (dst.address ++ d)) := by
    simp [ipv4HeaderWith, u16Bytes]
  generalize ipv4HeaderWith src dst nextHeader d.length sum ++ d = P at hpk ⊢
  -- what `ip_packet_create` reads of the header
  have hlenP : P.length = 20 + d.length := by
    rw [hpk]
    simp [hsrc, hdst]
    omega
  have hdrop12 : P.drop 12 = src.address ++ (dst.address ++ d) := by rw [hpk]; rfl
  have hdrop16 : P.drop 16 = dst.address ++ d := by
    rw [show 16 = 12 + 4 from rfl, ← List.drop_drop, hdrop12, List.drop_left' hsrc]
  have hdataP : P.drop 20 = d := by
    rw [show 20 = 16 + 4 from rfl, ← List.drop_drop, hdrop16, List.drop_left' hdst]
  have hports : ipv4Ports P d = parseTransportHeader d nextHeader := by
    have h0 : u16OfBytes 0 0 &&& 0x1fff = 0 := by decide
    simp [ipv4Ports, hpk, h0]
  have hv : (P.getD 0 0 &&& 0xf0) >>> 4 = 4 := by rw [hpk, List.getD_cons_zero]; decide
  have hhl : (P.getD 0 0 &&& 0x0f).toNat * 4 = 20 := by rw [hpk, List.getD_cons_zero]; decide
  have htot : (u16OfBytes (P.getD 2 0) (P.getD 3 0)).toNat = 20 + d.length := by
    rw [hpk]
    simp only [List.getD_cons_zero, List.getD_cons_succ, u16OfBytes_u16Bytes, toNat_toUInt16_of_lt hlen]
  have hproto : P.getD 9 0 = nextHeader := by rw [hpk]; rfl
  unfold ipPacketCreate
  rw [if_neg (by omega)]
  dsimp only
  rw [hv, if_pos rfl, if_neg (by omega), htot, hlenP, Nat.min_self, ← hlenP, List.take_length, hhl, hdataP,
    hports, hproto, hdrop12, hdrop16, List.take_left' hsrc, List.take_left' hdst]
  rcases parseTransportHeader d nextHeader with _ | ports <;> rfl

/-- Past the extension headers the IPv6 parser reads a transport header, but only from
two bytes on. -/
theorem parseTransportHeaderV6_of_not_mem {d : List UInt8} {proto : UInt8} (hp : proto ∉ ipv6ExtensionHeaders) :
    parseTransportHeaderV6 d proto false =
      if 2 ≤ d.length then (parseTransportHeader d proto).map fun ports => (d, proto, ports)
      else some (d, proto, 0, 0) := by
  rw [parseTransportHeaderV6]
  by_cases h2 : 2 ≤ d.length
  · simp [h2, hp]
  · simp [h2]

/-- `ip_packet_create` on a built IPv6 packet. -/
theorem ipPacketCreate_ipv6 {src dst : Host} {nextHeader : UInt8} {d : List UInt8}
    (hsrc : src.address.length = 16) (hdst : dst.address.length = 16) (hlen : d.length < 2 ^ 16)
    (hnh : nextHeader ∉ ipv6ExtensionHeaders) :
    ipPacketCreate (ipv6Header src dst nextHeader d.length ++ d) =
      (if 2 ≤ d.length then parseTransportHeader d nextHeader else some (0, 0)).map fun ports =>
        { src := ⟨.inet6, src.address, ports.1⟩, dst := ⟨.inet6, dst.address, ports.2⟩,
          packet := ipv6Header src dst nextHeader d.length ++ d, payload := d, version := 6,
          nextHeader } := by
  have hpk : ipv6Header src dst nextHeader d.length ++ d =
      (0x60 : UInt8) :: 0 :: 0 :: 0 :: (d.length.toUInt16 >>> 8).toUInt8 :: d.length.toUInt16.toUInt8 ::
        nextHeader :: 0x80 :: (src.address ++ (dst.address ++ d)) := by
    simp [ipv6Header, u16Bytes]
  generalize ipv6Header src dst nextHeader d.length ++ d = P at hpk ⊢
  have hlenP : P.length = 40 + d.length := by
    rw [hpk]
    simp [hsrc, hdst]
    omega
  have hdrop8 : P.drop 8 = src.address ++ (dst.address ++ d) := by rw [hpk]; rfl
  have hdrop24 : P.drop 24 = dst.address ++ d := by
    rw [show 24 = 8 + 16 from rfl, ← List.drop_drop, hdrop8, List.drop_left' hsrc]
  have hdataP : P.drop 40 = d := by
    rw [show 40 = 24 + 16 from rfl, ← List.drop_drop, hdrop24, List.drop_left' hdst]
  have hv : (P.getD 0 0 &&& 0xf0) >>> 4 = 6 := by rw [hpk, List.getD_cons_zero]; decide
  have hplen : (u16OfBytes (P.getD 4 0) (P.getD 5 0)).toNat = d.length := by
    rw [hpk]
    simp only [List.getD_cons_zero, List.getD_cons_succ, u16OfBytes_u16Bytes, toNat_toUInt16_of_lt hlen]
  have hproto : P.getD 6 0 = nextHeader := by rw [hpk]; rfl
  unfold ipPacketCreate
  rw [if_neg (by omega)]
  dsimp only
  rw [hv, if_neg (by decide), if_pos rfl, if_neg (by omega), hplen, hlenP, Nat.min_self, ← hlenP,
    List.take_length, hdataP, hproto, parseTransportHeaderV6_of_not_mem hnh, hdrop8, hdrop24,
    List.take_left' hsrc, List.take_left' hdst]
  split_ifs
  · rcases parseTransportHeader d nextHeader with _ | ports <;> rfl
  · rfl

/-! ## 5. The checksums -/

theorem ipv4HeaderWith_eq_setWord (src dst : Host) (nextHeader : UInt8) (len : ℕ) (sum : UInt16) :
    ipv4HeaderWith src dst nextHeader len sum = setWord (ipv4HeaderWith src dst nextHeader len 0) 10 sum := by
  simp [ipv4HeaderWith, setWord, u16Bytes]

/-- **The IPv4 header checksum verifies.** -/
theorem checksum_ipv4Header (src dst : Host) (nextHeader : UInt8) (len : ℕ) :
    checksum (ipv4Header src dst nextHeader len) = 0 := by
  rw [ipv4Header, ipv4HeaderWith_eq_setWord, checksum, checksum]
  exact @checksumInc_setWord _ 5 0xffff (by simp [ipv4HeaderWith]; omega)
    (by simp [ipv4HeaderWith, word, u16Bytes])

/-- The pseudo header of hosts of one family is 12 or 40 bytes long. -/
theorem length_pseudoHeader_even {src dst : Host} (hsrc : src.WellFormed) (hdst : dst.WellFormed)
    (hfam : src.family = dst.family) (proto : UInt8) (len : ℕ) :
    (pseudoHeader src dst proto len).length % 2 = 0 := by
  unfold Host.WellFormed at hsrc hdst
  rw [← hfam] at hdst
  unfold pseudoHeader
  cases hf : src.family <;> simp [hsrc, hdst, hf, Family.addrLen]

/-! ## 6. What `ip_packet_create_from_data` returns -/

/-- A UDP or TCP header that does not fit in the data. -/
def transportTooShort (nextHeader : UInt8) (len : ℕ) : Prop :=
  (nextHeader = ipprotoUdp ∧ len < 8) ∨ (nextHeader = ipprotoTcp ∧ len < 20)

instance (nextHeader : UInt8) (len : ℕ) : Decidable (transportTooShort nextHeader len) := by
  unfold transportTooShort
  infer_instance

/-- The ports a packet built from `data` should carry: for UDP and TCP the host's where
it is not `0` and the data's otherwise, and none for other protocols. -/
def builtPorts (src dst : Host) (nextHeader : UInt8) (data : List UInt8) : UInt16 × UInt16 :=
  if nextHeader = ipprotoUdp ∨ nextHeader = ipprotoTcp then
    (if src.port ≠ 0 then src.port else u16At data 0, if dst.port ≠ 0 then dst.port else u16At data 2)
  else (0, 0)

/-- The length field of the family's header holds the length of the data: the IPv4
total length, the IPv6 payload length. -/
def Family.FitsLength : Family → ℕ → Prop
  | .inet, len => 20 + len < 2 ^ 16
  | .inet6, len => len < 2 ^ 16

instance (f : Family) (len : ℕ) : Decidable (f.FitsLength len) := by
  cases f <;> unfold Family.FitsLength <;> infer_instance

theorem parseTransportHeader_eq_none_iff (d : List UInt8) (proto : UInt8) :
    parseTransportHeader d proto = none ↔ transportTooShort proto d.length := by
  have hne : ipprotoUdp ≠ ipprotoTcp := by decide
  unfold parseTransportHeader transportTooShort
  split_ifs with hu hl ht hl' <;> simp_all

/-- The transport header the parser reads back holds the ports `fix_transport_header`
wrote. -/
theorem parseTransportHeader_fixTransportHeader {src dst : Host} {nextHeader : UInt8} {data : List UInt8}
    (hshort : ¬ transportTooShort nextHeader data.length) :
    parseTransportHeader (fixTransportHeader src dst nextHeader data) nextHeader =
      some (builtPorts src dst nextHeader data) := by
  have hne : ipprotoUdp ≠ ipprotoTcp := by decide
  unfold transportTooShort at hshort
  unfold fixTransportHeader builtPorts parseTransportHeader
  by_cases hu : nextHeader = ipprotoUdp
  · -- `struct udphdr`
    have hlen : 8 ≤ data.length := by simp_all
    subst hu
    have hs := @fixHeader_sport 8 6 src dst ipprotoUdp data (by omega) hlen (by omega)
    have hd := @fixHeader_dport 8 6 src dst ipprotoUdp data (by omega) hlen (by omega)
    simp only [u16At, Nat.reduceAdd] at hs hd ⊢
    simp only [if_true, true_or, length_fixHeader, if_neg (show ¬data.length < 8 by omega), hs, hd]
  · by_cases ht : nextHeader = ipprotoTcp
    · -- `struct tcphdr`
      have hlen : 20 ≤ data.length := by simp_all
      subst ht
      have hs := @fixHeader_sport 20 16 src dst ipprotoTcp data (by omega) hlen (by omega)
      have hd := @fixHeader_dport 20 16 src dst ipprotoTcp data (by omega) hlen (by omega)
      simp only [u16At, Nat.reduceAdd] at hs hd ⊢
      simp only [if_neg (Ne.symm hne), if_true, or_true, length_fixHeader,
        if_neg (show ¬data.length < 20 by omega), hs, hd]
    · simp [hu, ht]

/-- **The transport checksum verifies** against the pseudo header, for UDP and TCP
headers that fit. -/
theorem fixTransportHeader_checksum {src dst : Host} {nextHeader : UInt8} {data : List UInt8}
    (hproto : nextHeader = ipprotoUdp ∨ nextHeader = ipprotoTcp) (hshort : ¬ transportTooShort nextHeader data.length)
    (hpseudo : (pseudoHeader src dst nextHeader data.length).length % 2 = 0) :
    checksum (pseudoHeader src dst nextHeader data.length ++ fixTransportHeader src dst nextHeader data) = 0 := by
  have hne : ipprotoUdp ≠ ipprotoTcp := by decide
  unfold transportTooShort at hshort
  unfold fixTransportHeader
  rcases hproto with hu | ht
  · rw [if_pos hu]
    exact fixHeader_checksum (by omega) (by simp_all) rfl hpseudo
  · rw [if_neg (ht ▸ Ne.symm hne), if_pos ht]
    exact fixHeader_checksum (by omega) (by simp_all) rfl hpseudo

section Create

variable {src dst : Host} {nextHeader : UInt8} {data : List UInt8}

/-- `ip_packet_create_from_data` for IPv4 hosts. -/
theorem ipPacketCreateFromData_inet (hs : src.family = .inet) (hd : dst.family = .inet)
    (hsrc : src.WellFormed) (hdst : dst.WellFormed) (hlen : 20 + data.length < 2 ^ 16) :
    ipPacketCreateFromData src dst nextHeader data =
      (parseTransportHeader (fixTransportHeader src dst nextHeader data) nextHeader).map fun ports =>
        { src := ⟨.inet, src.address, ports.1⟩, dst := ⟨.inet, dst.address, ports.2⟩,
          packet := ipv4Header src dst nextHeader data.length ++ fixTransportHeader src dst nextHeader data,
          payload := fixTransportHeader src dst nextHeader data, version := 4, nextHeader } := by
  unfold Host.WellFormed at hsrc hdst
  rw [hs] at hsrc
  rw [hd] at hdst
  unfold ipPacketCreateFromData
  rw [if_neg (by rw [hs, hd]; exact not_not.mpr rfl)]
  simp only [hs]
  have hl := @length_fixTransportHeader src dst nextHeader data
  generalize fixTransportHeader src dst nextHeader data = d at hl ⊢
  rw [← hl] at hlen ⊢
  exact ipPacketCreate_ipv4 hsrc hdst hlen

/-- `ip_packet_create_from_data` for IPv6 hosts: no transport header is read from fewer
than two bytes. -/
theorem ipPacketCreateFromData_inet6 (hs : src.family = .inet6) (hd : dst.family = .inet6)
    (hsrc : src.WellFormed) (hdst : dst.WellFormed) (hlen : data.length < 2 ^ 16)
    (hnh : nextHeader ∉ ipv6ExtensionHeaders) :
    ipPacketCreateFromData src dst nextHeader data =
      (if 2 ≤ data.length then parseTransportHeader (fixTransportHeader src dst nextHeader data) nextHeader
        else some (0, 0)).map fun ports =>
        { src := ⟨.inet6, src.address, ports.1⟩, dst := ⟨.inet6, dst.address, ports.2⟩,
          packet := ipv6Header src dst nextHeader data.length ++ fixTransportHeader src dst nextHeader data,
          payload := fixTransportHeader src dst nextHeader data, version := 6, nextHeader } := by
  unfold Host.WellFormed at hsrc hdst
  rw [hs] at hsrc
  rw [hd] at hdst
  unfold ipPacketCreateFromData
  rw [if_neg (by rw [hs, hd]; exact not_not.mpr rfl)]
  simp only [hs]
  have hl := @length_fixTransportHeader src dst nextHeader data
  generalize fixTransportHeader src dst nextHeader data = d at hl ⊢
  rw [← hl] at hlen ⊢
  exact ipPacketCreate_ipv6 hsrc hdst hlen hnh

theorem length_ipv4Header (hsrc : src.address.length = 4) (hdst : dst.address.length = 4) (len : ℕ) :
    (ipv4Header src dst nextHeader len).length = 20 := by
  simp [ipv4Header, ipv4HeaderWith, hsrc, hdst]

theorem length_ipv6Header (hsrc : src.address.length = 16) (hdst : dst.address.length = 16) (len : ℕ) :
    (ipv6Header src dst nextHeader len).length = 40 := by
  simp [ipv6Header, hsrc, hdst]

/-- A UDP or TCP header that does not fit is left as it is, and so is all data shorter
than a UDP header. -/
theorem fixTransportHeader_of_lt (h : data.length < 8) : fixTransportHeader src dst nextHeader data = data := by
  unfold fixTransportHeader
  split_ifs
  · exact fixHeader_of_lt h
  · exact fixHeader_of_lt (by omega)
  · rfl

section Hosts

variable (hsrc : src.WellFormed) (hdst : dst.WellFormed) (hfam : src.family = dst.family)
  (hnh : nextHeader ∉ ipv6ExtensionHeaders)

include hsrc hdst hfam hnh in
/-- **When `ip_packet_create_from_data` returns `NULL`**: a UDP or TCP header does not
fit in the data, and for IPv6 the data has at least two bytes. -/
theorem ipPacketCreateFromData_eq_none_iff (hfits : src.family.FitsLength data.length) :
    ipPacketCreateFromData src dst nextHeader data = none ↔
      transportTooShort nextHeader data.length ∧ (src.family = .inet ∨ 2 ≤ data.length) := by
  cases hf : src.family with
  | inet =>
    rw [hf] at hfits
    rw [ipPacketCreateFromData_inet hf (hfam ▸ hf) hsrc hdst hfits, Option.map_eq_none_iff,
      parseTransportHeader_eq_none_iff, length_fixTransportHeader]
    simp
  | inet6 =>
    rw [hf] at hfits
    rw [ipPacketCreateFromData_inet6 hf (hfam ▸ hf) hsrc hdst hfits hnh]
    split_ifs with h2
    · rw [Option.map_eq_none_iff, parseTransportHeader_eq_none_iff, length_fixTransportHeader]
      simp [h2]
    · simp [h2]

include hsrc hdst hfam hnh in
/-- **What `ip_packet_create_from_data` builds**, when the transport header fits: the
hosts' family and addresses, ports that are the hosts' where they are not `0` and the
data's otherwise, the protocol, the data with its transport header fixed as payload
behind a header of the family, and checksums that verify: the IPv4 header's, and for
UDP and TCP the transport checksum over the pseudo header. -/
theorem ipPacketCreateFromData_spec (hfits : src.family.FitsLength data.length)
    (hshort : ¬ transportTooShort nextHeader data.length) :
    ∃ p, ipPacketCreateFromData src dst nextHeader data = some p ∧
      p.src = ⟨src.family, src.address, (builtPorts src dst nextHeader data).1⟩ ∧
      p.dst = ⟨dst.family, dst.address, (builtPorts src dst nextHeader data).2⟩ ∧
      p.nextHeader = nextHeader ∧ p.payload = fixTransportHeader src dst nextHeader data ∧
      (src.family = .inet → p.version = 4 ∧ p.packet.drop 20 = p.payload ∧ checksum (p.packet.take 20) = 0) ∧
      (src.family = .inet6 → p.version = 6 ∧ p.packet.drop 40 = p.payload) ∧
      ((nextHeader = ipprotoUdp ∨ nextHeader = ipprotoTcp) →
        checksum (pseudoHeader src dst nextHeader data.length ++ p.payload) = 0) := by
  have hck := fun hproto => fixTransportHeader_checksum hproto hshort
    (length_pseudoHeader_even hsrc hdst hfam nextHeader data.length)
  have hsrc' := hsrc
  have hdst' := hdst
  unfold Host.WellFormed at hsrc' hdst'
  rw [← hfam] at hdst'
  cases hf : src.family with
  | inet =>
    rw [hf] at hfits hsrc' hdst'
    rw [ipPacketCreateFromData_inet hf (hfam ▸ hf) hsrc hdst hfits, parseTransportHeader_fixTransportHeader hshort]
    refine ⟨_, rfl, rfl, by rw [← hfam, hf], rfl, rfl, ?_, ?_, hck⟩
    · -- the IPv4 header is 20 bytes long and sums to zero
      intro _
      refine ⟨rfl, List.drop_left' (length_ipv4Header hsrc' hdst' _), ?_⟩
      rw [List.take_left' (length_ipv4Header hsrc' hdst' _)]
      exact checksum_ipv4Header src dst nextHeader data.length
    · intro h
      cases h
  | inet6 =>
    rw [hf] at hfits hsrc' hdst'
    -- the ports of data too short to be read are those of a protocol without ports
    have hports : (if 2 ≤ data.length then parseTransportHeader (fixTransportHeader src dst nextHeader data) nextHeader
        else some (0, 0)) = some (builtPorts src dst nextHeader data) := by
      split_ifs with h2
      · exact parseTransportHeader_fixTransportHeader hshort
      · unfold transportTooShort at hshort
        have hne : ¬(nextHeader = ipprotoUdp ∨ nextHeader = ipprotoTcp) := by
          rintro (hu | ht)
          · exact hshort (Or.inl ⟨hu, by omega⟩)
          · exact hshort (Or.inr ⟨ht, by omega⟩)
        simp [builtPorts, hne]
    rw [ipPacketCreateFromData_inet6 hf (hfam ▸ hf) hsrc hdst hfits hnh, hports]
    refine ⟨_, rfl, rfl, by rw [← hfam, hf], rfl, rfl, ?_, ?_, hck⟩
    · intro h
      cases h
    · -- the IPv6 header is 40 bytes long
      intro _
      exact ⟨rfl, List.drop_left' (length_ipv6Header hsrc' hdst' _)⟩

include hsrc hdst hnh in
/-- **IPv6 data of fewer than two bytes always gives a packet**, UDP and TCP included,
with ports `0` and the data as it was: `parse_transport_header_v6` reads no transport
header from it, so `NULL` never comes and the hosts' ports are not applied. -/
theorem ipPacketCreateFromData_inet6_short (hs : src.family = .inet6) (hd : dst.family = .inet6)
    (hshort : data.length < 2) :
    ipPacketCreateFromData src dst nextHeader data =
      some ⟨⟨.inet6, src.address, 0⟩, ⟨.inet6, dst.address, 0⟩,
        ipv6Header src dst nextHeader data.length ++ data, data, 6, nextHeader⟩ := by
  rw [ipPacketCreateFromData_inet6 hs hd hsrc hdst (by omega) hnh, if_neg (by omega),
    fixTransportHeader_of_lt (by omega)]
  rfl

end Hosts

end Create

/-! ## 7. UDP packets for the DNS proxy -/

/-- The UDP header `ip_packet_create_udp_from_data` puts in front of the data. -/
theorem udpFromData_bytes (data : List UInt8) :
    ([0, 0, 0, 0] ++ u16Bytes (8 + data.length).toUInt16 ++ [0, 0] ++ data).length = 8 + data.length ∧
      u16At ([0, 0, 0, 0] ++ u16Bytes (8 + data.length).toUInt16 ++ [0, 0] ++ data) 0 = 0 ∧
      u16At ([0, 0, 0, 0] ++ u16Bytes (8 + data.length).toUInt16 ++ [0, 0] ++ data) 2 = 0 := by
  have h00 : u16OfBytes 0 0 = 0 := by decide
  refine ⟨by simp; omega, ?_, ?_⟩ <;> simp [u16At, u16Bytes, h00]

/-- **`ip_packet_create_udp_from_data` always builds a packet** for hosts of one family
and data that fits: with the hosts' ports, the data behind the UDP header, and a UDP
checksum that verifies. -/
theorem ipPacketCreateUdpFromData_spec {src dst : Host} {data : List UInt8} (hsrc : src.WellFormed)
    (hdst : dst.WellFormed) (hfam : src.family = dst.family) (hfits : src.family.FitsLength (8 + data.length)) :
    ∃ p, ipPacketCreateUdpFromData src dst data = some p ∧
      p.src = ⟨src.family, src.address, src.port⟩ ∧ p.dst = ⟨dst.family, dst.address, dst.port⟩ ∧
      p.nextHeader = ipprotoUdp ∧ p.payload.drop 8 = data ∧
      checksum (pseudoHeader src dst ipprotoUdp (8 + data.length) ++ p.payload) = 0 := by
  obtain ⟨hlen, h0, h2⟩ := udpFromData_bytes data
  unfold ipPacketCreateUdpFromData
  have hdrop : ([0, 0, 0, 0] ++ u16Bytes (8 + data.length).toUInt16 ++ [0, 0] ++ data).drop 8 = data :=
    List.drop_left' (by simp)
  generalize [0, 0, 0, 0] ++ u16Bytes (8 + data.length).toUInt16 ++ [0, 0] ++ data = u at hlen h0 h2 hdrop ⊢
  have hshort : ¬ transportTooShort ipprotoUdp u.length := by
    rintro (⟨-, h⟩ | ⟨h, -⟩)
    · omega
    · exact absurd h (by decide)
  obtain ⟨p, hp, hps, hpd, hpn, hpay, -, -, hck⟩ :=
    ipPacketCreateFromData_spec hsrc hdst hfam (by decide) (hlen ▸ hfits) hshort
  -- the header carries no ports, so the packet has the hosts' ports, also where they are `0`
  have hports : builtPorts src dst ipprotoUdp u = (src.port, dst.port) := by
    by_cases hs : src.port = 0 <;> by_cases hd : dst.port = 0 <;> simp [builtPorts, hs, hd, h0, h2]
  refine ⟨p, hp, by rw [hps, hports], by rw [hpd, hports], hpn, ?_, ?_⟩
  · rw [hpay, fixTransportHeader, if_pos rfl, drop_fixHeader (by omega) (by omega), hdrop]
  · rw [← hlen]
    exact hck (Or.inl rfl)

end VpnClient.Ipsec
