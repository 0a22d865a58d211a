import VpnClient.Identity.DnMatch
import VpnClient.Ipsec.TrafficSelector
import VpnClient.Lib.Dyadic
import Mathlib.Order.Interval.Set.Basic

/-!
# Matching IP identities

`matches_range` of `identification.c`, the `matches` of address, subnet and range
identities. An address identity holds its address, a subnet identity its network and
its netmask, and a range identity its first and its last address. The pattern `other`
decides which of nine routines runs: `match_subnets` compares prefixes for address and
subnet identities against address and subnet patterns, and `match_ranges` compares
first and last addresses for the rest, with `subnet_to_range` turning a subnet into its
range first.

An identity in canonical form, as `create_ip_address_from_string` builds one
(`createIpAddressFromString_canonical`), stands for an interval of addresses
(`IpIdentity.addressSet_toIdentification`). On two of them every routine decides the same
thing, `match_ranges` on the two intervals, and `matches_range` answers
`ID_MATCH_PERFECT` before it for identical ones (`matchesRange_toIdentification`). In terms
of the address sets (`matchesRange_address_sets`), a match is a subset, and equal sets
match perfectly except where the pattern spans the whole family under another type: the
full range against `0.0.0.0/0` is `ID_MATCH_MAX_WILDCARDS`
(`matchesRange_full_range_zero_subnet`).
-/

namespace VpnClient.Identity

open VpnClient.Lib Bytes VpnClient.Ipsec

/-! ## The code -/

/-- The loop `while (byte & 0x80) { netbits++; byte <<= 1; }` of `netmask_to_cidr`: the
leading ones of a byte, shifted out in at most eight turns. -/
def leadingOnes (byte : UInt8) : ℕ → ℕ
  | 0 => 0
  | k + 1 => if byte &&& 0x80 ≠ 0 then leadingOnes (byte <<< 1) k + 1 else 0

/-- `netmask_to_cidr` over the `address_size` bytes of a netmask: a byte of ones counts
eight, a zero byte ends the count, and any other byte adds its leading ones. -/
def netmaskToCidr : List UInt8 → ℕ
  | [] => 0
  | byte :: rest =>
    if byte = 0x00 then 0
    else if byte = 0xff then 8 + netmaskToCidr rest
    else leadingOnes byte 8 + netmaskToCidr rest

/-- `subnet_to_range`: the first and the last address of the subnet whose network and
netmask `encoding` holds. -/
def subnetToRange (encoding : List UInt8) (size : ℕ) : List UInt8 × List UInt8 :=
  let network := encoding.take size
  let netbits := netmaskToCidr ((encoding.drop size).take size)
  let i := netbits / 8
  if i < size then
    -- `0xff << (8 - netbits % 8)` is computed in `int` and cut to the `uint8_t` mask
    let mask := UInt8.ofNat (0xff <<< (8 - netbits % 8))
    (network.take i ++ [network.getD i 0 &&& mask] ++ List.replicate (size - i - 1) 0,
      network.take i ++ [network.getD i 0 ||| ~~~mask] ++ List.replicate (size - i - 1) 0xff)
  else (network, network)

/-- The prefix length `match_subnets` reads off a netmask, `8 * address_size` where the
netmask is `NULL`. -/
def prefixOf (netmask : Option (List UInt8)) (size : ℕ) : ℕ :=
  match netmask with
  | some m => netmaskToCidr (m.take size)
  | none => 8 * size

/-- `match_subnets`: a subnet, or an address where the netmask is `NULL`, against a
subnet or an address. -/
def matchSubnets (network : List UInt8) (netmask : Option (List UInt8)) (otherNetwork : List UInt8)
    (otherNetmask : Option (List UInt8)) (size : ℕ) : ℕ :=
  let otherNetbits := prefixOf otherNetmask size
  if otherNetbits = 0 then idMatchMaxWildcards
  else
    let netbits := prefixOf netmask size
    if netbits = otherNetbits then (if memeq network otherNetwork size then idMatchPerfect else idMatchNone)
    else if netbits < otherNetbits then idMatchNone
    -- only reached with a netmask of `other`: without one its prefix is the longest
    else if (List.range ((otherNetbits + 7) / 8)).any fun i =>
        (network.getD i 0 ^^^ otherNetwork.getD i 0) &&& (otherNetmask.getD []).getD i 0 ≠ 0 then
      idMatchNone
    else idMatchOneWildcard

/-- `memcmp` of the first `size` bytes. -/
def memcmpN (a b : List UInt8) (size : ℕ) : Ordering := memcmp (a.take size) (b.take size)

/-- `match_ranges`. -/
def matchRanges (rfrom rto otherFrom otherTo : List UInt8) (size : ℕ) : ℕ :=
  if memcmpN rto rfrom size = .lt ∨ memcmpN otherTo otherFrom size = .lt then idMatchNone
  else if memeq otherFrom (List.replicate 16 0) size ∧ memeq otherTo (List.replicate 16 0xff) size then
    idMatchMaxWildcards
  else
    let matchFrom := memcmpN rfrom otherFrom size
    let matchTo := memcmpN rto otherTo size
    if matchFrom = .eq ∧ matchTo = .eq then idMatchPerfect
    else if matchFrom ≠ .lt ∧ matchTo ≠ .gt then idMatchOneWildcard
    else idMatchNone

/-- The length check each `matches_*_to_*` routine starts with: `ID_MATCH_NONE` unless
the encodings of `this` and `other` have the lengths of their types. -/
def checkLengths (this other : Identification) (thisLen otherLen : ℕ) (body : ℕ) : ℕ :=
  if this.encoded.length ≠ thisLen ∨ other.encoded.length ≠ otherLen then idMatchNone else body

/-- `matches_subnet_to_addr`. -/
def matchesSubnetToAddr (this other : Identification) (size : ℕ) : ℕ :=
  checkLengths this other (2 * size) size <|
    matchSubnets (this.encoded.take size) (some (this.encoded.drop size)) other.encoded none size

/-- `matches_range_to_addr`. -/
def matchesRangeToAddr (this other : Identification) (size : ℕ) : ℕ :=
  checkLengths this other (2 * size) size <|
    matchRanges (this.encoded.take size) (this.encoded.drop size) other.encoded other.encoded size

/-- `matches_addr_to_subnet`. -/
def matchesAddrToSubnet (this other : Identification) (size : ℕ) : ℕ :=
  checkLengths this other size (2 * size) <|
    matchSubnets this.encoded none (other.encoded.take size) (some (other.encoded.drop size)) size

/-- `matches_subnet_to_subnet`. -/
def matchesSubnetToSubnet (this other : Identification) (size : ℕ) : ℕ :=
  checkLengths this other (2 * size) (2 * size) <|
    matchSubnets (this.encoded.take size) (some (this.encoded.drop size)) (other.encoded.take size)
      (some (other.encoded.drop size)) size

/-- `matches_range_to_subnet`. -/
def matchesRangeToSubnet (this other : Identification) (size : ℕ) : ℕ :=
  checkLengths this other (2 * size) (2 * size) <|
    let r := subnetToRange other.encoded size
    matchRanges (this.encoded.take size) (this.encoded.drop size) r.1 r.2 size

/-- `matches_addr_to_range`. -/
def matchesAddrToRange (this other : Identification) (size : ℕ) : ℕ :=
  checkLengths this other size (2 * size) <|
    matchRanges this.encoded this.encoded (other.encoded.take size) (other.encoded.drop size) size

/-- `matches_subnet_to_range`. -/
def matchesSubnetToRange (this other : Identification) (size : ℕ) : ℕ :=
  checkLengths this other (2 * size) (2 * size) <|
    let r := subnetToRange this.encoded size
    matchRanges r.1 r.2 (other.encoded.take size) (other.encoded.drop size) size

/-- `matches_range_to_range`. -/
def matchesRangeToRange (this other : Identification) (size : ℕ) : ℕ :=
  checkLengths this other (2 * size) (2 * size) <|
    matchRanges (this.encoded.take size) (this.encoded.drop size) (other.encoded.take size)
      (other.encoded.drop size) size

/-- `matches_range`: `ID_MATCH_ANY` for an `ID_ANY` pattern and `ID_MATCH_PERFECT` for an
identical one; otherwise the pattern's type and the identity's pick the routine, with
`address_size` the family's address length, and `ID_MATCH_NONE` where none applies. -/
def matchesRange (this other : Identification) : ℕ :=
  if other.type = .idAny then idMatchAny
  else if this.type = other.type ∧ this.encoded = other.encoded then idMatchPerfect
  else
    -- an address as the pattern
    let size :=
      if other.type = .idIpv4Addr ∧ (this.type = .idIpv4AddrSubnet ∨ this.type = .idIpv4AddrRange) then 4
      else if other.type = .idIpv6Addr ∧ (this.type = .idIpv6AddrSubnet ∨ this.type = .idIpv6AddrRange) then 16
      else 0
    if size ≠ 0 then
      if this.type = .idIpv4AddrSubnet ∨ this.type = .idIpv6AddrSubnet then matchesSubnetToAddr this other size
      else matchesRangeToAddr this other size
    else
    -- a subnet as the pattern
    let size :=
      if other.type = .idIpv4AddrSubnet ∧
          (this.type = .idIpv4Addr ∨ this.type = .idIpv4AddrSubnet ∨ this.type = .idIpv4AddrRange) then 4
      else if other.type = .idIpv6AddrSubnet ∧
          (this.type = .idIpv6Addr ∨ this.type = .idIpv6AddrSubnet ∨ this.type = .idIpv6AddrRange) then 16
      else 0
    if size ≠ 0 then
      if this.type = .idIpv4Addr ∨ this.type = .idIpv6Addr then matchesAddrToSubnet this other size
      else if this.type = .idIpv4AddrSubnet ∨ this.type = .idIpv6AddrSubnet then matchesSubnetToSubnet this other size
      else matchesRangeToSubnet this other size
    else
    -- a range as the pattern
    let size :=
      if other.type = .idIpv4AddrRange ∧
          (this.type = .idIpv4Addr ∨ this.type = .idIpv4AddrSubnet ∨ this.type = .idIpv4AddrRange) then 4
      else if other.type = .idIpv6AddrRange ∧
          (this.type = .idIpv6Addr ∨ this.type = .idIpv6AddrSubnet ∨ this.type = .idIpv6AddrRange) then 16
      else 0
    if size ≠ 0 then
      if this.type = .idIpv4Addr ∨ this.type = .idIpv6Addr then matchesAddrToRange this other size
      else if this.type = .idIpv4AddrSubnet ∨ this.type = .idIpv6AddrSubnet then matchesSubnetToRange this other size
      else matchesRangeToRange this other size
    else idMatchNone

/-! ## Construction -/

/-- The netmask loop of `create_ip_address_from_string`, a byte a turn: `bytes` bytes of
`0xff`, then `0xff << (8 - bits)` while `bits` is left, then zero bytes. -/
def netmaskLoop : ℕ → ℕ → ℕ → List UInt8
  | 0, _, _ => []
  | n + 1, bytes, bits =>
    if bytes ≠ 0 then 0xff :: netmaskLoop n (bytes - 1) bits
    else if bits ≠ 0 then UInt8.ofNat (0xff <<< (8 - bits)) :: netmaskLoop n 0 0
    else 0x00 :: netmaskLoop n 0 0

/-- The order check of a range: at the first byte in which the two addresses differ, the
first must not be the larger. -/
def rangeOrdered : List UInt8 → List UInt8 → Bool
  | a :: as, b :: bs => if a ≠ b then !decide (a > b) else rangeOrdered as bs
  | _, _ => true

/-- What `create_ip_address_from_string` reads around the first `/`, or else the first
`-`: an address, an address and a prefix length, or two addresses, once `inet_pton` and
`atoi` have converted them. -/
inductive IpText
  | addr (address : List UInt8)
  | subnet (address : List UInt8) (bits : ℤ)
  | range (address toAddress : List UInt8)

/-- `create_ip_address_from_string` after `inet_pton` has written each address into
`address_size` bytes. `none` is `NULL`: a prefix longer than the address, or negative,
which the comparison with the unsigned `8 * address_size` reads as huge, and a range that
runs backwards. -/
def createIpAddressFromString (isIpv4 : Bool) : IpText → Option Identification
  | .addr address => some ⟨if isIpv4 then .idIpv4Addr else .idIpv6Addr, address⟩
  | .subnet address bits =>
    let size : ℕ := if isIpv4 then 4 else 16
    if bits < 0 ∨ 8 * (size : ℤ) < bits then none
    else
      let netmask := netmaskLoop size (bits.toNat / 8) (bits.toNat - 8 * (bits.toNat / 8))
      -- `*address++ &= *netmask++`: the host bits of the network cleared
      some ⟨if isIpv4 then .idIpv4AddrSubnet else .idIpv6AddrSubnet,
        List.zipWith (· &&& ·) address netmask ++ netmask⟩
  | .range address toAddress =>
    if rangeOrdered address toAddress then
      some ⟨if isIpv4 then .idIpv4AddrRange else .idIpv6AddrRange, address ++ toAddress⟩
    else none

/-! ## IP identities and the addresses they stand for -/

/-- The three kinds of IP identity. -/
inductive IpKind
  | addr
  | subnet
  | range
  deriving DecidableEq, Repr

/-- The `id_type_t` of an IP identity of a family and a kind. -/
def ipType : Family → IpKind → IdType
  | .inet, .addr => .idIpv4Addr
  | .inet, .subnet => .idIpv4AddrSubnet
  | .inet, .range => .idIpv4AddrRange
  | .inet6, .addr => .idIpv6Addr
  | .inet6, .subnet => .idIpv6AddrSubnet
  | .inet6, .range => .idIpv6AddrRange

/-- The family and the kind of an IP identity's type, `none` for the other types. -/
def ipKindOf : IdType → Option (Family × IpKind)
  | .idIpv4Addr => some (.inet, .addr)
  | .idIpv4AddrSubnet => some (.inet, .subnet)
  | .idIpv4AddrRange => some (.inet, .range)
  | .idIpv6Addr => some (.inet6, .addr)
  | .idIpv6AddrSubnet => some (.inet6, .subnet)
  | .idIpv6AddrRange => some (.inet6, .range)
  | _ => none

@[simp] theorem ipKindOf_ipType (f : Family) (k : IpKind) : ipKindOf (ipType f k) = some (f, k) := by
  cases f <;> cases k <;> rfl

/-- The addresses an IP identity stands for: its address; the addresses that agree with
the network in every bit the netmask sets; or the addresses from the first to the last
of the range. -/
def addressSet (x : Identification) : Set ℕ :=
  match ipKindOf x.type with
  | some (_, .addr) => {value x.encoded}
  | some (f, .subnet) =>
    {y | y < 2 ^ (8 * f.addrLen) ∧ ∀ i, (value (x.encoded.drop f.addrLen)).testBit i = true →
      y.testBit i = (value (x.encoded.take f.addrLen)).testBit i}
  | some (f, .range) => Set.Icc (value (x.encoded.take f.addrLen)) (value (x.encoded.drop f.addrLen))
  | none => ∅

/-- Every address of a family. -/
def familySet (f : Family) : Set ℕ := Set.Iio (2 ^ (8 * f.addrLen))

/-- An IP identity by its parts: an address, a network and the length of its prefix, or
the two ends of a range. -/
inductive IpSpec
  | addr (address : List UInt8)
  | subnet (network : List UInt8) (netbits : ℕ)
  | range (lo hi : List UInt8)

/-- The netmask of a prefix of `netbits` bits, as `create_ip_address_from_string` writes
it. -/
def netmaskOf (size netbits : ℕ) : List UInt8 := netmaskLoop size (netbits / 8) (netbits % 8)

namespace IpSpec

def kind : IpSpec → IpKind
  | addr _ => .addr
  | subnet _ _ => .subnet
  | range _ _ => .range

/-- The identity's encoding: the address, the network and its netmask, or the two ends. -/
def encode (f : Family) : IpSpec → Identification
  | addr a => ⟨ipType f .addr, a⟩
  | subnet n netbits => ⟨ipType f .subnet, n ++ netmaskOf f.addrLen netbits⟩
  | range lo hi => ⟨ipType f .range, lo ++ hi⟩

/-- Addresses of `size` bytes, a subnet in canonical form, with no prefix longer than the
address and the host bits of its network cleared, and a range that does not run
backwards. -/
def Canonical (size : ℕ) : IpSpec → Prop
  | addr a => a.length = size
  | subnet n netbits => n.length = size ∧ netbits ≤ 8 * size ∧ value n % 2 ^ (8 * size - netbits) = 0
  | range lo hi => lo.length = size ∧ hi.length = size ∧ value lo ≤ value hi

/-- The first address. -/
def first : IpSpec → ℕ
  | addr a => value a
  | subnet n _ => value n
  | range lo _ => value lo

/-- The last address. -/
def last (size : ℕ) : IpSpec → ℕ
  | addr a => value a
  | subnet n netbits => value n + (2 ^ (8 * size - netbits) - 1)
  | range _ hi => value hi

end IpSpec

/-- An IP identity of family `f` in canonical form. -/
structure IpIdentity (f : Family) where
  spec : IpSpec
  canonical : spec.Canonical f.addrLen

/-- The identity as `identification_t` holds it. -/
def IpIdentity.toIdentification {f : Family} (x : IpIdentity f) : Identification := x.spec.encode f

/-! ## `match_ranges` and `match_subnets` on numbers -/

/-- What `match_ranges` decides on the range `[lo, hi]` against the pattern `[lo', hi']`
in a family whose last address is `top`. -/
def rangeMatch (lo hi lo' hi' top : ℕ) : ℕ :=
  if lo' = 0 ∧ hi' = top then idMatchMaxWildcards
  else if lo = lo' ∧ hi = hi' then idMatchPerfect
  else if lo' ≤ lo ∧ hi ≤ hi' then idMatchOneWildcard
  else idMatchNone

section Compare

variable {a b : List UInt8} {s : ℕ}

theorem memcmpN_eq (ha : a.length = s) (hb : b.length = s) : memcmpN a b s = compare (value a) (value b) := by
  rw [memcmpN, List.take_of_length_le (by omega), List.take_of_length_le (by omega),
    memcmp_eq_compare (by omega)]

theorem memeq_iff (ha : a.length = s) (hb : b.length = s) : memeq a b s = true ↔ value a = value b := by
  rw [memeq, List.take_of_length_le (by omega), List.take_of_length_le (by omega), beq_iff_eq]
  exact ⟨congrArg value, eq_of_value_eq (by omega)⟩

/-- `memeq` with the 16 bytes of `zeroes` or `ones` compares with their first `s`. -/
theorem memeq_replicate_iff (ha : a.length = s) (hs : s ≤ 16) (c : UInt8) :
    memeq a (List.replicate 16 c) s = true ↔ value a = value (List.replicate s c) := by
  rw [memeq, List.take_of_length_le (by omega), List.take_replicate, Nat.min_eq_left hs, beq_iff_eq]
  exact ⟨congrArg value, eq_of_value_eq (by simp [ha])⟩

end Compare

/-- **`match_ranges` on two ranges that do not run backwards.** -/
theorem matchRanges_eq {lo hi lo' hi' : List UInt8} {s : ℕ} (hs : s ≤ 16)
    (hlo : lo.length = s) (hhi : hi.length = s) (hlo' : lo'.length = s) (hhi' : hi'.length = s)
    (hle : value lo ≤ value hi) (hle' : value lo' ≤ value hi') :
    matchRanges lo hi lo' hi' s = rangeMatch (value lo) (value hi) (value lo') (value hi') (2 ^ (8 * s) - 1) := by
  unfold matchRanges rangeMatch
  simp only [memcmpN_eq hhi hlo, memcmpN_eq hhi' hlo', memeq_replicate_iff hlo' hs, memeq_replicate_iff hhi' hs,
    memcmpN_eq hlo hlo', memcmpN_eq hhi hhi', value_replicate_zero, value_replicate_ff_eq, Nat.compare_eq_lt,
    Nat.compare_eq_eq, Nat.compare_ne_lt, Nat.compare_ne_gt]
  split_ifs <;> omega

/-! ## Netmasks -/

@[simp] theorem length_netmaskLoop : ∀ n bytes bits : ℕ, (netmaskLoop n bytes bits).length = n
  | 0, _, _ => rfl
  | n + 1, bytes, bits => by
    unfold netmaskLoop
    split_ifs <;> simp [length_netmaskLoop n]

@[simp] theorem length_netmaskOf (size netbits : ℕ) : (netmaskOf size netbits).length = size :=
  length_netmaskLoop _ _ _

/-- Bit `j` of byte `k` of the netmask is set exactly when it is among the first
`8 * bytes + bits` bits. -/
theorem testBit_getD_netmaskLoop {j : ℕ} (hj : j < 8) :
    ∀ (n bytes bits k : ℕ), bits < 8 →
      ((netmaskLoop n bytes bits).getD k 0).toNat.testBit j = decide (k < n ∧ 8 * k + 8 ≤ 8 * bytes + bits + j)
  | 0, _, _, k, _ => by simp [netmaskLoop]
  | n + 1, bytes, bits, k, hbits => by
    have hff : (0xff : UInt8).toNat.testBit j = true := by
      rw [show (0xff : UInt8).toNat = 2 ^ 8 - 1 from rfl, Nat.testBit_two_pow_sub_one]
      exact decide_eq_true hj
    unfold netmaskLoop
    split_ifs with hbytes hbits0
    · -- a byte of ones, and `bytes - 1` of them after it
      cases k with
      | zero => rw [List.getD_cons_zero, hff]; exact (decide_eq_true (by omega)).symm
      | succ k =>
        rw [List.getD_cons_succ, testBit_getD_netmaskLoop hj n (bytes - 1) bits k hbits]
        exact decide_eq_decide.mpr (by omega)
    · -- the byte that ends the prefix, then zero bytes
      cases k with
      | zero =>
        rw [List.getD_cons_zero, Bits.testBit_high_mask]
        simp only [hj, decide_true, Bool.and_true]
        exact decide_eq_decide.mpr (by omega)
      | succ k =>
        rw [List.getD_cons_succ, testBit_getD_netmaskLoop hj n 0 0 k (by omega)]
        exact decide_eq_decide.mpr (by omega)
    · cases k with
      | zero =>
        rw [List.getD_cons_zero, UInt8.toNat_zero, Nat.zero_testBit]
        exact (decide_eq_false (by omega)).symm
      | succ k =>
        rw [List.getD_cons_succ, testBit_getD_netmaskLoop hj n 0 0 k (by omega)]
        exact decide_eq_decide.mpr (by omega)

theorem testBit_getD_netmaskOf {size netbits k j : ℕ} (hj : j < 8) :
    ((netmaskOf size netbits).getD k 0).toNat.testBit j = decide (k < size ∧ 8 * k + 8 ≤ netbits + j) := by
  rw [netmaskOf, testBit_getD_netmaskLoop hj _ _ _ _ (Nat.mod_lt _ (by norm_num))]
  exact decide_eq_decide.mpr (by omega)

/-- The byte that ends a prefix of `b` bits within it: set, not all ones, with `b`
leading ones. -/
theorem highMask_facts : ∀ b < 8, 0 < b →
    UInt8.ofNat (0xff <<< (8 - b)) ≠ 0 ∧ UInt8.ofNat (0xff <<< (8 - b)) ≠ 0xff ∧
      leadingOnes (UInt8.ofNat (0xff <<< (8 - b))) 8 = b := by
  decide

/-- `netmask_to_cidr` reads back the prefix length the netmask loop wrote. -/
theorem netmaskToCidr_netmaskLoop : ∀ (n bytes bits : ℕ), bits < 8 → 8 * bytes + bits ≤ 8 * n →
    netmaskToCidr (netmaskLoop n bytes bits) = 8 * bytes + bits
  | 0, bytes, bits, _, h => by
    rw [netmaskLoop, netmaskToCidr]
    omega
  | n + 1, bytes, bits, hbits, h => by
    unfold netmaskLoop
    split_ifs with hbytes hbits0
    · rw [netmaskToCidr, if_neg (by decide), if_pos rfl,
        netmaskToCidr_netmaskLoop n (bytes - 1) bits hbits (by omega)]
      omega
    · obtain ⟨hne0, hneff, hlead⟩ := highMask_facts bits hbits (by omega)
      rw [netmaskToCidr, if_neg hne0, if_neg hneff, hlead, netmaskToCidr_netmaskLoop n 0 0 (by omega) (by omega)]
      omega
    · rw [netmaskToCidr, if_pos rfl]
      omega

theorem netmaskToCidr_netmaskOf {size netbits : ℕ} (h : netbits ≤ 8 * size) :
    netmaskToCidr (netmaskOf size netbits) = netbits := by
  rw [netmaskOf, netmaskToCidr_netmaskLoop _ _ _ (Nat.mod_lt _ (by norm_num)) (by omega)]
  omega

/-- A netmask as `match_subnets` takes it for a prefix of `p` bits: the netmask of the
prefix, or `NULL` for a whole address. -/
def NetmaskFor (size p : ℕ) (netmask : Option (List UInt8)) : Prop :=
  p ≤ 8 * size ∧ (netmask = some (netmaskOf size p) ∨ netmask = none ∧ p = 8 * size)

theorem prefixOf_eq {size p : ℕ} {netmask : Option (List UInt8)} (h : NetmaskFor size p netmask) :
    prefixOf netmask size = p := by
  obtain ⟨hp, rfl | ⟨rfl, rfl⟩⟩ := h
  · rw [prefixOf, List.take_of_length_le (by simp), netmaskToCidr_netmaskOf hp]
  · rfl

/-- The loop of `match_subnets` finds no byte in which the networks differ under the
other netmask exactly when they agree in the other prefix. -/
theorem any_xor_and_eq_false_iff {a b : List UInt8} {s q : ℕ} (ha : a.length = s) (hb : b.length = s) :
    ((List.range ((q + 7) / 8)).any fun i =>
        (a.getD i 0 ^^^ b.getD i 0) &&& (netmaskOf s q).getD i 0 ≠ 0) = false ↔
      value a / 2 ^ (8 * s - q) = value b / 2 ^ (8 * s - q) := by
  rw [← ha, div_two_pow_eq_iff (by omega), ha, List.any_eq_false]
  simp only [List.mem_range, decide_eq_true_eq, not_not, Bits.xor_and_eq_zero_iff]
  constructor
  · intro h k hk j hj hpre
    exact h k (by omega) j hj (by rw [testBit_getD_netmaskOf hj]; exact decide_eq_true ⟨hk, hpre⟩)
  · intro h i _ j hj hm
    rw [testBit_getD_netmaskOf hj] at hm
    obtain ⟨hk, hpre⟩ := of_decide_eq_true hm
    exact h i hk j hj hpre

/-- **`match_subnets` on two canonical subnets**, or addresses, reads as `match_ranges`
on the ranges they span. -/
theorem matchSubnets_eq {net net' : List UInt8} {netmask netmask' : Option (List UInt8)} {s p q : ℕ}
    (hnet : net.length = s) (hnet' : net'.length = s) (hm : NetmaskFor s p netmask)
    (hm' : NetmaskFor s q netmask') (hn : value net % 2 ^ (8 * s - p) = 0)
    (hn' : value net' % 2 ^ (8 * s - q) = 0) :
    matchSubnets net netmask net' netmask' s =
      rangeMatch (value net) (value net + (2 ^ (8 * s - p) - 1)) (value net')
        (value net' + (2 ^ (8 * s - q) - 1)) (2 ^ (8 * s) - 1) := by
  have hlt' : value net' < 2 ^ (8 * s) := hnet' ▸ value_lt_two_pow net'
  -- `omega` reads `2 ^ k - 1` as an atom of its own: tie it to `2 ^ k`
  have hKp : 2 ^ (8 * s - p) - 1 + 1 = 2 ^ (8 * s - p) := Nat.sub_add_cancel (Nat.two_pow_pos _)
  have hKq : 2 ^ (8 * s - q) - 1 + 1 = 2 ^ (8 * s - q) := Nat.sub_add_cancel (Nat.two_pow_pos _)
  have hp := hm.1
  have hq := hm'.1
  unfold matchSubnets rangeMatch
  simp only [prefixOf_eq hm, prefixOf_eq hm']
  by_cases hq0 : q = 0
  · -- an empty prefix of the pattern: its network is zero and it spans the family
    subst hq0
    rw [Nat.sub_zero, Nat.mod_eq_of_lt hlt'] at hn'
    rw [if_pos rfl, Nat.sub_zero, if_pos ⟨hn', by omega⟩]
  · have hsmall : 2 ^ (8 * s - q) < 2 ^ (8 * s) := Nat.pow_lt_pow_right (by norm_num) (by omega)
    rw [if_neg hq0]
    rcases Nat.lt_trichotomy p q with hpq | rfl | hpq
    · -- a longer prefix in the pattern: its block is the smaller one
      have hlarger : 2 ^ (8 * s - q) < 2 ^ (8 * s - p) := Nat.pow_lt_pow_right (by norm_num) (by omega)
      rw [if_neg (Nat.ne_of_lt hpq), if_pos hpq]
      split_ifs <;> first | rfl | grind
    · -- equal prefixes: equal networks, or disjoint blocks
      rw [if_pos rfl]
      by_cases heq : value net = value net'
      · rw [if_pos ((memeq_iff hnet hnet').mpr heq)]
        split_ifs <;> first | rfl | grind
      · rw [if_neg (mt (memeq_iff hnet hnet').mp heq)]
        split_ifs <;> first | rfl | grind
    · -- a shorter prefix in the pattern: the loop compares the networks under it
      have hlarger : 2 ^ (8 * s - p) < 2 ^ (8 * s - q) := Nat.pow_lt_pow_right (by norm_num) (by omega)
      have hnetmask : netmask' = some (netmaskOf s q) := by
        rcases hm'.2 with h | ⟨-, rfl⟩
        · exact h
        · omega
      have hsub := Dyadic.aligned_subset_iff (show 8 * s - p ≤ 8 * s - q by omega) hn hn'
      rw [if_neg (Nat.ne_of_gt hpq), if_neg (Nat.not_lt_of_gt hpq), hnetmask, Option.getD_some]
      by_cases hdiv : value net / 2 ^ (8 * s - q) = value net' / 2 ^ (8 * s - q)
      · have hin := hsub.mpr hdiv
        rw [(any_xor_and_eq_false_iff hnet hnet').mpr hdiv]
        split_ifs <;> first | rfl | grind
      · have hout := mt hsub.mp hdiv
        rw [Bool.not_eq_false _ |>.mp (mt (any_xor_and_eq_false_iff hnet hnet').mp hdiv)]
        split_ifs <;> first | rfl | grind

theorem getD_take_append_replicate {a : List UInt8} {i : ℕ} (hi : i < a.length) (b c : UInt8) (r k : ℕ) :
    (a.take i ++ [b] ++ List.replicate r c).getD k 0 =
      if k < i then a.getD k 0 else if k = i then b else if k < i + 1 + r then c else 0 := by
  simp only [List.getD_eq_getElem?_getD, List.getElem?_append, List.length_append, List.length_take,
    List.length_singleton, List.getElem?_take, List.getElem?_replicate, Nat.min_eq_left (Nat.le_of_lt hi)]
  split_ifs <;> first | rfl | (exfalso; omega) | simp_all

/-- **`subnet_to_range` on a canonical subnet**: the network with its host bits cleared,
and with them set. -/
theorem subnetToRange_spec {n : List UInt8} {s netbits : ℕ} (hn : n.length = s) (hp : netbits ≤ 8 * s) :
    (subnetToRange (n ++ netmaskOf s netbits) s).1.length = s ∧
      (subnetToRange (n ++ netmaskOf s netbits) s).2.length = s ∧
      value (subnetToRange (n ++ netmaskOf s netbits) s).1 = value n - value n % 2 ^ (8 * s - netbits) ∧
      value (subnetToRange (n ++ netmaskOf s netbits) s).2 =
        value n - value n % 2 ^ (8 * s - netbits) + (2 ^ (8 * s - netbits) - 1) := by
  unfold subnetToRange
  simp only [List.take_left' hn, List.drop_left' hn, List.take_of_length_le (Nat.le_of_eq (length_netmaskOf s netbits)),
    netmaskToCidr_netmaskOf hp]
  split_ifs with hi
  · -- the prefix ends in byte `netbits / 8`, under the mask of its `netbits % 8` high bits
    have hlen : ∀ c : UInt8, (List.take (netbits / 8) n ++ [c] ++ List.replicate (s - netbits / 8 - 1) c).length = s := by
      intro c; simp; omega
    refine ⟨by simp; omega, by simp; omega, ?_, ?_⟩
    · rw [← hn]
      refine value_eq_sub_mod_of_testBit (by simp; omega) fun k hk j hj => ?_
      rw [getD_take_append_replicate (by omega)]
      split_ifs with h1 h2 h3
      · rw [decide_eq_true (by omega), Bool.and_true]
      · subst h2
        rw [UInt8.toNat_and, Nat.testBit_and, Bits.testBit_high_mask, decide_eq_true hj, Bool.and_true]
        exact congrArg _ (decide_eq_decide.mpr (by omega))
      · rw [UInt8.toNat_zero, Nat.zero_testBit, decide_eq_false (by omega), Bool.and_false]
      · omega
    · rw [← hn]
      refine value_eq_sub_mod_add_of_testBit (by simp; omega) fun k hk j hj => ?_
      rw [getD_take_append_replicate (by omega)]
      split_ifs with h1 h2 h3
      · rw [decide_eq_true (by omega), Bool.not_true, Bool.or_false]
      · subst h2
        rw [UInt8.toNat_or, Nat.testBit_or, Bits.testBit_toNat_not, Bits.testBit_high_mask, decide_eq_true hj,
          Bool.true_and, Bool.and_true]
        exact congrArg _ (congrArg _ (decide_eq_decide.mpr (by omega)))
      · rw [decide_eq_false (by omega), Bool.not_false, Bool.or_true,
          show (0xff : UInt8).toNat = 2 ^ 8 - 1 from rfl, Nat.testBit_two_pow_sub_one, decide_eq_true hj]
      · omega
  · -- a prefix of the whole address: the network alone
    have hs : 8 * s - netbits = 0 := by omega
    simp [hs, hn, Nat.mod_one]

/-! ## The dispatch of `matches_range` -/

/-- The routine `matches_range` hands an identity of kind `k` against a pattern of kind
`k'`; an address against another address has none. -/
def routine : IpKind → IpKind → Identification → Identification → ℕ → ℕ
  | .addr, .addr => fun _ _ _ => idMatchNone
  | .subnet, .addr => matchesSubnetToAddr
  | .range, .addr => matchesRangeToAddr
  | .addr, .subnet => matchesAddrToSubnet
  | .subnet, .subnet => matchesSubnetToSubnet
  | .range, .subnet => matchesRangeToSubnet
  | .addr, .range => matchesAddrToRange
  | .subnet, .range => matchesSubnetToRange
  | .range, .range => matchesRangeToRange

/-- **`matches_range` on an IP identity**: `ID_MATCH_ANY` and `ID_MATCH_PERFECT` first, then
the routine of the two kinds where the pattern is of the same family, and `ID_MATCH_NONE`
for any other pattern. -/
theorem matchesRange_ipType {f : Family} {k : IpKind} {this : Identification} (h : this.type = ipType f k)
    (other : Identification) :
    matchesRange this other =
      if other.type = .idAny then idMatchAny
      else if this.type = other.type ∧ this.encoded = other.encoded then idMatchPerfect
      else match ipKindOf other.type with
        | some (f', k') => if f' = f then routine k k' this other f.addrLen else idMatchNone
        | none => idMatchNone := by
  obtain ⟨t, e⟩ := this
  obtain ⟨t', e'⟩ := other
  cases h
  cases f <;> cases k <;> cases t' <;> simp [matchesRange, ipKindOf, routine, Family.addrLen]

/-! ## Canonical identities as intervals -/

theorem addrLen_pos (f : Family) : 0 < f.addrLen := by
  cases f <;> decide

theorem addrLen_le (f : Family) : f.addrLen ≤ 16 := by
  cases f <;> decide

/-- The bits of a netmask: those of its prefix. -/
theorem testBit_value_netmaskOf {s netbits : ℕ} (i : ℕ) :
    (value (netmaskOf s netbits)).testBit i = (decide (8 * s - netbits ≤ i) && decide (i < 8 * s)) := by
  have hff : (0xff : UInt8).toNat.testBit 0 = true := rfl
  have hmask : value (netmaskOf s netbits) =
      value (List.replicate s 0xff) - value (List.replicate s 0xff) % 2 ^ (8 * (List.replicate s (0xff : UInt8)).length - netbits) := by
    refine value_eq_sub_mod_of_testBit (by simp) fun k hk j hj => ?_
    rw [List.length_replicate] at hk
    rw [testBit_getD_netmaskOf hj, List.getD_replicate _ hk,
      show (0xff : UInt8).toNat = 2 ^ 8 - 1 from rfl, Nat.testBit_two_pow_sub_one, decide_eq_true hj, Bool.true_and]
    exact decide_eq_decide.mpr (by omega)
  rw [hmask, Bits.testBit_sub_mod_two_pow_eq, List.length_replicate, value_replicate_ff_eq, Nat.testBit_two_pow_sub_one]

/-- The end of an aligned block lies in the family. -/
theorem add_two_pow_le {n k m : ℕ} (hk : k ≤ m) (hn : n % 2 ^ k = 0) (hlt : n < 2 ^ m) : n + 2 ^ k ≤ 2 ^ m := by
  have h := (Dyadic.aligned_subset_iff hk hn (Nat.zero_mod _)).mpr
    (by rw [Nat.div_eq_of_lt hlt, Nat.zero_div])
  omega

theorem ipType_eq_iff {f : Family} {k k' : IpKind} : ipType f k = ipType f k' ↔ k = k' := by
  cases f <;> cases k <;> cases k' <;> simp [ipType]

namespace IpIdentity

variable {f : Family}

theorem first_le_last (x : IpIdentity f) : x.spec.first ≤ x.spec.last f.addrLen := by
  obtain ⟨spec, hc⟩ := x
  cases spec with
  | addr a => exact Nat.le_refl _
  | subnet n netbits => exact Nat.le_add_right _ _
  | range lo hi => exact hc.2.2

theorem last_lt (x : IpIdentity f) : x.spec.last f.addrLen < 2 ^ (8 * f.addrLen) := by
  obtain ⟨spec, hc⟩ := x
  cases spec with
  | addr a => exact hc ▸ value_lt_two_pow a
  | subnet n netbits =>
    obtain ⟨hn, hp, halign⟩ := hc
    have hlt : value n < 2 ^ (8 * f.addrLen) := hn ▸ value_lt_two_pow n
    have := add_two_pow_le (Nat.sub_le _ netbits) halign hlt
    have := Nat.two_pow_pos (8 * f.addrLen - netbits)
    show value n + (2 ^ (8 * f.addrLen - netbits) - 1) < _
    omega
  | range lo hi => exact hc.2.1 ▸ value_lt_two_pow hi

/-- **A canonical identity stands for the interval from its first to its last address.** -/
theorem addressSet_toIdentification (x : IpIdentity f) :
    addressSet x.toIdentification = Set.Icc x.spec.first (x.spec.last f.addrLen) := by
  have hlast := x.last_lt
  obtain ⟨spec, hc⟩ := x
  cases spec with
  | addr a =>
    simp [toIdentification, IpSpec.encode, addressSet, IpSpec.first, IpSpec.last, Set.Icc_self]
  | subnet n netbits =>
    obtain ⟨hn, hp, halign⟩ := hc
    have hnlt : value n < 2 ^ (8 * f.addrLen) := hn ▸ value_lt_two_pow n
    simp only [toIdentification, IpSpec.encode, addressSet, ipKindOf_ipType, List.drop_left' hn,
      List.take_left' hn, testBit_value_netmaskOf, Bool.and_eq_true, decide_eq_true_eq, and_imp]
    simp only [IpSpec.last] at hlast
    have hpos := Nat.two_pow_pos (8 * f.addrLen - netbits)
    ext y
    simp only [Set.mem_ofPred_eq, Set.mem_Icc, IpSpec.first, IpSpec.last]
    -- both sides say that `y` lies in the aligned block of the network
    constructor
    · rintro ⟨hy, hbits⟩
      have hdiv : y / 2 ^ (8 * f.addrLen - netbits) = value n / 2 ^ (8 * f.addrLen - netbits) := by
        refine Bits.div_two_pow_eq_of_testBit_eq fun i hi => ?_
        by_cases hi' : i < 8 * f.addrLen
        · exact hbits i hi hi'
        · have hle : 2 ^ (8 * f.addrLen) ≤ 2 ^ i := Nat.pow_le_pow_right (by norm_num) (Nat.le_of_not_lt hi')
          rw [Nat.testBit_lt_two_pow (by omega), Nat.testBit_lt_two_pow (by omega)]
      have := (Dyadic.mem_blockOf_iff_of_mod halign).mp hdiv
      omega
    · rintro ⟨h1, h2⟩
      have hdiv := (Dyadic.mem_blockOf_iff_of_mod halign).mpr ⟨h1, by omega⟩
      exact ⟨by omega, fun i hi _ => Bits.testBit_eq_of_div_two_pow_eq hdiv hi⟩
  | range lo hi =>
    obtain ⟨hlo, hhi, -⟩ := hc
    simp [toIdentification, IpSpec.encode, addressSet, List.drop_left' hlo, List.take_left' hlo,
      IpSpec.first, IpSpec.last]

theorem type_toIdentification (x : IpIdentity f) : x.toIdentification.type = ipType f x.spec.kind := by
  obtain ⟨spec, -⟩ := x
  cases spec <;> rfl

/-- The encoding gives back the kind and the ends: the netmask gives back the prefix. -/
theorem ends_eq_of_encoded_eq (x y : IpIdentity f) (htype : x.toIdentification.type = y.toIdentification.type)
    (henc : x.toIdentification.encoded = y.toIdentification.encoded) :
    x.spec.kind = y.spec.kind ∧ x.spec.first = y.spec.first ∧ x.spec.last f.addrLen = y.spec.last f.addrLen := by
  have hkind : x.spec.kind = y.spec.kind := by
    rwa [type_toIdentification, type_toIdentification, ipType_eq_iff] at htype
  refine ⟨hkind, ?_⟩
  obtain ⟨⟨a⟩ | ⟨n, netbits⟩ | ⟨lo, hi⟩, hx⟩ := x <;> obtain ⟨⟨a'⟩ | ⟨n', netbits'⟩ | ⟨lo', hi'⟩, hy⟩ := y <;>
    simp only [IpSpec.kind, reduceCtorEq] at hkind <;>
    simp only [toIdentification, IpSpec.encode] at henc
  · cases henc
    exact ⟨rfl, rfl⟩
  · obtain ⟨hn, hp, -⟩ := hx
    obtain ⟨hn', hp', -⟩ := hy
    obtain ⟨rfl, hmask⟩ := List.append_inj henc (hn.trans hn'.symm)
    -- `netmask_to_cidr` reads the same prefix off the same netmask
    have hbits : netbits = netbits' := by
      rw [← netmaskToCidr_netmaskOf hp, hmask, netmaskToCidr_netmaskOf hp']
    subst hbits
    exact ⟨rfl, rfl⟩
  · obtain ⟨rfl, rfl⟩ := List.append_inj henc (hx.1.trans hy.1.symm)
    exact ⟨rfl, rfl⟩

/-- Two identities of one kind with the same ends have the same encoding. -/
theorem encoded_eq_of_ends_eq (x y : IpIdentity f) (hkind : x.spec.kind = y.spec.kind)
    (hfirst : x.spec.first = y.spec.first) (hlast : x.spec.last f.addrLen = y.spec.last f.addrLen) :
    x.toIdentification.encoded = y.toIdentification.encoded := by
  obtain ⟨⟨a⟩ | ⟨n, netbits⟩ | ⟨lo, hi⟩, hx⟩ := x <;> obtain ⟨⟨a'⟩ | ⟨n', netbits'⟩ | ⟨lo', hi'⟩, hy⟩ := y <;>
    simp only [IpSpec.kind, reduceCtorEq] at hkind <;>
    simp only [IpSpec.first, IpSpec.last] at hfirst hlast
  · exact eq_of_value_eq (hx.trans hy.symm) hfirst
  · obtain ⟨hn, hp, -⟩ := hx
    obtain ⟨hn', hp', -⟩ := hy
    -- equal ends, equal block sizes: equal prefixes
    have hsize : 2 ^ (8 * f.addrLen - netbits) = 2 ^ (8 * f.addrLen - netbits') := by
      have := Nat.two_pow_pos (8 * f.addrLen - netbits)
      have := Nat.two_pow_pos (8 * f.addrLen - netbits')
      omega
    have hbits : netbits = netbits' := by
      have := Nat.pow_right_injective (le_refl 2) hsize
      omega
    simp only [toIdentification, IpSpec.encode, eq_of_value_eq (hn.trans hn'.symm) hfirst, hbits]
  · simp only [toIdentification, IpSpec.encode, eq_of_value_eq (hx.1.trans hy.1.symm) hfirst,
      eq_of_value_eq (hx.2.1.trans hy.2.1.symm) hlast]

end IpIdentity

/-! ## The nine routines on canonical identities -/

theorem checkLengths_eq {this other : Identification} {l l' body : ℕ} (h : this.encoded.length = l)
    (h' : other.encoded.length = l') : checkLengths this other l l' body = body := by
  rw [checkLengths, if_neg (by omega)]

/-- `subnet_to_range` on a canonical subnet: the network, and its last address. -/
theorem subnetToRange_canonical {n : List UInt8} {s netbits : ℕ} (hn : n.length = s) (hp : netbits ≤ 8 * s)
    (halign : value n % 2 ^ (8 * s - netbits) = 0) :
    (subnetToRange (n ++ netmaskOf s netbits) s).1.length = s ∧
      (subnetToRange (n ++ netmaskOf s netbits) s).2.length = s ∧
      value (subnetToRange (n ++ netmaskOf s netbits) s).1 = value n ∧
      value (subnetToRange (n ++ netmaskOf s netbits) s).2 = value n + (2 ^ (8 * s - netbits) - 1) := by
  have h := subnetToRange_spec hn hp
  rw [halign, Nat.sub_zero] at h
  exact h

theorem length_subnet_encoded {n : List UInt8} {s netbits : ℕ} (hn : n.length = s) :
    (n ++ netmaskOf s netbits).length = 2 * s := by
  rw [List.length_append, hn, length_netmaskOf]
  omega

/-- **Each routine decides `match_ranges` on the intervals of the two identities**, unless
they are the same identity. -/
theorem routine_eq (x y : IpIdentity f)
    (hne : ¬(x.spec.kind = y.spec.kind ∧ x.spec.first = y.spec.first ∧
      x.spec.last f.addrLen = y.spec.last f.addrLen)) :
    routine x.spec.kind y.spec.kind x.toIdentification y.toIdentification f.addrLen =
      rangeMatch x.spec.first (x.spec.last f.addrLen) y.spec.first (y.spec.last f.addrLen) (2 ^ (8 * f.addrLen) - 1) := by
  have hs := addrLen_le f
  have hpos : 0 < 2 ^ (8 * f.addrLen) - 1 := by
    have := Nat.one_lt_two_pow (n := 8 * f.addrLen) (by have := addrLen_pos f; omega)
    omega
  obtain ⟨sx, hx⟩ := x
  obtain ⟨sy, hy⟩ := y
  simp only [IpSpec.Canonical] at hx hy
  cases sx with
  | addr a =>
    cases sy with
    | addr a' =>
      -- no routine: two different addresses
      simp only [IpSpec.kind, IpSpec.first, IpSpec.last, true_and, and_self] at hne
      simp only [routine, IpSpec.kind, rangeMatch, IpSpec.first, IpSpec.last]
      split_ifs <;> first | rfl | grind
    | subnet n' netbits' =>
      obtain ⟨hn', hp', halign'⟩ := hy
      simp only [routine, IpSpec.kind, matchesAddrToSubnet, IpIdentity.toIdentification, IpSpec.encode, IpSpec.first, IpSpec.last]
      rw [checkLengths_eq hx (length_subnet_encoded hn'), List.take_left' hn', List.drop_left' hn',
        matchSubnets_eq hx hn' ⟨le_rfl, .inr ⟨rfl, rfl⟩⟩ ⟨hp', .inl rfl⟩ (by simp [Nat.mod_one]) halign']
      simp
    | range lo' hi' =>
      obtain ⟨hlo', hhi', hle'⟩ := hy
      simp only [routine, IpSpec.kind, matchesAddrToRange, IpIdentity.toIdentification, IpSpec.encode, IpSpec.first, IpSpec.last]
      rw [checkLengths_eq hx (by simp [hlo', hhi']; omega), List.take_left' hlo', List.drop_left' hlo',
        matchRanges_eq hs hx hx hlo' hhi' le_rfl hle']
  | subnet n netbits =>
    obtain ⟨hn, hp, halign⟩ := hx
    cases sy with
    | addr a' =>
      simp only [routine, IpSpec.kind, matchesSubnetToAddr, IpIdentity.toIdentification, IpSpec.encode, IpSpec.first, IpSpec.last]
      rw [checkLengths_eq (length_subnet_encoded hn) hy, List.take_left' hn, List.drop_left' hn,
        matchSubnets_eq hn hy ⟨hp, .inl rfl⟩ ⟨le_rfl, .inr ⟨rfl, rfl⟩⟩ halign (by simp [Nat.mod_one])]
      simp
    | subnet n' netbits' =>
      obtain ⟨hn', hp', halign'⟩ := hy
      simp only [routine, IpSpec.kind, matchesSubnetToSubnet, IpIdentity.toIdentification, IpSpec.encode, IpSpec.first,
        IpSpec.last]
      rw [checkLengths_eq (length_subnet_encoded hn) (length_subnet_encoded hn'), List.take_left' hn,
        List.drop_left' hn, List.take_left' hn', List.drop_left' hn',
        matchSubnets_eq hn hn' ⟨hp, .inl rfl⟩ ⟨hp', .inl rfl⟩ halign halign']
    | range lo' hi' =>
      obtain ⟨hlo', hhi', hle'⟩ := hy
      obtain ⟨h1, h2, hv1, hv2⟩ := subnetToRange_canonical hn hp halign
      simp only [routine, IpSpec.kind, matchesSubnetToRange, IpIdentity.toIdentification, IpSpec.encode, IpSpec.first,
        IpSpec.last]
      rw [checkLengths_eq (length_subnet_encoded hn) (by simp [hlo', hhi']; omega), List.take_left' hlo',
        List.drop_left' hlo', matchRanges_eq hs h1 h2 hlo' hhi' (by omega) hle', hv1, hv2]
  | range lo hi =>
    obtain ⟨hlo, hhi, hle⟩ := hx
    cases sy with
    | addr a' =>
      simp only [routine, IpSpec.kind, matchesRangeToAddr, IpIdentity.toIdentification, IpSpec.encode, IpSpec.first, IpSpec.last]
      rw [checkLengths_eq (by simp [hlo, hhi]; omega) hy, List.take_left' hlo, List.drop_left' hlo,
        matchRanges_eq hs hlo hhi hy hy hle le_rfl]
    | subnet n' netbits' =>
      obtain ⟨hn', hp', halign'⟩ := hy
      obtain ⟨h1, h2, hv1, hv2⟩ := subnetToRange_canonical hn' hp' halign'
      simp only [routine, IpSpec.kind, matchesRangeToSubnet, IpIdentity.toIdentification, IpSpec.encode, IpSpec.first,
        IpSpec.last]
      rw [checkLengths_eq (by simp [hlo, hhi]; omega) (length_subnet_encoded hn'), List.take_left' hlo,
        List.drop_left' hlo, matchRanges_eq hs hlo hhi h1 h2 hle (by omega), hv1, hv2]
    | range lo' hi' =>
      obtain ⟨hlo', hhi', hle'⟩ := hy
      simp only [routine, IpSpec.kind, matchesRangeToRange, IpIdentity.toIdentification, IpSpec.encode, IpSpec.first,
        IpSpec.last]
      rw [checkLengths_eq (by simp [hlo, hhi]; omega) (by simp [hlo', hhi']; omega), List.take_left' hlo,
        List.drop_left' hlo, List.take_left' hlo', List.drop_left' hlo',
        matchRanges_eq hs hlo hhi hlo' hhi' hle hle']

/-- **`matches_range` on two canonical identities of one family**: `ID_MATCH_PERFECT` for
the same identity, and otherwise `match_ranges` on the intervals they stand for. -/
theorem matchesRange_toIdentification (x y : IpIdentity f) :
    matchesRange x.toIdentification y.toIdentification =
      if x.spec.kind = y.spec.kind ∧ x.spec.first = y.spec.first ∧ x.spec.last f.addrLen = y.spec.last f.addrLen
      then idMatchPerfect
      else rangeMatch x.spec.first (x.spec.last f.addrLen) y.spec.first (y.spec.last f.addrLen)
        (2 ^ (8 * f.addrLen) - 1) := by
  rw [matchesRange_ipType (IpIdentity.type_toIdentification x), IpIdentity.type_toIdentification y,
    if_neg (by cases f <;> cases y.spec.kind <;> simp [ipType]), ipKindOf_ipType]
  simp only [if_true]
  by_cases hsame : x.spec.kind = y.spec.kind ∧ x.spec.first = y.spec.first ∧
      x.spec.last f.addrLen = y.spec.last f.addrLen
  · rw [if_pos hsame, if_pos ⟨by rw [IpIdentity.type_toIdentification, hsame.1],
      IpIdentity.encoded_eq_of_ends_eq x y hsame.1 hsame.2.1 hsame.2.2⟩]
  · rw [if_neg hsame, if_neg fun h => hsame (IpIdentity.ends_eq_of_encoded_eq x y
      (by rw [h.1, IpIdentity.type_toIdentification]) h.2), routine_eq x y hsame]

/-! ## What `matches_range` decides, in address sets -/

/-- The decision of `matches_range` on the intervals `[a, b]` and `[a', b']` of a family
whose last address is `top`, where `same` says whether the identities are of one kind. -/
theorem rangeMatch_cases {a b top : ℕ} (a' b' : ℕ) (same : Prop) [Decidable same] (hb : b ≤ top) :
    let r := if same ∧ a = a' ∧ b = b' then idMatchPerfect else rangeMatch a b a' b' top
    (r ≠ idMatchNone ↔ a' ≤ a ∧ b ≤ b') ∧
      (r = idMatchPerfect ↔ (a = a' ∧ b = b') ∧ (¬(a' = 0 ∧ b' = top) ∨ same)) ∧
      (r = idMatchMaxWildcards ↔ (a' = 0 ∧ b' = top) ∧ (¬(a = a' ∧ b = b') ∨ ¬same)) ∧
      (r = idMatchOneWildcard ↔ (a' ≤ a ∧ b ≤ b') ∧ ¬(a = a' ∧ b = b') ∧ ¬(a' = 0 ∧ b' = top)) := by
  intro r
  have hne : idMatchNone ≠ idMatchPerfect ∧ idMatchNone ≠ idMatchMaxWildcards ∧ idMatchNone ≠ idMatchOneWildcard ∧
      idMatchPerfect ≠ idMatchMaxWildcards ∧ idMatchPerfect ≠ idMatchOneWildcard ∧
      idMatchMaxWildcards ≠ idMatchOneWildcard := by decide
  simp only [r, rangeMatch]
  split_ifs <;> grind

theorem familySet_subset_Icc_iff {f : Family} {a' b' : ℕ} (hb' : b' < 2 ^ (8 * f.addrLen)) :
    familySet f ⊆ Set.Icc a' b' ↔ a' = 0 ∧ b' = 2 ^ (8 * f.addrLen) - 1 := by
  have hpos := Nat.two_pow_pos (8 * f.addrLen)
  constructor
  · intro h
    have h0 := h (show 0 ∈ familySet f from hpos)
    have htop := h (show 2 ^ (8 * f.addrLen) - 1 ∈ familySet f from Nat.sub_lt hpos Nat.one_pos)
    simp only [Set.mem_Icc] at h0 htop
    omega
  · rintro ⟨rfl, rfl⟩ y hy
    exact ⟨Nat.zero_le y, Nat.le_sub_one_of_lt hy⟩

theorem type_eq_iff {f : Family} (x y : IpIdentity f) :
    x.toIdentification.type = y.toIdentification.type ↔ x.spec.kind = y.spec.kind := by
  rw [IpIdentity.type_toIdentification, IpIdentity.type_toIdentification, ipType_eq_iff]

theorem ipType_of_ipKindOf {t : IdType} {f : Family} {k : IpKind} (h : ipKindOf t = some (f, k)) :
    t = ipType f k := by
  cases t <;> simp only [ipKindOf, reduceCtorEq, Option.some.injEq, Prod.mk.injEq] at h <;>
    obtain ⟨rfl, rfl⟩ := h <;> rfl

/-- `matches_range` of an IP identity against a pattern of no IP type of its family. -/
theorem matchesRange_other_type {f : Family} (x : IpIdentity f) (other : Identification)
    (hany : other.type ≠ .idAny) (hip : ∀ k, other.type ≠ ipType f k) :
    matchesRange x.toIdentification other = idMatchNone := by
  rw [matchesRange_ipType (IpIdentity.type_toIdentification x), if_neg hany,
    if_neg fun h => hip _ (h.1.symm.trans (IpIdentity.type_toIdentification x))]
  split
  · next f' k' hkind =>
    rw [if_neg]
    rintro rfl
    exact hip k' (ipType_of_ipKindOf hkind)
  · rfl

/-- **`matches_range` on IP identities, in terms of the addresses they stand for.** For two
canonical identities of one family, the match is not `ID_MATCH_NONE` exactly when the
addresses of `this` are among those of `other`. It is `ID_MATCH_PERFECT` when they are the
same addresses, unless `other` spans the whole family and is of another type: then the
routine's check for the full range comes first and gives `ID_MATCH_MAX_WILDCARDS`, which is
otherwise the match against the whole family. `ID_MATCH_ONE_WILDCARD` is the match against
a larger part of it. A pattern of no IP type of the family, other than `ID_ANY`, matches
nothing. -/
theorem matchesRange_address_sets (f : Family) (x y : IpIdentity f) :
    (matchesRange x.toIdentification y.toIdentification ≠ idMatchNone ↔
        addressSet x.toIdentification ⊆ addressSet y.toIdentification) ∧
      (matchesRange x.toIdentification y.toIdentification = idMatchPerfect ↔
        addressSet x.toIdentification = addressSet y.toIdentification ∧
          (¬familySet f ⊆ addressSet y.toIdentification ∨
            x.toIdentification.type = y.toIdentification.type)) ∧
      (matchesRange x.toIdentification y.toIdentification = idMatchMaxWildcards ↔
        familySet f ⊆ addressSet y.toIdentification ∧
          (addressSet x.toIdentification ≠ addressSet y.toIdentification ∨
            x.toIdentification.type ≠ y.toIdentification.type)) ∧
      (matchesRange x.toIdentification y.toIdentification = idMatchOneWildcard ↔
        addressSet x.toIdentification ⊂ addressSet y.toIdentification ∧
          ¬familySet f ⊆ addressSet y.toIdentification) ∧
      ∀ other : Identification, other.type ≠ .idAny → (∀ k, other.type ≠ ipType f k) →
        matchesRange x.toIdentification other = idMatchNone := by
  have hab := x.first_le_last
  have hab' := y.first_le_last
  have hsubset : Set.Icc x.spec.first (x.spec.last f.addrLen) ⊆ Set.Icc y.spec.first (y.spec.last f.addrLen) ↔ _ :=
    Set.Icc_subset_Icc_iff hab
  have heq : Set.Icc x.spec.first (x.spec.last f.addrLen) = Set.Icc y.spec.first (y.spec.last f.addrLen) ↔ _ :=
    Set.Icc_eq_Icc_iff hab
  obtain ⟨hnone, hperfect, hmax, hone⟩ :=
    rangeMatch_cases y.spec.first (y.spec.last f.addrLen) (x.spec.kind = y.spec.kind) (Nat.le_sub_one_of_lt x.last_lt)
  rw [← matchesRange_toIdentification] at hnone hperfect hmax hone
  simp only [← hsubset, ← heq, ← familySet_subset_Icc_iff y.last_lt, ← IpIdentity.addressSet_toIdentification,
    ← type_eq_iff] at hnone hperfect hmax hone
  refine ⟨hnone, hperfect, hmax, ?_, matchesRange_other_type x⟩
  rw [hone, Set.ssubset_iff_subset_ne, and_assoc, ne_eq]

/-- The full IPv4 range against the subnet `0.0.0.0/0`: the same addresses, and
`ID_MATCH_MAX_WILDCARDS`. -/
theorem matchesRange_full_range_zero_subnet :
    let this : IpIdentity .inet := ⟨.range [0, 0, 0, 0] [255, 255, 255, 255], ⟨rfl, rfl, by simp [value]⟩⟩
    let other : IpIdentity .inet := ⟨.subnet [0, 0, 0, 0] 0, ⟨rfl, by simp [Family.addrLen], by simp [value]⟩⟩
    addressSet this.toIdentification = addressSet other.toIdentification ∧
      matchesRange this.toIdentification other.toIdentification = idMatchMaxWildcards := by
  intro this other
  refine ⟨?_, by decide⟩
  rw [IpIdentity.addressSet_toIdentification, IpIdentity.addressSet_toIdentification]
  rfl

theorem matchesRange_address_sets_fqdn :
    matchesRange (⟨.addr [10, 0, 0, 1], rfl⟩ : IpIdentity .inet).toIdentification ⟨.idFqdn, []⟩ = idMatchNone :=
  (matchesRange_address_sets .inet ⟨.addr [10, 0, 0, 1], rfl⟩ ⟨.addr [10, 0, 0, 1], rfl⟩).2.2.2.2
    ⟨.idFqdn, []⟩ (by decide) (by intro k; cases k <;> decide)

/-! ## The identities `create_ip_address_from_string` builds -/

/-- The family `create_ip_address_from_string` parses. -/
def familyOf (isIpv4 : Bool) : Family := if isIpv4 then .inet else .inet6

/-- The addresses `inet_pton` writes: `address_size` bytes each. -/
def IpText.Sized (size : ℕ) : IpText → Prop
  | .addr a => a.length = size
  | .subnet a _ => a.length = size
  | .range a b => a.length = size ∧ b.length = size

/-- The order check of a range is `memcmp` of the two addresses. -/
theorem rangeOrdered_eq : ∀ a b : List UInt8, rangeOrdered a b = (memcmp a b != .gt)
  | x :: xs, y :: ys => by
    simp only [rangeOrdered, memcmp]
    by_cases h : x = y
    · rw [if_neg (not_not.mpr h), if_pos h, rangeOrdered_eq xs ys]
    · rw [if_pos h, if_neg h, UInt8.compare_eq_toNat_compare_toNat, Bool.eq_iff_iff]
      simp only [Bool.not_eq_true', decide_eq_false_iff_not, bne_iff_ne, ne_eq, Nat.compare_eq_gt, gt_iff_lt,
        UInt8.lt_iff_toNat_lt]
  | [], _ => rfl
  | _ :: _, [] => rfl

theorem value_le_of_rangeOrdered {a b : List UInt8} (hlen : a.length = b.length)
    (h : rangeOrdered a b = true) : value a ≤ value b := by
  rw [rangeOrdered_eq, memcmp_eq_compare hlen, bne_iff_ne, ne_eq, Nat.compare_eq_gt, Nat.not_lt] at h
  exact h

theorem getD_zipWith_and (a b : List UInt8) (k : ℕ) :
    (List.zipWith (· &&& ·) a b).getD k 0 = a.getD k 0 &&& b.getD k 0 := by
  simp only [List.getD_eq_getElem?_getD, List.getElem?_zipWith]
  cases a[k]? <;> cases b[k]? <;> simp

/-- The network of a subnet: the address with the bits outside the prefix cleared. -/
theorem value_zipWith_netmaskOf {a : List UInt8} {s netbits : ℕ} (ha : a.length = s) :
    value (List.zipWith (· &&& ·) a (netmaskOf s netbits)) = value a - value a % 2 ^ (8 * s - netbits) := by
  rw [← ha]
  refine value_eq_sub_mod_of_testBit (by simp [ha]) fun k hk j hj => ?_
  rw [getD_zipWith_and, UInt8.toNat_and, Nat.testBit_and, testBit_getD_netmaskOf hj]
  exact congrArg _ (decide_eq_decide.mpr (by omega))

/-- **`create_ip_address_from_string` builds canonical identities**: from addresses of its
family's length, every identity it returns is the encoding of a canonical one. -/
theorem createIpAddressFromString_canonical {isIpv4 : Bool} {t : IpText} {id : Identification}
    (hsized : t.Sized (familyOf isIpv4).addrLen) (h : createIpAddressFromString isIpv4 t = some id) :
    ∃ x : IpIdentity (familyOf isIpv4), x.toIdentification = id := by
  cases t with
  | addr a =>
    cases h
    exact ⟨⟨.addr a, hsized⟩, by cases isIpv4 <;> rfl⟩
  | subnet a bits =>
    -- the netmask the loop writes is that of the prefix, `bits - 8 * (bits / 8)` its last bits
    have hsubnet : createIpAddressFromString isIpv4 (.subnet a bits) =
        if bits < 0 ∨ 8 * ((familyOf isIpv4).addrLen : ℤ) < bits then none
        else some ((IpSpec.subnet (List.zipWith (· &&& ·) a (netmaskOf (familyOf isIpv4).addrLen bits.toNat))
          bits.toNat).encode (familyOf isIpv4)) := by
      cases isIpv4 <;> simp [createIpAddressFromString, IpSpec.encode, netmaskOf, familyOf, ipType, Family.addrLen,
        ← Nat.mod_def]
    rw [hsubnet] at h
    split at h
    · cases h
    · next hbits =>
      cases h
      have hnb : bits.toNat ≤ 8 * (familyOf isIpv4).addrLen := by omega
      refine ⟨⟨.subnet (List.zipWith (· &&& ·) a (netmaskOf _ bits.toNat)) bits.toNat,
        ⟨by simp [show a.length = (familyOf isIpv4).addrLen from hsized], hnb, ?_⟩⟩, rfl⟩
      rw [value_zipWith_netmaskOf hsized]
      exact Bits.sub_mod_two_pow_mod _ (Nat.le_refl _)
  | range a b =>
    simp only [createIpAddressFromString] at h
    split at h
    · next hord =>
      cases h
      exact ⟨⟨.range a b, ⟨hsized.1, hsized.2, value_le_of_rangeOrdered (hsized.1.trans hsized.2.symm) hord⟩⟩,
        by cases isIpv4 <;> rfl⟩
    · cases h

/-- `10.1.2.3/8` is stored as the subnet `10.0.0.0` with the mask `255.0.0.0`, a
canonical one. -/
theorem createIpAddressFromString_canonical_subnet :
    createIpAddressFromString true (.subnet [10, 1, 2, 3] 8) =
        some ⟨.idIpv4AddrSubnet, [10, 0, 0, 0, 255, 0, 0, 0]⟩ ∧
      ∃ x : IpIdentity (familyOf true), x.toIdentification = ⟨.idIpv4AddrSubnet, [10, 0, 0, 0, 255, 0, 0, 0]⟩ := by
  have h : createIpAddressFromString true (.subnet [10, 1, 2, 3] 8) =
      some ⟨.idIpv4AddrSubnet, [10, 0, 0, 0, 255, 0, 0, 0]⟩ := by decide
  exact ⟨h, @createIpAddressFromString_canonical true (.subnet [10, 1, 2, 3] 8) _ rfl h⟩

end VpnClient.Identity
