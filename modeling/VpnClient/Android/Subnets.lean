import VpnClient.Android.Prefix
import VpnClient.Lib.TreeSet
import VpnClient.Lib.Dyadic

/-!
# `toSubnets`

The VPN service installs routes only as proper subnets: `BuilderCache.applyData`
walks `IPRangeSet.subnets()`, which splits each range of the set by
`IPRange.toSubnets`, the method modelled here. A range that caches a prefix is its own subnet. Any other range
`[f0, t0]` is split by the walk the source comment describes: below the common
prefix of `f0` and `t0`, the `from` address climbs its tree from the leaf `f0`,
recording each complete right subtree it passes, and the `to` address does the same
from `t0` with left subtrees. A last subnet closes the gap at the top, and the list
is sorted.

The loops are translated as they run, on the byte arrays (`scanStep`, halves
`fromStep` and `toStep`), and proved right through a numeric invariant (`ScanInv`).
After the `from` half has passed `m` bits, `from` is `f0` with its `m` low bits
cleared and the subnets found cover `[f0, from + 2 ^ m)` (nothing yet while
`from_prev` is `0`). After the `to` half has passed `m` bits, `to` is `t0` with its
`m` low bits cleared and the subnets cover `[to, t0]` (nothing while `to_prev` is
set). The two parts never meet, since both stay on their side of the first bit in
which `f0` and `t0` differ. `toSubnets_spec` is the result for one range;
`Android/RangeSetSubnets.lean` lifts it to whole sets.
-/

namespace VpnClient.Android

open VpnClient.Lib Bytes Dyadic

namespace IPRange

/-! ## 1. The code -/

/-- The `while` loop of `toSubnets` over the masked bit pairs, most significant bit
first: the number of bits in which the bounds agree before the first in which they
differ, `i * 8 + bit` when it stops. -/
def commonPrefixLoop : List (UInt8 × UInt8) → ℕ → ℕ
  | [], n => n
  | (f, t) :: rest, n => if f = t then commonPrefixLoop rest (n + 1) else n

/-- The variables of the loops of `toSubnets`. `fromPrev` and `toPrev` are the Java
`int`s `from_prev` and `to_prev`: they hold a masked byte or the constant `1`, and
are read only for being `0`. -/
structure SubnetScan where
  fromBytes : List UInt8
  toBytes : List UInt8
  fromPrev : UInt8
  toPrev : UInt8
  fromFull : Bool
  toFull : Bool
  netmask : ℕ
  list : List IPRange

/-- The `from` half of the loop body, at the bit `mask` selects in byte `i`. -/
def fromStep (i : ℕ) (mask : UInt8) (s : SubnetScan) : Except String SubnetScan :=
  let fromCur := s.fromBytes.getD i 0 &&& mask
  if s.fromPrev = 0 ∧ fromCur ≠ 0 then do
    -- 0 -> 1: subnet is the whole current (right) subtree
    let r ← initializeFromCIDR s.fromBytes s.netmask
    pure { s with
      fromBytes := s.fromBytes.set i (s.fromBytes.getD i 0 &&& ~~~mask)
      fromPrev := fromCur, fromFull := false, list := s.list ++ [r] }
  else if s.fromPrev ≠ 0 ∧ fromCur = 0 then do
    -- 1 -> 0: invert bit to switch to right subtree and add it
    let flipped := s.fromBytes.set i (s.fromBytes.getD i 0 ^^^ mask)
    let r ← initializeFromCIDR flipped s.netmask
    pure { s with
      fromBytes := flipped.set i (flipped.getD i 0 &&& ~~~mask), fromPrev := 1
      list := s.list ++ [r] }
  else
    pure { s with
      fromBytes := s.fromBytes.set i (s.fromBytes.getD i 0 &&& ~~~mask), fromPrev := fromCur }

/-- The `to` half of the loop body, at the bit `mask` selects in byte `i`. -/
def toStep (i : ℕ) (mask : UInt8) (s : SubnetScan) : Except String SubnetScan :=
  let toCur := s.toBytes.getD i 0 &&& mask
  if s.toPrev ≠ 0 ∧ toCur = 0 then do
    -- 1 -> 0: subnet is the whole current (left) subtree
    let r ← initializeFromCIDR s.toBytes s.netmask
    pure { s with
      toBytes := s.toBytes.set i (s.toBytes.getD i 0 &&& ~~~mask)
      toPrev := toCur, toFull := false, list := s.list ++ [r] }
  else if s.toPrev = 0 ∧ toCur ≠ 0 then do
    -- 0 -> 1: invert bit to switch to left subtree and add it
    let flipped := s.toBytes.set i (s.toBytes.getD i 0 ^^^ mask)
    let r ← initializeFromCIDR flipped s.netmask
    pure { s with
      toBytes := flipped.set i (flipped.getD i 0 &&& ~~~mask), toPrev := 0
      list := s.list ++ [r] }
  else
    pure { s with
      toBytes := s.toBytes.set i (s.toBytes.getD i 0 &&& ~~~mask), toPrev := toCur }

/-- The body of the inner `for` loop at bit `bit` of byte `i`. -/
def scanStep (i bit : ℕ) (s : SubnetScan) : Except String SubnetScan := do
  let mask := mBitmask.getD bit 0
  let s ← fromStep i mask s
  let s ← toStep i mask s
  pure { s with netmask := s.netmask - 1 }

/-- The two nested `for` loops: byte `i` from the last down to `common_byte`, and in
byte `i` bit `bit` from `7` down to `bit_min` (`common_bit` in byte `common_byte`,
else `0`). They visit the bit positions from the bottom up to position
`8 * common_byte + common_bit` from the top, so step `m` is bit `7 - m % 8` of byte
`len - 1 - m / 8`. -/
def scanLoop (len commonByte commonBit : ℕ) (s : SubnetScan) : Except String SubnetScan :=
  (List.range (8 * len - (8 * commonByte + commonBit))).foldlM
    (fun s m => scanStep (len - 1 - m / 8) (7 - m % 8) s) s

/-- The end of `toSubnets` after the loops: the last subnet, between the parts the
two sides found, from `pfx`, the length of the common prefix. -/
def lastSubnet (pfx : ℕ) (s : SubnetScan) : Except String (List IPRange) :=
  if s.fromFull && s.toFull then
    -- full subnet (from=to or from=0.. and to=1.. after common prefix)
    (s.list ++ [·]) <$> initializeFromCIDR s.fromBytes pfx
  else if s.fromFull then
    -- full from subnet (from=0.. after prefix)
    (s.list ++ [·]) <$> initializeFromCIDR s.fromBytes (pfx + 1)
  else if s.toFull then
    -- full to subnet (to=1.. after prefix)
    (s.list ++ [·]) <$> initializeFromCIDR s.toBytes (pfx + 1)
  else pure s.list

/-- `toSubnets`: the range split into proper subnets, sorted by `compareTo`
(`Collections.sort`, a stable merge sort). -/
def toSubnets (r : IPRange) : Except String (List IPRange) := do
  let list ← match r.mPrefix with
    | some _ => pure [r]
    | none => do
      -- find a common prefix
      let pfx := commonPrefixLoop (maskedBits r.mFrom r.mTo) 0
      let common := pfx + 1
      let s ← scanLoop r.mFrom.length (common / 8) (common % 8)
        ⟨r.mFrom, r.mTo, 0, 1, true, true, r.mFrom.length * 8, []⟩
      lastSubnet pfx s
  pure (list.mergeSort fun a b => (a.compareTo b).isLE)

/-! ## 2. One bit of the walk

Step `m` of the walk reads and changes bit `m` of the bounds, counted from the
bottom: bit `m % 8` of byte `n - 1 - m / 8`, under the mask `mBitmask[7 - m % 8]`. -/

section Walk

variable {m : ℕ}

theorem mBitmask_getD_walk (m : ℕ) : mBitmask.getD (7 - m % 8) 0 = UInt8.ofNat (2 ^ (m % 8)) := by
  rw [List.getD_eq_getElem?_getD, mBitmask_getElem? _ (by omega), Option.getD_some,
    show 7 - (7 - m % 8) = m % 8 by omega]

theorem walk_position {n : ℕ} (hm : m < 8 * n) : 8 * (n - 1 - (n - 1 - m / 8)) + m % 8 = m := by
  omega

/-- The byte of step `m` under its mask is bit `m` of the value. -/
theorem getD_and_walk_ne_zero_iff (a : List UInt8) (hm : m < 8 * a.length) :
    a.getD (a.length - 1 - m / 8) 0 &&& UInt8.ofNat (2 ^ (m % 8)) ≠ 0 ↔
      (value a).testBit m = true := by
  rw [Bits.and_two_pow_ne_zero_iff _ (Nat.mod_lt _ (by norm_num)),
    ← testBit_value a (by omega) (Nat.mod_lt _ (by norm_num)), walk_position hm]

/-- `a[i] &= ~mask` at step `m` takes `2 ^ m` off when bit `m` was set. -/
theorem value_clear_walk (a : List UInt8) (hm : m < 8 * a.length) :
    value (a.set (a.length - 1 - m / 8)
        (a.getD (a.length - 1 - m / 8) 0 &&& ~~~UInt8.ofNat (2 ^ (m % 8)))) +
      (if (value a).testBit m then 2 ^ m else 0) = value a := by
  have h := value_set_and_not a (i := a.length - 1 - m / 8) (by omega) (Nat.mod_lt m (by norm_num))
  rwa [walk_position hm] at h

/-- `a[i] ^= mask` at step `m` flips bit `m`. -/
theorem value_flip_walk (a : List UInt8) (hm : m < 8 * a.length) :
    value (a.set (a.length - 1 - m / 8)
        (a.getD (a.length - 1 - m / 8) 0 ^^^ UInt8.ofNat (2 ^ (m % 8)))) +
      (if (value a).testBit m then 2 ^ m else 0) =
        value a + (if (value a).testBit m then 0 else 2 ^ m) := by
  have h := value_set_xor a (i := a.length - 1 - m / 8) (by omega) (Nat.mod_lt m (by norm_num))
  rwa [walk_position hm] at h

/-- Flipping the bit and then clearing it is clearing it. -/
theorem clear_flip_walk (a : List UInt8) {i : ℕ} (hi : i < a.length) (j : ℕ) (hj : j < 8) :
    (a.set i (a.getD i 0 ^^^ UInt8.ofNat (2 ^ j))).set i
        ((a.set i (a.getD i 0 ^^^ UInt8.ofNat (2 ^ j))).getD i 0 &&& ~~~UInt8.ofNat (2 ^ j)) =
      a.set i (a.getD i 0 &&& ~~~UInt8.ofNat (2 ^ j)) := by
  rw [List.set_set, List.getD_eq_getElem?_getD, List.getElem?_set_self hi, Option.getD_some,
    Bits.xor_two_pow_and_not _ hj]

/-- A side at step `m` holds its bound `v` with the `m` low bits cleared: the byte under
the mask reads bit `m` of `v`, and clearing it leaves `v` less its `m + 1` low bits. -/
theorem walk_read_clear {a : List UInt8} {v : ℕ} (hm : m < 8 * a.length) (hv : value a = v - v % 2 ^ m) :
    (a.getD (a.length - 1 - m / 8) 0 &&& UInt8.ofNat (2 ^ (m % 8)) ≠ 0 ↔ v.testBit m = true) ∧
      value (a.set (a.length - 1 - m / 8) (a.getD (a.length - 1 - m / 8) 0 &&& ~~~UInt8.ofNat (2 ^ (m % 8)))) =
        v - v % 2 ^ (m + 1) := by
  have hbit := getD_and_walk_ne_zero_iff a hm
  rw [hv, Bits.testBit_sub_mod_two_pow] at hbit
  refine ⟨hbit, ?_⟩
  have hc := value_clear_walk a hm
  have hsucc := Bits.mod_two_pow_succ v m
  have hmodle := Nat.mod_le v (2 ^ (m + 1))
  rw [hv, Bits.testBit_sub_mod_two_pow] at hc
  split_ifs at hc hsucc <;> omega

end Walk

/-! ## 3. The invariant -/

/-- What the subnets found from the `from` side cover: nothing while `from_prev` is
`0`, then `[f0, from + 2 ^ m)`. -/
def fromCover (n f0 m : ℕ) (s : SubnetScan) : Set (ℕ × ℕ) :=
  {q | q.1 = n ∧ s.fromPrev ≠ 0 ∧ f0 ≤ q.2 ∧ q.2 < value s.fromBytes + 2 ^ m}

/-- What the subnets found from the `to` side cover: nothing while `to_prev` is set,
then `[to, t0]`. -/
def toCover (n t0 : ℕ) (s : SubnetScan) : Set (ℕ × ℕ) :=
  {q | q.1 = n ∧ s.toPrev = 0 ∧ value s.toBytes ≤ q.2 ∧ q.2 ≤ t0}

/-- The `from` side after `m` bits: `f0` with its `m` low bits cleared, `from_prev`
set once a bit of `f0` was, and `from_full` until then. -/
structure FromInv (n f0 m : ℕ) (s : SubnetScan) : Prop where
  length_eq : s.fromBytes.length = n
  value_eq : value s.fromBytes = f0 - f0 % 2 ^ m
  prev_eq_zero : s.fromPrev = 0 ↔ f0 % 2 ^ m = 0
  full_eq : s.fromFull = true ↔ s.fromPrev = 0

/-- The `to` side after `m` bits: `t0` with its `m` low bits cleared, `to_prev` set
while every bit of `t0` was, and `to_full` as long. -/
structure ToInv (n t0 m : ℕ) (s : SubnetScan) : Prop where
  length_eq : s.toBytes.length = n
  value_eq : value s.toBytes = t0 - t0 % 2 ^ m
  prev_eq_zero : s.toPrev = 0 ↔ t0 % 2 ^ m + 1 ≠ 2 ^ m
  full_eq : s.toFull = true ↔ s.toPrev ≠ 0

/-- Proper subnets of family `n`, pairwise disjoint, that together cover `S`. -/
structure SubnetList (n : ℕ) (S : Set (ℕ × ℕ)) (l : List IPRange) : Prop where
  subnets : ∀ c ∈ l, c.family = n ∧ ∃ p, c.mPrefix = some p ∧ c.IsSubnet p
  disjoint : l.Pairwise fun a b => Disjoint a.points b.points
  covered_eq : covered l = S

/-- The loop invariant of `toSubnets` for the range `[f0, t0]` of `n`-byte addresses,
after the `from` half of the body has run `mF` times and the `to` half `mT` times. -/
structure ScanInv (n f0 t0 mF mT : ℕ) (s : SubnetScan) : Prop where
  from_inv : FromInv n f0 mF s
  to_inv : ToInv n t0 mT s
  list_inv : SubnetList n (fromCover n f0 mF s ∪ toCover n t0 s) s.list

theorem SubnetList.nil (n : ℕ) : SubnetList n ∅ [] := ⟨by simp, .nil, covered_nil⟩

theorem SubnetList.singleton {n : ℕ} {c : IPRange}
    (hc : c.family = n ∧ ∃ p, c.mPrefix = some p ∧ c.IsSubnet p) : SubnetList n c.points [c] :=
  ⟨by simpa using hc, List.pairwise_singleton _ _, by simp⟩

theorem SubnetList.points_subset {n : ℕ} {S : Set (ℕ × ℕ)} {l : List IPRange} (h : SubnetList n S l)
    {c : IPRange} (hc : c ∈ l) : c.points ⊆ S :=
  h.covered_eq ▸ fun _ hq => ⟨c, hc, hq⟩

/-- Subnets disjoint from those of a list extend it. -/
theorem SubnetList.append {n : ℕ} {S N : Set (ℕ × ℕ)} {l new : List IPRange} (hl : SubnetList n S l)
    (hnew : SubnetList n N new) (hdisj : Disjoint S N) : SubnetList n (S ∪ N) (l ++ new) := by
  refine ⟨fun c hc => ?_, List.pairwise_append.mpr ⟨hl.disjoint, hnew.disjoint, ?_⟩, ?_⟩
  · rcases List.mem_append.mp hc with hc | hc
    exacts [hl.subnets c hc, hnew.subnets c hc]
  · exact fun a ha b hb => hdisj.mono (hl.points_subset ha) (hnew.points_subset hb)
  · rw [covered_append, hl.covered_eq, hnew.covered_eq]

theorem SubnetList.perm {n : ℕ} {S : Set (ℕ × ℕ)} {l l' : List IPRange} (hl : SubnetList n S l)
    (hp : l.Perm l') : SubnetList n S l' :=
  ⟨fun c hc => hl.subnets c (hp.symm.subset hc),
    (hp.pairwise_iff fun {_ _} h => h.symm).mp hl.disjoint, covered_perm hp.symm ▸ hl.covered_eq⟩

theorem ToInv.congr {n t0 m : ℕ} {s s' : SubnetScan} (h : ToInv n t0 m s)
    (hb : s'.toBytes = s.toBytes) (hp : s'.toPrev = s.toPrev) (hf : s'.toFull = s.toFull) :
    ToInv n t0 m s' := by
  obtain ⟨h1, h2, h3, h4⟩ := h
  exact ⟨hb ▸ h1, hb ▸ h2, hp ▸ h3, hf ▸ hp ▸ h4⟩

theorem FromInv.congr {n f0 m : ℕ} {s s' : SubnetScan} (h : FromInv n f0 m s)
    (hb : s'.fromBytes = s.fromBytes) (hp : s'.fromPrev = s.fromPrev) (hf : s'.fromFull = s.fromFull) :
    FromInv n f0 m s' := by
  obtain ⟨h1, h2, h3, h4⟩ := h
  exact ⟨hb ▸ h1, hb ▸ h2, hp ▸ h3, hf ▸ hp ▸ h4⟩

/-- A `from` half that keeps the `to` side and adds subnets `new` covering `N`, disjoint
from what the list covered, where the `from` side now covers its old part and `N`. -/
theorem ScanInv.of_fromStep {n f0 t0 mF mF' mT : ℕ} {s s' : SubnetScan} (h : ScanInv n f0 t0 mF mT s)
    (hfrom : FromInv n f0 mF' s') (hb : s'.toBytes = s.toBytes) (hp : s'.toPrev = s.toPrev)
    (hf : s'.toFull = s.toFull) {N : Set (ℕ × ℕ)} {new : List IPRange} (hlist : s'.list = s.list ++ new)
    (hnew : SubnetList n N new) (hdisj : Disjoint (fromCover n f0 mF s ∪ toCover n t0 s) N)
    (hcover : fromCover n f0 mF' s' = fromCover n f0 mF s ∪ N) : ScanInv n f0 t0 mF' mT s' := by
  have hto : toCover n t0 s' = toCover n t0 s := by simp only [toCover, hb, hp]
  refine ⟨hfrom, h.to_inv.congr hb hp hf, ?_⟩
  rw [hlist, hcover, hto, Set.union_right_comm]
  exact h.list_inv.append hnew hdisj

/-- A `to` half that keeps the `from` side and adds subnets `new` covering `N`, disjoint
from what the list covered, where the `to` side now covers its old part and `N`. -/
theorem ScanInv.of_toStep {n f0 t0 mF mT mT' : ℕ} {s s' : SubnetScan} (h : ScanInv n f0 t0 mF mT s)
    (hto : ToInv n t0 mT' s') (hb : s'.fromBytes = s.fromBytes) (hp : s'.fromPrev = s.fromPrev)
    (hf : s'.fromFull = s.fromFull) {N : Set (ℕ × ℕ)} {new : List IPRange} (hlist : s'.list = s.list ++ new)
    (hnew : SubnetList n N new) (hdisj : Disjoint (fromCover n f0 mF s ∪ toCover n t0 s) N)
    (hcover : toCover n t0 s' = toCover n t0 s ∪ N) : ScanInv n f0 t0 mF mT' s' := by
  have hfrom : fromCover n f0 mF s' = fromCover n f0 mF s := by simp only [fromCover, hb, hp]
  refine ⟨h.from_inv.congr hb hp hf, hto, ?_⟩
  rw [hlist, hcover, hfrom, ← Set.union_assoc]
  exact h.list_inv.append hnew hdisj

/-- The subnets found so far are maximal in `[f0, t0]`: the aligned block of twice the
size that holds each of them reaches outside the range. -/
def ParentsOutside (f0 t0 : ℕ) (l : List IPRange) : Prop :=
  ∀ c ∈ l, ∀ p, c.mPrefix = some p → ¬ blockOf (8 * c.family - p + 1) c.lo ⊆ Set.Icc f0 t0

theorem ParentsOutside.nil (f0 t0 : ℕ) : ParentsOutside f0 t0 [] := by
  simp [ParentsOutside]

theorem ParentsOutside.perm {f0 t0 : ℕ} {l l' : List IPRange} (h : ParentsOutside f0 t0 l)
    (hp : l.Perm l') : ParentsOutside f0 t0 l' :=
  fun c hc => h c (hp.symm.subset hc)

/-- A subnet of `2 ^ m` addresses may be added when the block of `2 ^ (m + 1)` holding
it also holds an address outside the range. -/
theorem ParentsOutside.append {f0 t0 n m : ℕ} {l : List IPRange} {c : IPRange}
    (hl : ParentsOutside f0 t0 l) (hfam : c.family = n) (hpre : c.mPrefix = some (8 * n - m))
    (hm : m ≤ 8 * n) {z : ℕ} (hz : z ∈ blockOf (m + 1) c.lo) (hout : z < f0 ∨ t0 < z) :
    ParentsOutside f0 t0 (l ++ [c]) := by
  intro d hd p hp
  rcases List.mem_append.mp hd with hd | hd
  · exact hl d hd p hp
  · rw [List.mem_singleton] at hd
    subst hd
    rw [hpre, Option.some.injEq] at hp
    subst hp
    rw [hfam, show 8 * n - (8 * n - m) + 1 = m + 1 by omega]
    intro hsub
    have hzI := hsub hz
    rw [Set.mem_Icc] at hzI
    omega

/-- The same, with the parent given by its first address `a`. -/
theorem ParentsOutside.append_of {f0 t0 n m : ℕ} {l : List IPRange} {c : IPRange}
    (hl : ParentsOutside f0 t0 l) (hfam : c.family = n) (hpre : c.mPrefix = some (8 * n - m))
    (hm : m ≤ 8 * n) (a z : ℕ) (ha : a % 2 ^ (m + 1) = 0) (hlo : a ≤ c.lo ∧ c.lo < a + 2 ^ (m + 1))
    (hz : a ≤ z ∧ z < a + 2 ^ (m + 1)) (hout : z < f0 ∨ t0 < z) : ParentsOutside f0 t0 (l ++ [c]) :=
  hl.append hfam hpre hm (mem_blockOf_of_aligned ha hlo hz) hout

/-- A subnet the walk adds: `initializeFromCIDR` at prefix `8 * n - m`, on bytes whose
`m` low bits are clear, is the block of `2 ^ m` addresses from there. -/
theorem emit_spec {a : List UInt8} {n m : ℕ} (hn : n = 4 ∨ n = 16) (hlen : a.length = n)
    (hm : m ≤ 8 * n) (haligned : value a % 2 ^ m = 0) :
    ∃ c, initializeFromCIDR a ((8 * n - m : ℕ) : ℤ) = .ok c ∧
      SubnetList n {q | q.1 = n ∧ value a ≤ q.2 ∧ q.2 < value a + 2 ^ m} [c] ∧
      c.family = n ∧ c.mPrefix = some (8 * n - m) ∧ c.lo = value a := by
  subst hlen
  obtain ⟨c, hc, hwf, hfam, hpre, hlo⟩ :=
    initializeFromCIDR_wellFormed (p := 8 * a.length - m) hn (by omega)
  have hsub := hwf.prefix_sound _ hpre
  have hhi := hsub.hi_eq
  rw [hfam] at hhi
  rw [show 8 * a.length - (8 * a.length - m) = m by omega] at hlo hhi
  rw [haligned, Nat.sub_zero] at hlo
  have hpts : c.points = {q | q.1 = a.length ∧ value a ≤ q.2 ∧ q.2 < value a + 2 ^ m} := by
    have := Nat.two_pow_pos m
    ext ⟨f, x⟩
    simp only [mem_points, Set.mem_ofPred_eq, hfam, hhi, hlo]
    omega
  exact ⟨c, hc, hpts ▸ SubnetList.singleton ⟨hfam, _, hpre, hsub⟩, hfam, hpre, hlo⟩

/-! ## 4. One pass of the body -/

section Step

variable {n f0 t0 m : ℕ} {s : SubnetScan}

/-- **The `from` half keeps the invariant.** At bit `m` it adds the subnet the
`0 → 1` or `1 → 0` transition of `f0`'s bits calls for, and clears the bit. -/
theorem fromStep_spec (hn : n = 4 ∨ n = 16) (hm : m < 8 * n) (h : ScanInv n f0 t0 m m s)
    (hnet : s.netmask = 8 * n - m)
    (hgap : f0 - f0 % 2 ^ (m + 1) + 2 ^ (m + 1) ≤ t0 - t0 % 2 ^ (m + 1)) :
    ∃ s', fromStep (n - 1 - m / 8) (UInt8.ofNat (2 ^ (m % 8))) s = .ok s' ∧
      ScanInv n f0 t0 (m + 1) m s' ∧ s'.netmask = s.netmask ∧
      (ParentsOutside f0 t0 s.list → ParentsOutside f0 t0 s'.list) := by
  have hF := h.from_inv
  have hlen := hF.length_eq
  have hFv := hF.value_eq
  have hprev := hF.prev_eq_zero
  have hTv := h.to_inv.value_eq
  -- the step reads bit `m` of `f0`, and clearing it leaves `f0` less its `m + 1` low bits
  obtain ⟨hbit, hclear⟩ := walk_read_clear (hlen ▸ hm) hFv
  rw [hlen] at hbit hclear
  have hsucc := Bits.mod_two_pow_succ f0 m
  have hpow : 2 ^ (m + 1) = 2 ^ m + 2 ^ m := by rw [pow_succ]; omega
  have hmod := Nat.mod_lt f0 (Nat.two_pow_pos m)
  have hmodle := Nat.mod_le f0 (2 ^ (m + 1))
  -- the `to` side lies above the gap
  have htsucc := Bits.mod_two_pow_succ t0 m
  have htmodle := Nat.mod_le t0 (2 ^ (m + 1))
  have hlow : value s.fromBytes % 2 ^ m = 0 := hFv ▸ Bits.sub_mod_two_pow_mod f0 le_rfl
  unfold fromStep
  dsimp only
  split_ifs with h1 h2
  · -- `0 → 1`: the block of `2 ^ m` from `from` is the first subnet of this side
    have hb := hbit.mp h1.2
    have hf0 := hprev.mp h1.1
    rw [if_pos hb] at hsucc
    obtain ⟨c, hc, hcl, hcfam, hcpre, hclo⟩ := emit_spec hn hlen hm.le hlow
    rw [hnet, hc]
    refine ⟨_, rfl, h.of_fromStep ⟨by simp [hlen], hclear, ?_, ?_⟩ rfl rfl rfl rfl hcl ?_ ?_, rfl,
      fun hpo => ?_⟩
    · exact ⟨fun h' => absurd h' h1.2, fun h' => by omega⟩
    · exact ⟨fun h' => absurd h' Bool.false_ne_true, fun h' => absurd h' h1.2⟩
    · rw [Set.disjoint_left]
      rintro ⟨f, x⟩ (⟨-, hp, -⟩ | ⟨-, -, hx, -⟩) ⟨-, -, hx'⟩
      · exact hp h1.1
      · split_ifs at htsucc <;> omega
    · ext ⟨f, x⟩
      simp only [fromCover, Set.mem_union, Set.mem_ofPred_eq, hclear, h1.1, hFv]
      constructor
      · rintro ⟨hf, -, hx1, hx2⟩; exact Or.inr ⟨hf, by omega, by omega⟩
      · rintro (⟨-, hp, -⟩ | ⟨hf, hx1, hx2⟩)
        · exact absurd rfl hp
        · exact ⟨hf, h1.2, by omega, by omega⟩
    · -- the block's parent starts `2 ^ m` below `f0`
      have hlo : c.lo = f0 - f0 % 2 ^ m := hclo.trans hFv
      exact hpo.append_of hcfam hcpre hm.le _ _ (Bits.sub_mod_two_pow_mod f0 le_rfl)
        ⟨by omega, by omega⟩ ⟨le_rfl, by omega⟩ (Or.inl (by omega))
  · -- `1 → 0`: the right sibling of the block is the next subnet of this side
    have hb : f0.testBit m = false := Bool.eq_false_iff.mpr fun hb => hbit.mpr hb h2.2
    have hf0 : f0 % 2 ^ m ≠ 0 := fun h' => h2.1 (hprev.mpr h')
    rw [if_neg (show ¬ f0.testBit m = true by simp [hb])] at hsucc
    have hflip : value (s.fromBytes.set (n - 1 - m / 8)
        (s.fromBytes.getD (n - 1 - m / 8) 0 ^^^ UInt8.ofNat (2 ^ (m % 8)))) =
          value s.fromBytes + 2 ^ m := by
      have h' := value_flip_walk s.fromBytes (hlen ▸ hm)
      have hb' : (value s.fromBytes).testBit m = false := by
        rw [hFv, Bits.testBit_sub_mod_two_pow, hb]
      rw [hlen, hb'] at h'
      simpa using h'
    have hflen : (s.fromBytes.set (n - 1 - m / 8)
        (s.fromBytes.getD (n - 1 - m / 8) 0 ^^^ UInt8.ofNat (2 ^ (m % 8)))).length = n := by
      simp [hlen]
    obtain ⟨c, hc, hcl, hcfam, hcpre, hclo⟩ :=
      emit_spec hn hflen hm.le (by rw [hflip, Nat.add_mod_right, hlow])
    rw [hnet, hc]
    have hfull : s.fromFull = false := Bool.eq_false_iff.mpr fun h' => h2.1 (hF.full_eq.mp h')
    have hclear' := clear_flip_walk s.fromBytes (i := n - 1 - m / 8) (by omega) _ (Nat.mod_lt m (by norm_num))
    refine ⟨_, rfl, h.of_fromStep ⟨by simp [hlen], hclear' ▸ hclear, ?_, ?_⟩ rfl rfl rfl rfl hcl ?_ ?_,
      rfl, fun hpo => ?_⟩
    · exact ⟨fun h' => absurd h' (show (1 : UInt8) ≠ 0 by decide), fun h' => by omega⟩
    · exact ⟨fun h' => absurd h' (by simp [hfull]), fun h' => absurd h' (show (1 : UInt8) ≠ 0 by decide)⟩
    · rw [Set.disjoint_left]
      rintro ⟨f, x⟩ (⟨-, -, -, hx⟩ | ⟨-, -, hx, -⟩) ⟨-, hx1, hx2⟩
      · omega
      · split_ifs at htsucc <;> omega
    · ext ⟨f, x⟩
      simp only [fromCover, Set.mem_union, Set.mem_ofPred_eq, hflip, hclear', hclear, hFv]
      constructor
      · rintro ⟨hf, -, hx1, hx2⟩
        by_cases hx : x < f0 - f0 % 2 ^ m + 2 ^ m
        · exact Or.inl ⟨hf, h2.1, hx1, hx⟩
        · exact Or.inr ⟨hf, by omega, by omega⟩
      · rintro (⟨hf, -, hx1, hx2⟩ | ⟨hf, hx1, hx2⟩)
        · exact ⟨hf, by decide, hx1, by omega⟩
        · exact ⟨hf, by decide, by omega, by omega⟩
    · -- the block's parent starts at `from`, below `f0`
      have hlo : c.lo = f0 - f0 % 2 ^ m + 2 ^ m := by rw [hclo, hflip, hFv]
      exact hpo.append_of hcfam hcpre hm.le _ _ (Bits.sub_mod_two_pow_mod f0 le_rfl)
        ⟨by omega, by omega⟩ ⟨le_rfl, by omega⟩ (Or.inl (by omega))
  · -- no transition: the bit is cleared and nothing is added
    have hcur : s.fromBytes.getD (n - 1 - m / 8) 0 &&& UInt8.ofNat (2 ^ (m % 8)) = 0 ↔
        s.fromPrev = 0 := by tauto
    -- `from_prev` stays `0` exactly while the bits of `f0` are
    have hkey : s.fromPrev = 0 ↔ f0 % 2 ^ (m + 1) = 0 := by
      rw [hprev]
      by_cases hb : f0.testBit m
      · have hp : s.fromPrev ≠ 0 := fun hp => hbit.mpr hb (hcur.mpr hp)
        rw [if_pos hb] at hsucc
        exact ⟨fun h' => absurd (hprev.mpr h') hp, fun h' => by omega⟩
      · rw [if_neg hb] at hsucc
        omega
    refine ⟨_, rfl, h.of_fromStep ⟨by simp [hlen], hclear, hcur.trans hkey, hF.full_eq.trans hcur.symm⟩
      rfl rfl rfl (List.append_nil _).symm (SubnetList.nil n) (Set.disjoint_empty _) ?_, rfl, id⟩
    ext ⟨f, x⟩
    simp only [fromCover, Set.mem_union, Set.mem_ofPred_eq, Set.mem_empty_iff_false, or_false,
      hclear, hFv, ne_eq]
    rw [hcur]
    by_cases hp : s.fromPrev = 0
    · simp [hp]
    · have hb : f0.testBit m = true := hbit.mp fun h' => hp (hcur.mp h')
      rw [if_pos hb] at hsucc
      simp only [hp, not_false_eq_true, true_and]
      constructor <;> rintro ⟨hf, hx1, hx2⟩ <;> exact ⟨hf, hx1, by omega⟩

/-- **The `to` half keeps the invariant.** At bit `m` it adds the subnet the
`1 → 0` or `0 → 1` transition of `t0`'s bits calls for, and clears the bit. -/
theorem toStep_spec (hn : n = 4 ∨ n = 16) (hm : m < 8 * n) (h : ScanInv n f0 t0 (m + 1) m s)
    (hnet : s.netmask = 8 * n - m)
    (hgap : f0 - f0 % 2 ^ (m + 1) + 2 ^ (m + 1) ≤ t0 - t0 % 2 ^ (m + 1)) :
    ∃ s', toStep (n - 1 - m / 8) (UInt8.ofNat (2 ^ (m % 8))) s = .ok s' ∧
      ScanInv n f0 t0 (m + 1) (m + 1) s' ∧ s'.netmask = s.netmask ∧
      (ParentsOutside f0 t0 s.list → ParentsOutside f0 t0 s'.list) := by
  have hT := h.to_inv
  have hlen := hT.length_eq
  have hTv := hT.value_eq
  have hprev := hT.prev_eq_zero
  have hFv := h.from_inv.value_eq
  -- the step reads bit `m` of `t0`, and clearing it leaves `t0` less its `m + 1` low bits
  obtain ⟨hbit, hclear⟩ := walk_read_clear (hlen ▸ hm) hTv
  rw [hlen] at hbit hclear
  have hsucc := Bits.mod_two_pow_succ t0 m
  have hpow : 2 ^ (m + 1) = 2 ^ m + 2 ^ m := by rw [pow_succ]; omega
  have hmod := Nat.mod_lt t0 (Nat.two_pow_pos m)
  have hmodle := Nat.mod_le t0 (2 ^ (m + 1))
  -- the `from` side lies below the gap
  have hfmodle := Nat.mod_le f0 (2 ^ (m + 1))
  have hlow : value s.toBytes % 2 ^ m = 0 := hTv ▸ Bits.sub_mod_two_pow_mod t0 le_rfl
  unfold toStep
  dsimp only
  split_ifs with h1 h2
  · -- `1 → 0`: the block of `2 ^ m` from `to` is the first subnet of this side
    have hb : t0.testBit m = false := Bool.eq_false_iff.mpr fun hb => hbit.mpr hb h1.2
    have ht0 : t0 % 2 ^ m + 1 = 2 ^ m := by
      by_contra h'; exact h1.1 (hprev.mpr h')
    rw [if_neg (show ¬ t0.testBit m = true by simp [hb])] at hsucc
    obtain ⟨c, hc, hcl, hcfam, hcpre, hclo⟩ := emit_spec hn hlen hm.le hlow
    rw [hnet, hc]
    refine ⟨_, rfl, h.of_toStep ⟨by simp [hlen], hclear, ?_, ?_⟩ rfl rfl rfl rfl hcl ?_ ?_, rfl,
      fun hpo => ?_⟩
    · exact ⟨fun _ => by omega, fun _ => h1.2⟩
    · exact ⟨fun h' => absurd h' Bool.false_ne_true, fun h' => absurd h1.2 h'⟩
    · rw [Set.disjoint_left]
      rintro ⟨f, x⟩ (⟨-, -, -, hx⟩ | ⟨-, hp, -⟩) ⟨-, hx1, hx2⟩
      · omega
      · exact h1.1 hp
    · ext ⟨f, x⟩
      simp only [toCover, Set.mem_union, Set.mem_ofPred_eq, hclear, h1.2, hTv]
      constructor
      · rintro ⟨hf, -, hx1, hx2⟩; exact Or.inr ⟨hf, by omega, by omega⟩
      · rintro (⟨-, hp, -⟩ | ⟨hf, hx1, hx2⟩)
        · exact absurd hp h1.1
        · exact ⟨hf, trivial, by omega, by omega⟩
    · -- the block's parent ends `2 ^ m` above `t0`
      have hlo : c.lo = t0 - t0 % 2 ^ m := hclo.trans hTv
      exact hpo.append_of hcfam hcpre hm.le _ (t0 - t0 % 2 ^ (m + 1) + 2 ^ m)
        (Bits.sub_mod_two_pow_mod t0 le_rfl) ⟨by omega, by omega⟩ ⟨by omega, by omega⟩
        (Or.inr (by omega))
  · -- `0 → 1`: the left sibling of the block is the next subnet of this side
    have hb : t0.testBit m = true := hbit.mp h2.2
    have ht0 : t0 % 2 ^ m + 1 ≠ 2 ^ m := hprev.mp h2.1
    rw [if_pos hb] at hsucc
    have hflip : value (s.toBytes.set (n - 1 - m / 8)
        (s.toBytes.getD (n - 1 - m / 8) 0 ^^^ UInt8.ofNat (2 ^ (m % 8)))) = t0 - t0 % 2 ^ (m + 1) := by
      have h' := value_flip_walk s.toBytes (hlen ▸ hm)
      have hb' : (value s.toBytes).testBit m = true := by
        rw [hTv, Bits.testBit_sub_mod_two_pow, hb]
      rw [hlen, hb', if_pos rfl, if_pos rfl, Nat.add_zero, hTv] at h'
      omega
    have hflen : (s.toBytes.set (n - 1 - m / 8)
        (s.toBytes.getD (n - 1 - m / 8) 0 ^^^ UInt8.ofNat (2 ^ (m % 8)))).length = n := by
      simp [hlen]
    obtain ⟨c, hc, hcl, hcfam, hcpre, hclo⟩ := emit_spec hn hflen hm.le
      (by rw [hflip]; exact Bits.sub_mod_two_pow_mod t0 (Nat.le_succ m))
    rw [hnet, hc]
    have hfull : s.toFull = false := Bool.eq_false_iff.mpr fun h' => hT.full_eq.mp h' h2.1
    have hclear' := clear_flip_walk s.toBytes (i := n - 1 - m / 8) (by omega) _ (Nat.mod_lt m (by norm_num))
    refine ⟨_, rfl, h.of_toStep ⟨by simp [hlen], hclear' ▸ hclear, ?_, ?_⟩ rfl rfl rfl rfl hcl ?_ ?_,
      rfl, fun hpo => ?_⟩
    · exact ⟨fun _ => by omega, fun _ => rfl⟩
    · exact ⟨fun h' => absurd h' (by simp [hfull]), fun h' => absurd rfl h'⟩
    · rw [Set.disjoint_left]
      rintro ⟨f, x⟩ (⟨-, -, -, hx⟩ | ⟨-, -, hx, -⟩) ⟨-, hx1, hx2⟩
      · rw [hflip] at hx1; omega
      · rw [hflip] at hx2; omega
    · ext ⟨f, x⟩
      simp only [toCover, Set.mem_union, Set.mem_ofPred_eq, hflip, hclear', hclear, hTv, h2.1]
      constructor
      · rintro ⟨hf, -, hx1, hx2⟩
        by_cases hx : t0 - t0 % 2 ^ m ≤ x
        · exact Or.inl ⟨hf, trivial, hx, hx2⟩
        · exact Or.inr ⟨hf, hx1, by omega⟩
      · rintro (⟨hf, -, hx1, hx2⟩ | ⟨hf, hx1, hx2⟩)
        · exact ⟨hf, trivial, by omega, hx2⟩
        · exact ⟨hf, trivial, hx1, by omega⟩
    · -- the block's parent ends above `t0`
      have hlo : c.lo = t0 - t0 % 2 ^ (m + 1) := hclo.trans hflip
      exact hpo.append_of hcfam hcpre hm.le _ (t0 - t0 % 2 ^ (m + 1) + 2 ^ (m + 1) - 1)
        (Bits.sub_mod_two_pow_mod t0 le_rfl) ⟨by omega, by omega⟩ ⟨by omega, by omega⟩
        (Or.inr (by omega))
  · -- no transition: the bit is cleared and nothing is added
    have hcur : s.toBytes.getD (n - 1 - m / 8) 0 &&& UInt8.ofNat (2 ^ (m % 8)) = 0 ↔
        s.toPrev = 0 := by tauto
    -- `to_prev` stays set exactly while the bits of `t0` are
    have hkey : s.toPrev = 0 ↔ t0 % 2 ^ (m + 1) + 1 ≠ 2 ^ (m + 1) := by
      by_cases hb : t0.testBit m
      · have hp : s.toPrev ≠ 0 := fun hp => hbit.mpr hb (hcur.mpr hp)
        have ht0 : t0 % 2 ^ m + 1 = 2 ^ m := by by_contra h'; exact hp (hprev.mpr h')
        rw [if_pos hb] at hsucc
        exact ⟨fun h' => absurd h' hp, fun h' => absurd (by omega) h'⟩
      · have hp : s.toPrev = 0 := hcur.mp (by by_contra h'; exact hb (hbit.mp h'))
        rw [if_neg hb] at hsucc
        exact ⟨fun _ => by omega, fun _ => hp⟩
    refine ⟨_, rfl, h.of_toStep ⟨by simp [hlen], hclear, hcur.trans hkey,
      hT.full_eq.trans (not_congr hcur).symm⟩ rfl rfl rfl (List.append_nil _).symm (SubnetList.nil n)
      (Set.disjoint_empty _) ?_, rfl, id⟩
    ext ⟨f, x⟩
    simp only [toCover, Set.mem_union, Set.mem_ofPred_eq, Set.mem_empty_iff_false, or_false,
      hclear, hTv]
    rw [hcur]
    by_cases hp : s.toPrev = 0
    · have hb : t0.testBit m = false := Bool.eq_false_iff.mpr fun hb => hbit.mpr hb (hcur.mpr hp)
      rw [if_neg (show ¬ t0.testBit m = true by simp [hb])] at hsucc
      simp only [hp, true_and]
      constructor <;> rintro ⟨hf, hx1, hx2⟩ <;> exact ⟨hf, by omega, hx2⟩
    · simp [hp]

theorem ScanInv.setNetmask {mF mT : ℕ} (h : ScanInv n f0 t0 mF mT s) (k : ℕ) :
    ScanInv n f0 t0 mF mT { s with netmask := k } :=
  ⟨h.from_inv.congr rfl rfl rfl, h.to_inv.congr rfl rfl rfl, h.list_inv⟩

/-- **One pass of the body keeps the invariant**, one bit further up on both sides. -/
theorem scanStep_spec (hn : n = 4 ∨ n = 16) (hm : m < 8 * n) (h : ScanInv n f0 t0 m m s)
    (hnet : s.netmask = 8 * n - m)
    (hgap : f0 - f0 % 2 ^ (m + 1) + 2 ^ (m + 1) ≤ t0 - t0 % 2 ^ (m + 1)) :
    ∃ s', scanStep (n - 1 - m / 8) (7 - m % 8) s = .ok s' ∧ ScanInv n f0 t0 (m + 1) (m + 1) s' ∧
      s'.netmask = 8 * n - (m + 1) ∧ (ParentsOutside f0 t0 s.list → ParentsOutside f0 t0 s'.list) := by
  obtain ⟨s1, h1, hinv1, hnet1, hpar1⟩ := fromStep_spec hn hm h hnet hgap
  obtain ⟨s2, h2, hinv2, hnet2, hpar2⟩ := toStep_spec hn hm hinv1 (hnet1.trans hnet) hgap
  refine ⟨{ s2 with netmask := s2.netmask - 1 }, ?_, hinv2.setNetmask _, ?_, hpar2 ∘ hpar1⟩
  · simp only [scanStep, mBitmask_getD_walk]
    rw [h1]
    change toStep _ _ s1 >>= _ = _
    rw [h2]
    rfl
  · simp only
    omega

end Step

/-! ## 5. The walk -/

/-- The state the walk starts from: the bounds, `from_prev = 0`, `to_prev = 1`, both
sides full, the whole length as netmask, and no subnets. -/
theorem ScanInv.init {n : ℕ} {a b : List UInt8} (ha : a.length = n) (hb : b.length = n) :
    ScanInv n (value a) (value b) 0 0 ⟨a, b, 0, 1, true, true, n * 8, []⟩ := by
  refine ⟨⟨ha, by simp [Nat.mod_one], by simp [Nat.mod_one], by simp⟩,
    ⟨hb, by simp [Nat.mod_one], by simp [Nat.mod_one], by simp⟩, ⟨by simp, .nil, ?_⟩⟩
  ext ⟨f, x⟩
  simp [fromCover, toCover]

/-- **The walk keeps the invariant**: after `K` passes, as long as the bits passed lie
below the first bit in which the bounds differ. -/
theorem walk_spec {n : ℕ} (hn : n = 4 ∨ n = 16) {a b : List UInt8} (ha : a.length = n)
    (hb : b.length = n) :
    ∀ {K : ℕ}, K ≤ 8 * n →
      (∀ m < K, value a - value a % 2 ^ (m + 1) + 2 ^ (m + 1) ≤ value b - value b % 2 ^ (m + 1)) →
      ∃ s, (List.range K).foldlM (fun s m => scanStep (n - 1 - m / 8) (7 - m % 8) s)
          ⟨a, b, 0, 1, true, true, n * 8, []⟩ = .ok s ∧
        ScanInv n (value a) (value b) K K s ∧ s.netmask = 8 * n - K ∧
        ParentsOutside (value a) (value b) s.list := by
  intro K
  induction K with
  | zero => intro _ _; exact ⟨_, rfl, ScanInv.init ha hb, by simp only; omega, ParentsOutside.nil _ _⟩
  | succ K ih =>
    intro hK hgap
    -- the first `K` passes, then one more
    obtain ⟨s, hs, hinv, hnet, hpar⟩ := ih (by omega) fun m hm => hgap m (by omega)
    obtain ⟨s', hs', hinv', hnet', hpar'⟩ := scanStep_spec hn (by omega) hinv hnet (hgap K (by omega))
    refine ⟨s', ?_, hinv', hnet', hpar' hpar⟩
    rw [List.range_succ, List.foldlM_append, hs]
    simp only [List.foldlM_cons, List.foldlM_nil]
    change scanStep _ _ s >>= _ = _
    rw [hs']
    rfl

/-! ## 6. The last subnet -/

/-- **The last subnet closes the range.** After the walk has passed every bit below
the first bit `K` in which the bounds differ, what `lastSubnet` adds fills the gap
between the two sides, and the list covers `[f0, t0]`. -/
theorem lastSubnet_spec {n f0 t0 K : ℕ} {s : SubnetScan} (hn : n = 4 ∨ n = 16) (hK : K < 8 * n)
    (h : ScanInv n f0 t0 K K s) (hfirst : t0 - t0 % 2 ^ K = f0 - f0 % 2 ^ K + 2 ^ K)
    (hf0 : f0 % 2 ^ (K + 1) = f0 % 2 ^ K) (ht0 : t0 % 2 ^ (K + 1) = t0 % 2 ^ K + 2 ^ K) :
    ∃ l, lastSubnet (8 * n - (K + 1)) s = .ok l ∧
      SubnetList n {q | q.1 = n ∧ f0 ≤ q.2 ∧ q.2 ≤ t0} l ∧
      (ParentsOutside f0 t0 s.list → ParentsOutside f0 t0 l) := by
  obtain ⟨hF, hT, hL⟩ := h
  have hFv := hF.value_eq
  have hTv := hT.value_eq
  have hpow : 2 ^ (K + 1) = 2 ^ K + 2 ^ K := by rw [pow_succ]; omega
  have hfmod := Nat.mod_lt f0 (Nat.two_pow_pos K)
  have htmod := Nat.mod_lt t0 (Nat.two_pow_pos K)
  have hfle := Nat.mod_le f0 (2 ^ K)
  have htle := Nat.mod_le t0 (2 ^ K)
  have hcast : ((8 * n - (K + 1) : ℕ) : ℤ) + 1 = ((8 * n - K : ℕ) : ℤ) := by omega
  unfold lastSubnet
  by_cases hff : s.fromFull = true <;> by_cases htf : s.toFull = true
  · -- both sides still full: one subnet from `f0` to `t0`, of `K + 1` host bits
    have hp0 : f0 % 2 ^ K = 0 := hF.prev_eq_zero.mp (hF.full_eq.mp hff)
    have hp1 : t0 % 2 ^ K + 1 = 2 ^ K := by
      by_contra h'; exact hT.full_eq.mp htf (hT.prev_eq_zero.mpr h')
    obtain ⟨c, hc, hcl, hcfam, hcpre, hclo⟩ :=
      emit_spec hn hF.length_eq hK (by rw [hFv, hp0, Nat.sub_zero, hf0, hp0])
    rw [if_pos (by simp [hff, htf]), hc]
    refine ⟨_, rfl, ?_, fun hpo => ?_⟩
    rotate_left
    · -- the one subnet is the whole range: its parent is larger
      have hlo : c.lo = f0 := by rw [hclo, hFv, hp0, Nat.sub_zero]
      obtain ⟨z, hz, hout⟩ := exists_mem_blockOf_succ_outside (show f0 % 2 ^ (K + 1) = 0 by omega)
      exact hpo.append hcfam hcpre hK (hlo ▸ hz) (by omega)
    have hcov : fromCover n f0 K s ∪ toCover n t0 s = ∅ := by
      ext ⟨f, x⟩
      simp only [fromCover, toCover, Set.mem_union, Set.mem_ofPred_eq, Set.mem_empty_iff_false,
        iff_false, not_or, hF.full_eq.mp hff, hT.full_eq.mp htf]
      simp
    rw [hcov] at hL
    convert hL.append hcl (Set.empty_disjoint _) using 1
    ext ⟨f, x⟩
    simp only [Set.mem_ofPred_eq, Set.empty_union, hFv]
    omega
  · -- only the `from` side is full: the lower half, `K` host bits from `f0`
    have hp0 : f0 % 2 ^ K = 0 := hF.prev_eq_zero.mp (hF.full_eq.mp hff)
    have htp : s.toPrev = 0 := by
      by_contra h'; exact htf (hT.full_eq.mpr h')
    obtain ⟨c, hc, hcl, hcfam, hcpre, hclo⟩ := emit_spec hn hF.length_eq hK.le
      (by rw [hFv]; exact Bits.sub_mod_two_pow_mod f0 le_rfl)
    rw [if_neg (by simp [htf]), if_pos hff, hcast, hc]
    refine ⟨_, rfl, ?_, fun hpo => ?_⟩
    rotate_left
    · -- the lower half's parent is the block of both halves, which ends above `t0`
      have hlo : c.lo = f0 := by rw [hclo, hFv, hp0, Nat.sub_zero]
      have htp' : t0 % 2 ^ K + 1 ≠ 2 ^ K := hT.prev_eq_zero.mp htp
      exact hpo.append_of hcfam hcpre hK.le f0 (f0 + 2 ^ (K + 1) - 1) (by omega)
        ⟨by omega, by omega⟩ ⟨by omega, by omega⟩ (Or.inr (by omega))
    have hcov : fromCover n f0 K s ∪ toCover n t0 s =
        {q | q.1 = n ∧ t0 - t0 % 2 ^ K ≤ q.2 ∧ q.2 ≤ t0} := by
      ext ⟨f, x⟩
      simp only [fromCover, toCover, Set.mem_union, Set.mem_ofPred_eq, hF.full_eq.mp hff, htp, hTv]
      simp
    rw [hcov] at hL
    convert hL.append hcl ?_ using 1
    · ext ⟨f, x⟩
      simp only [Set.mem_union, Set.mem_ofPred_eq, hFv]
      omega
    · rw [Set.disjoint_left]
      rintro ⟨f, x⟩ ⟨-, hx1, -⟩ ⟨-, -, hx2⟩
      rw [hFv] at hx2
      omega
  · -- only the `to` side is full: the upper half, `K` host bits from `to`
    have hfp : s.fromPrev ≠ 0 := fun h' => hff (hF.full_eq.mpr h')
    have hp1 : t0 % 2 ^ K + 1 = 2 ^ K := by
      by_contra h'; exact hT.full_eq.mp htf (hT.prev_eq_zero.mpr h')
    obtain ⟨c, hc, hcl, hcfam, hcpre, hclo⟩ := emit_spec hn hT.length_eq hK.le
      (by rw [hTv]; exact Bits.sub_mod_two_pow_mod t0 le_rfl)
    rw [if_neg (by simp [hff]), if_neg (by simp [hff]), if_pos htf, hcast, hc]
    refine ⟨_, rfl, ?_, fun hpo => ?_⟩
    rotate_left
    · -- the upper half's parent is the block of both halves, which starts below `f0`
      have hlo : c.lo = t0 - t0 % 2 ^ K := hclo.trans hTv
      have hfp' : f0 % 2 ^ K ≠ 0 := fun h' => hfp (hF.prev_eq_zero.mpr h')
      exact hpo.append_of hcfam hcpre hK.le (f0 - f0 % 2 ^ (K + 1)) (f0 - f0 % 2 ^ (K + 1))
        (Bits.sub_mod_two_pow_mod f0 le_rfl) ⟨by omega, by omega⟩ ⟨le_rfl, by omega⟩
        (Or.inl (by omega))
    have hcov : fromCover n f0 K s ∪ toCover n t0 s =
        {q | q.1 = n ∧ f0 ≤ q.2 ∧ q.2 < f0 - f0 % 2 ^ K + 2 ^ K} := by
      ext ⟨f, x⟩
      simp only [fromCover, toCover, Set.mem_union, Set.mem_ofPred_eq, ne_eq, hT.full_eq.mp htf, hfp,
        hFv]
      simp
    rw [hcov] at hL
    convert hL.append hcl ?_ using 1
    · ext ⟨f, x⟩
      simp only [Set.mem_union, Set.mem_ofPred_eq, hTv]
      omega
    · rw [Set.disjoint_left]
      rintro ⟨f, x⟩ ⟨-, -, hx1⟩ ⟨-, hx2, -⟩
      rw [hTv] at hx2
      omega
  · -- neither side is full: the two parts meet
    have hfp : s.fromPrev ≠ 0 := fun h' => hff (hF.full_eq.mpr h')
    have htp : s.toPrev = 0 := by
      by_contra h'; exact htf (hT.full_eq.mpr h')
    rw [if_neg (by simp [hff]), if_neg (by simp [hff]), if_neg (by simp [htf])]
    refine ⟨_, rfl, ?_, id⟩
    convert hL using 1
    ext ⟨f, x⟩
    simp only [fromCover, toCover, Set.mem_union, Set.mem_ofPred_eq, ne_eq, hfp, htp, hFv, hTv,
      not_false_eq_true, true_and]
    omega

/-! ## 7. `toSubnets` -/

/-- The loop finding the common prefix stops at the first entry whose bits differ,
or at the end. -/
theorem commonPrefixLoop_spec : ∀ (l : List (UInt8 × UInt8)) (n : ℕ), ∃ k,
    commonPrefixLoop l n = n + k ∧ k ≤ l.length ∧ (∀ i < k, ∀ e, l[i]? = some e → e.1 = e.2) ∧
      (k < l.length → ∃ e, l[k]? = some e ∧ e.1 ≠ e.2)
  | [], n => ⟨0, rfl, le_rfl, fun _ h => absurd h (Nat.not_lt_zero _),
      fun h => absurd h (Nat.lt_irrefl _)⟩
  | (f, t) :: rest, n => by
    unfold commonPrefixLoop
    by_cases hft : f = t
    · -- an equal pair: one more bit of common prefix
      obtain ⟨k, hk, hkle, hagree, hdiff⟩ := commonPrefixLoop_spec rest (n + 1)
      refine ⟨k + 1, by rw [if_pos hft, hk]; omega, by simpa using hkle, ?_, ?_⟩
      · rintro (_ | i) hi e he
        · cases Option.some.inj he
          exact hft
        · exact hagree i (by omega) e (by simpa using he)
      · intro hk'
        exact hdiff (by simpa using hk')
    · exact ⟨0, by rw [if_neg hft]; rfl, Nat.zero_le _, fun _ h => absurd h (Nat.not_lt_zero _),
        fun _ => ⟨(f, t), rfl, hft⟩⟩

/-- **The split of a range without a cached prefix**: from the common prefix the
walk and the last subnet cover exactly `[value a, value b]`, with disjoint proper
subnets. -/
theorem scan_spec {a b : List UInt8} (hn : a.length = 4 ∨ a.length = 16)
    (hlen : b.length = a.length) (hle : value a ≤ value b) {pfx : ℕ}
    (hpfx : commonPrefixLoop (maskedBits a b) 0 = pfx) :
    ∃ s l, scanLoop a.length ((pfx + 1) / 8) ((pfx + 1) % 8)
        ⟨a, b, 0, 1, true, true, a.length * 8, []⟩ = .ok s ∧ lastSubnet pfx s = .ok l ∧
      SubnetList a.length {q | q.1 = a.length ∧ value a ≤ q.2 ∧ q.2 ≤ value b} l ∧
      ParentsOutside (value a) (value b) l := by
  obtain ⟨k, hk, hkle, hagree, hdiff⟩ := commonPrefixLoop_spec (maskedBits a b) 0
  have hpk : pfx = k := by omega
  subst hpk
  rw [length_maskedBits hlen] at hkle hdiff
  have habove := div_eq_of_maskedBits_agree hlen hagree
  unfold scanLoop
  rw [show 8 * a.length - (8 * ((pfx + 1) / 8) + (pfx + 1) % 8) = 8 * a.length - (pfx + 1) by omega]
  rcases Nat.lt_or_ge pfx (8 * a.length) with hk8 | hk8
  · -- the bounds differ first at bit `K`, the walk passes the bits below it
    obtain ⟨e, he, hne⟩ := hdiff hk8
    obtain ⟨-, -, -, heq⟩ := maskedBits_entry hlen he
    obtain ⟨K, hK⟩ : ∃ K, 8 * a.length - 1 - pfx = K := ⟨_, rfl⟩
    rw [show 8 * a.length - pfx = K + 1 by omega] at habove
    rw [hK] at heq
    obtain ⟨hx, hy⟩ := Bits.testBit_of_first_difference hle habove fun h' => hne (heq.mpr h')
    have hf0 := Bits.mod_two_pow_succ (value a) K
    rw [hx, if_neg Bool.false_ne_true, Nat.add_zero] at hf0
    have ht0 := Bits.mod_two_pow_succ (value b) K
    rw [hy, if_pos rfl] at ht0
    obtain ⟨s, hs, hinv, -, hpar⟩ := walk_spec hn rfl hlen (K := K) (by omega)
      fun m hm => Bits.gap_of_first_difference habove hx hy (by omega)
    obtain ⟨l, hl, hsub, hpar'⟩ := lastSubnet_spec hn (by omega) hinv
      (Bits.sub_mod_of_first_difference habove hx hy) hf0 ht0
    refine ⟨s, l, ?_, ?_, hsub, hpar' hpar⟩
    · rw [show 8 * a.length - (pfx + 1) = K by omega, hs]
    · rw [show pfx = 8 * a.length - (K + 1) by omega]
      exact hl
  · -- equal bounds: no walk, one subnet of a single address
    rw [show pfx = 8 * a.length by omega, Nat.sub_self, pow_zero, Nat.div_one,
      Nat.div_one] at habove
    obtain ⟨c, hc, hcl, hcfam, hcpre, hclo⟩ :=
      emit_spec hn rfl (m := 0) (Nat.zero_le _) (by simp [Nat.mod_one])
    refine ⟨_, [c], by rw [show 8 * a.length - (pfx + 1) = 0 by omega]; rfl, ?_, ?_, ?_⟩
    · unfold lastSubnet
      rw [if_pos rfl, show ((pfx : ℕ) : ℤ) = ((8 * a.length - 0 : ℕ) : ℤ) by omega, hc]
      rfl
    · convert hcl using 1
      ext ⟨f, x⟩
      simp only [Set.mem_ofPred_eq, ← habove]
      omega
    · -- a single address: its parent holds a second one
      obtain ⟨z, hz, hout⟩ := exists_mem_blockOf_succ_outside (show value a % 2 ^ 0 = 0 from Nat.mod_one _)
      exact (ParentsOutside.nil _ _).append hcfam hcpre (Nat.zero_le _) (hclo ▸ hz)
        (by rw [← habove]; omega)

/-- **`toSubnets` splits a range exactly.** A range the public constructors build
splits, without an exception, into disjoint proper subnets of its family that
cover exactly its addresses, sorted by `compareTo`; the block twice the size of
each reaches outside the range. -/
theorem toSubnets_spec {r : IPRange} (hr : r.WellFormed) :
    ∃ l, r.toSubnets = .ok l ∧ l.Pairwise (fun a b => (a.compareTo b).isLE) ∧
      SubnetList r.family r.points l ∧ ParentsOutside r.lo r.hi l := by
  cases hp : r.mPrefix with
  | none =>
    obtain ⟨s, l, hs, hl, hsub, hpar⟩ := scan_spec hr.family_eq hr.valid.length_eq hr.valid.le rfl
    refine ⟨_, ?_, TreeSet.sorted_mergeSort compareTo_eq_compare l,
      hsub.perm (List.mergeSort_perm _ _).symm, hpar.perm (List.mergeSort_perm _ _).symm⟩
    simp only [toSubnets, hp]
    rw [hs]
    change (lastSubnet _ s >>= _) = _
    rw [hl]
    rfl
  | some p =>
    -- a cached prefix: the range is its own one subnet
    have hsub := hr.prefix_sound p hp
    refine ⟨[r], by simp [toSubnets, hp]; rfl, List.pairwise_singleton _ _,
      SubnetList.singleton ⟨rfl, p, hp, hsub⟩, ?_⟩
    -- the range is one block, and its parent is twice as large
    obtain ⟨z, hz, hout⟩ := exists_mem_blockOf_succ_outside hsub.aligned
    have hpre : r.mPrefix = some (8 * r.family - (8 * r.family - p)) := by
      rw [hp, Nat.sub_sub_self hsub.prefix_le]
    have := hsub.hi_eq
    have := Nat.two_pow_pos (8 * r.family - p)
    exact (ParentsOutside.nil _ _).append rfl hpre (Nat.sub_le _ _) hz (by omega)

end IPRange

end VpnClient.Android
