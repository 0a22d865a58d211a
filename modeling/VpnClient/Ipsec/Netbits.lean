import VpnClient.Ipsec.TrafficSelector
import VpnClient.Lib.Dyadic

/-!
# The cached prefix length of a traffic selector

A selector caches the prefix length of its address range in `netbits`, and `255`
when the range is no subnet. Three routines write it: `calc_range` together with the
subnet it builds, `calc_netbits` from the two addresses, and `set_address` directly;
`to_subnet` reads it back and trusts it.

* `calcNetbits_spec`: `calc_netbits` returns the length of the common prefix of the
  two addresses, read as the level of their least common block (`LeastCommon` of
  `Lib/Dyadic.lean`), and stores it only when below it `from` has all `0`s and `to`
  all `1`s.
* `WellFormed`: addresses of the type's length, the cached `netbits` the one
  `calc_netbits` stores, and ICMP ports as `traffic_selector_create` leaves them.
  Every constructor builds such selectors and every operation keeps them
  (`Built.wellFormed`, by induction on `Built`).
* For a well-formed selector with `from ≤ to`, `netbits` is `p` exactly when the
  range is the block of prefix `p` and `255` when it is no block, and `to_subnet`
  returns the least block holding the range (`netbits_cidr_of_built`). With
  `from > to`, which `traffic_selector_create_from_bytes` accepts, the range is
  empty but `netbits` can still name a prefix (`netbits_of_reversed_range`).
-/

namespace VpnClient.Ipsec.TrafficSelector

open VpnClient.Lib Bytes Dyadic

/-! ## 1. The bits `calc_netbits` reads -/

theorem one_shiftLeft_eq : ∀ b < 8, (1 : UInt8) <<< (b : ℕ).toUInt8 = UInt8.ofNat (2 ^ b) := by
  decide

/-- The byte `calc_netbits` tests at bit position `idx` of `a`: the bit under its mask. -/
def maskedByte (a : List UInt8) (idx : ℕ) : UInt8 :=
  ((1 : UInt8) <<< (7 - idx % 8).toUInt8) &&& a.getD (idx / 8) 0

theorem maskedByte_ne_zero_iff {a : List UInt8} {idx : ℕ} (h : idx < 8 * a.length) :
    maskedByte a idx ≠ 0 ↔ (value a).testBit (8 * a.length - 1 - idx) = true := by
  rw [maskedByte, one_shiftLeft_eq _ (by omega), UInt8.and_comm]
  exact and_mask_ne_zero_iff a h

theorem maskedByte_eq_iff {a b : List UInt8} (hlen : b.length = a.length) {idx : ℕ}
    (h : idx < 8 * a.length) :
    maskedByte a idx = maskedByte b idx ↔
      (value a).testBit (8 * a.length - 1 - idx) = (value b).testBit (8 * a.length - 1 - idx) := by
  rw [maskedByte, maskedByte, one_shiftLeft_eq _ (by omega), UInt8.and_comm,
    UInt8.and_comm (UInt8.ofNat _)]
  exact and_mask_eq_iff hlen h

/-! ## 2. The loops of `calc_netbits` -/

section Loop

variable (src dst : List UInt8)

theorem calcNetbitsLoop_cons (idx : ℕ) (rest : List ℕ) (matching : Bool) (netbits : UInt8) :
    calcNetbitsLoop src dst (idx :: rest) matching netbits =
      if matching then
        if maskedByte src idx ≠ maskedByte dst idx then calcNetbitsLoop src dst rest false idx.toUInt8
        else calcNetbitsLoop src dst rest true netbits
      else if maskedByte src idx ≠ 0 ∨ maskedByte dst idx = 0 then (netbits, nonSubnetAddressRange)
      else calcNetbitsLoop src dst rest false netbits := rfl

/-- After the first difference the loop only checks that every later bit of `from` is
`0` and every later bit of `to` is `1`; the prefix length stays. -/
theorem calcNetbitsLoop_unmatched : ∀ (l : List ℕ) (netbits : UInt8),
    calcNetbitsLoop src dst l false netbits =
      (netbits, if ∀ idx ∈ l, maskedByte src idx = 0 ∧ maskedByte dst idx ≠ 0 then netbits
        else nonSubnetAddressRange)
  | [], _ => by simp [calcNetbitsLoop]
  | idx :: rest, netbits => by
    rw [calcNetbitsLoop_cons, if_neg Bool.false_ne_true]
    by_cases hbit : maskedByte src idx ≠ 0 ∨ maskedByte dst idx = 0
    · -- a bit out of place: no subnet
      have hnot : ¬ ∀ i ∈ idx :: rest, maskedByte src i = 0 ∧ maskedByte dst i ≠ 0 := fun hall => by
        have := hall idx List.mem_cons_self
        tauto
      rw [if_pos hbit, if_neg hnot]
    · rw [if_neg hbit, calcNetbitsLoop_unmatched rest netbits]
      simp only [not_or, not_not, ne_eq] at hbit
      simp only [List.forall_mem_cons, hbit, ne_eq, not_false_eq_true, and_self, true_and]

/-- While the addresses agree, the loop carries the initial prefix length. -/
theorem calcNetbitsLoop_agree : ∀ (l : List ℕ) (netbits : UInt8),
    (∀ idx ∈ l, maskedByte src idx = maskedByte dst idx) →
      calcNetbitsLoop src dst l true netbits = (netbits, netbits)
  | [], _, _ => rfl
  | idx :: rest, netbits, h => by
    rw [calcNetbitsLoop_cons, if_pos rfl, if_neg (not_not.mpr (h idx List.mem_cons_self))]
    exact calcNetbitsLoop_agree rest netbits fun i hi => h i (List.mem_cons_of_mem _ hi)

/-- The first differing bit ends the common prefix: from there on the loop runs
unmatched with the position of that bit as the prefix length. -/
theorem calcNetbitsLoop_first_difference {idx : ℕ} (l₂ : List ℕ)
    (hne : maskedByte src idx ≠ maskedByte dst idx) : ∀ (l₁ : List ℕ) (netbits : UInt8),
      (∀ i ∈ l₁, maskedByte src i = maskedByte dst i) →
        calcNetbitsLoop src dst (l₁ ++ idx :: l₂) true netbits =
          calcNetbitsLoop src dst l₂ false idx.toUInt8
  | [], _, _ => by rw [List.nil_append, calcNetbitsLoop_cons, if_pos rfl, if_pos hne]
  | i :: l₁, netbits, h => by
    rw [List.cons_append, calcNetbitsLoop_cons, if_pos rfl,
      if_neg (not_not.mpr (h i List.mem_cons_self))]
    exact calcNetbitsLoop_first_difference l₂ hne l₁ netbits fun j hj =>
      h j (List.mem_cons_of_mem _ hj)

end Loop

/-- The positions before `K`, position `K`, and the positions after it. -/
theorem range_eq_split {K N : ℕ} (h : K < N) :
    List.range N = List.range K ++ K :: List.range' (K + 1) (N - K - 1) := by
  have happ := @List.range'_append 0 K (N - K) 1
  rw [Nat.zero_add, Nat.one_mul, Nat.add_sub_cancel' (Nat.le_of_lt h)] at happ
  obtain ⟨m, hm⟩ : ∃ m, N - K = m + 1 := ⟨N - K - 1, by omega⟩
  rw [List.range_eq_range', List.range_eq_range', ← happ, show N - K - 1 = m by omega, hm,
    List.range'_succ]

theorem toNat_toUInt8_of_lt {n : ℕ} (h : n < 256) : n.toUInt8.toNat = n := by
  rw [Nat.toUInt8_eq, UInt8.toNat_ofNat', Nat.mod_eq_of_lt h]

/-! ## 3. What `calc_netbits` computes -/

section Spec

variable {ts : TrafficSelector}

/-- `calc_netbits` runs its loop over the `8 * n` bit positions, from the full prefix
length on. -/
theorem calcNetbits_eq (ts : TrafficSelector) :
    calcNetbits ts =
      ((calcNetbitsLoop ts.fromAddr ts.toAddr (List.range (8 * ts.type.ipLen)) true
          (8 * ts.type.ipLen).toUInt8).1,
        { ts with netbits := (calcNetbitsLoop ts.fromAddr ts.toAddr
          (List.range (8 * ts.type.ipLen)) true (8 * ts.type.ipLen).toUInt8).2 }) := by
  rw [calcNetbits, Nat.mul_comm]

/-- **What `calc_netbits` computes.** For addresses of the type's length it returns
the length `K` of their common prefix, so that their least common block has
`8 * n - K` host bits, and it stores `K` when below that prefix `from` has only `0`s
and `to` only `1`s, `255` otherwise. -/
theorem calcNetbits_spec (hf : ts.fromAddr.length = ts.type.ipLen)
    (ht : ts.toAddr.length = ts.type.ipLen) :
    (calcNetbits ts).1.toNat ≤ 8 * ts.type.ipLen ∧
      LeastCommon (value ts.fromAddr) (value ts.toAddr)
        (8 * ts.type.ipLen - (calcNetbits ts).1.toNat) ∧
      (calcNetbits ts).2.netbits =
        if ∀ i < 8 * ts.type.ipLen - (calcNetbits ts).1.toNat - 1,
            (value ts.fromAddr).testBit i = false ∧ (value ts.toAddr).testBit i = true
        then (calcNetbits ts).1 else nonSubnetAddressRange := by
  have hN : 8 * ts.type.ipLen < 256 := by have := ts.type.ipLen_le; omega
  have hlen : ts.toAddr.length = ts.fromAddr.length := ht.trans hf.symm
  rw [calcNetbits_eq]
  generalize hr : calcNetbitsLoop ts.fromAddr ts.toAddr (List.range (8 * ts.type.ipLen)) true
    (8 * ts.type.ipLen).toUInt8 = r
  -- bit `i` of both addresses, read at scan position `8 * n - 1 - i`
  have hagree : ∀ idx < 8 * ts.type.ipLen,
      maskedByte ts.fromAddr idx = maskedByte ts.toAddr idx ↔
        (value ts.fromAddr).testBit (8 * ts.type.ipLen - 1 - idx) =
          (value ts.toAddr).testBit (8 * ts.type.ipLen - 1 - idx) := fun idx hidx => by
    rw [maskedByte_eq_iff hlen (by omega), hf]
  have hhigh : ∀ i, 8 * ts.type.ipLen ≤ i →
      (value ts.fromAddr).testBit i = (value ts.toAddr).testBit i := fun i hi => by
    rw [testBit_value_of_le _ (by omega), testBit_value_of_le _ (by omega)]
  by_cases hall : ∀ idx < 8 * ts.type.ipLen, maskedByte ts.fromAddr idx = maskedByte ts.toAddr idx
  · -- no bit differs: one address, with the full prefix
    rw [calcNetbitsLoop_agree _ _ _ _ fun idx hidx => hall idx (List.mem_range.mp hidx)] at hr
    subst hr
    rw [toNat_toUInt8_of_lt hN, Nat.sub_self, if_pos fun i hi => absurd hi (by omega)]
    refine ⟨le_rfl, leastCommon_of_testBit (fun i _ => ?_) (fun h hh => absurd hh (by omega)), rfl⟩
    by_cases hi : i < 8 * ts.type.ipLen
    · have := (hagree (8 * ts.type.ipLen - 1 - i) (by omega)).mp (hall _ (by omega))
      rwa [show 8 * ts.type.ipLen - 1 - (8 * ts.type.ipLen - 1 - i) = i by omega] at this
    · exact hhigh i (by omega)
  · -- the first differing bit `K` ends the common prefix
    push Not at hall
    classical
    set K := Nat.find hall with hKdef
    obtain ⟨hKlt, hKne⟩ := Nat.find_spec hall
    have hbefore : ∀ i < K, maskedByte ts.fromAddr i = maskedByte ts.toAddr i := fun i hi => by
      by_contra hne
      exact Nat.find_min hall hi ⟨by omega, hne⟩
    rw [range_eq_split hKlt, calcNetbitsLoop_first_difference _ _ _ hKne _ _
      fun i hi => hbefore i (List.mem_range.mp hi), calcNetbitsLoop_unmatched] at hr
    subst hr
    rw [toNat_toUInt8_of_lt (by omega)]
    -- the checks after `K`, read as the bits below bit `8 * n - 1 - K`
    have hbit : ∀ idx < 8 * ts.type.ipLen,
        (maskedByte ts.fromAddr idx = 0 ∧ maskedByte ts.toAddr idx ≠ 0 ↔
          (value ts.fromAddr).testBit (8 * ts.type.ipLen - 1 - idx) = false ∧
            (value ts.toAddr).testBit (8 * ts.type.ipLen - 1 - idx) = true) := fun idx hidx => by
      have h1 := @maskedByte_ne_zero_iff ts.fromAddr idx (by omega)
      have h2 := @maskedByte_ne_zero_iff ts.toAddr idx (by omega)
      rw [hf] at h1
      rw [ht] at h2
      rw [h2, ← Bool.not_eq_true, ← h1, not_not]
    have htail : (∀ idx ∈ List.range' (K + 1) (8 * ts.type.ipLen - K - 1),
          maskedByte ts.fromAddr idx = 0 ∧ maskedByte ts.toAddr idx ≠ 0) ↔
        ∀ i < 8 * ts.type.ipLen - K - 1,
          (value ts.fromAddr).testBit i = false ∧ (value ts.toAddr).testBit i = true := by
      constructor
      · intro h i hi
        have := (hbit (8 * ts.type.ipLen - 1 - i) (by omega)).mp
          (h _ (List.mem_range'_1.mpr ⟨by omega, by omega⟩))
        rwa [show 8 * ts.type.ipLen - 1 - (8 * ts.type.ipLen - 1 - i) = i by omega] at this
      · intro h idx hidx
        obtain ⟨h1, h2⟩ := List.mem_range'_1.mp hidx
        exact (hbit idx (by omega)).mpr (h _ (by omega))
    refine ⟨by omega, leastCommon_of_testBit (fun i hi => ?_) (fun h hh => ?_), ?_⟩
    · by_cases hi' : i < 8 * ts.type.ipLen
      · have := (hagree (8 * ts.type.ipLen - 1 - i) (by omega)).mp (hbefore _ (by omega))
        rwa [show 8 * ts.type.ipLen - 1 - (8 * ts.type.ipLen - 1 - i) = i by omega] at this
      · exact hhigh i (by omega)
    · rw [show h = 8 * ts.type.ipLen - 1 - K by omega]
      exact fun heq => hKne ((hagree K hKlt).mpr heq)
    · exact if_congr htail rfl rfl

/-! ## 4. Prefix blocks -/

/-- `[from, to]` is exactly the block of the addresses with prefix `p`. -/
def IsCidr (ts : TrafficSelector) (p : ℕ) : Prop :=
  p ≤ 8 * ts.type.ipLen ∧
    Set.Icc (value ts.fromAddr) (value ts.toAddr) =
      blockOf (8 * ts.type.ipLen - p) (value ts.fromAddr)

/-- A block is not empty: its range is ordered. -/
theorem IsCidr.le {p : ℕ} (h : ts.IsCidr p) : value ts.fromAddr ≤ value ts.toAddr :=
  (h.2 ▸ mem_blockOf_self _ _ : value ts.fromAddr ∈ Set.Icc _ _).2

/-- A range from the first to the last address is the block of prefix `0`. -/
theorem isCidr_zero_of {n : ℕ} (hf : ts.fromAddr = List.replicate n 0)
    (ht : ts.toAddr = List.replicate n 0xff) (hn : n = ts.type.ipLen) : ts.IsCidr 0 := by
  refine ⟨Nat.zero_le _, Icc_eq_blockOf_iff.mpr ⟨?_, ?_⟩⟩ <;>
    rw [hf, value_replicate_zero, Nat.sub_zero, ← hn]
  · exact Nat.zero_mod _
  · rw [ht, value_replicate_ff_eq, Nat.zero_add]

/-- A range of one address is the block of the full prefix. -/
theorem isCidr_full_of (heq : ts.toAddr = ts.fromAddr) : ts.IsCidr (8 * ts.type.ipLen) :=
  ⟨le_rfl, Icc_eq_blockOf_iff.mpr ⟨by rw [Nat.sub_self, pow_zero, Nat.mod_one],
    by rw [heq, Nat.sub_self, pow_zero, Nat.sub_self, Nat.add_zero]⟩⟩

/-- **`calc_netbits` stores the prefix of a block.** It stores `p` where the range is
the block of prefix `p`; for an ordered range that is no block, `255`. -/
theorem calcNetbits_netbits (hf : ts.fromAddr.length = ts.type.ipLen)
    (ht : ts.toAddr.length = ts.type.ipLen) :
    (∀ p, ts.IsCidr p → (calcNetbits ts).2.netbits.toNat = p) ∧
      (value ts.fromAddr ≤ value ts.toAddr → (∀ p, ¬ ts.IsCidr p) →
        (calcNetbits ts).2.netbits = nonSubnetAddressRange) := by
  obtain ⟨hKle, hlc, hstore⟩ := calcNetbits_spec hf ht
  constructor
  · rintro p ⟨hp, hIcc⟩
    -- the block is the least common block, so `p` is the common prefix
    have hle := IsCidr.le ⟨hp, hIcc⟩
    have hK := (leastCommon_of_Icc_eq hIcc).unique hlc
    rw [hK] at hIcc
    rw [hstore, if_pos ((hlc.Icc_eq_iff hle).mp hIcc)]
    omega
  · intro hle hnone
    rw [hstore, if_neg]
    exact fun htail => hnone _ ⟨hKle, (hlc.Icc_eq_iff hle).mpr htail⟩

theorem calcNetbits_netbits_eq (hf : ts.fromAddr.length = ts.type.ipLen)
    (ht : ts.toAddr.length = ts.type.ipLen) {b : UInt8} (h : ts.IsCidr b.toNat) :
    (calcNetbits ts).2.netbits = b :=
  UInt8.toNat_inj.mp ((calcNetbits_netbits hf ht).1 _ h)

end Spec

/-! ## 5. `calc_range` and the network of `to_subnet` -/

theorem mask_testBit : ∀ bits < 8, ∀ b < 8,
    (if bits ≠ 0 then ((1 : UInt8) <<< bits.toUInt8) - 1 else 0).toNat.testBit b =
      decide (b < bits) := by
  decide

theorem not_mask_testBit : ∀ bits < 8, ∀ b < 8,
    (~~~(if bits ≠ 0 then ((1 : UInt8) <<< bits.toUInt8) - 1 else 0)).toNat.testBit b =
      decide (bits ≤ b) := by
  decide

/-- **`calc_range` builds the block of prefix `netbits` around `from`**: `from` with
its host bits cleared and `to` with them set; the rest of the selector stays. -/
theorem calcRange_spec {ts : TrafficSelector} (hf : ts.fromAddr.length = ts.type.ipLen)
    {netbits : UInt8} (hp : netbits.toNat ≤ 8 * ts.type.ipLen) :
    ∃ fromAddr toAddr,
      calcRange ts netbits = { ts with netbits := netbits, fromAddr := fromAddr, toAddr := toAddr } ∧
        fromAddr.length = ts.type.ipLen ∧ toAddr.length = ts.type.ipLen ∧
        value fromAddr =
          value ts.fromAddr - value ts.fromAddr % 2 ^ (8 * ts.type.ipLen - netbits.toNat) ∧
        value toAddr = value fromAddr + (2 ^ (8 * ts.type.ipLen - netbits.toNat) - 1) := by
  have hfill : ∀ v : UInt8, ts.fromAddr.take ((netbits.toNat + 7) / 8) ++
      List.replicate (ts.type.ipLen - (netbits.toNat + 7) / 8) v =
        fill ts.fromAddr ((netbits.toNat + 7) / 8) v := fun v => by rw [fill, hf]
  unfold calcRange
  dsimp only
  rw [hfill, hfill]
  split
  · -- a prefix: the last byte of it under the mask
    rename_i hbytes
    have hp0 : 0 < netbits.toNat := by omega
    have hbits : (netbits.toNat + 7) / 8 * 8 - netbits.toNat < 8 := by omega
    have hp' : netbits.toNat ≤ 8 * ts.fromAddr.length := hf ▸ hp
    refine ⟨_, _, rfl, by simp [hf], by simp [hf], ?_, ?_⟩ <;> rw [← hf]
    · exact value_set_fill_and _ hp0 hp' _ fun b hb => not_mask_testBit _ hbits b hb
    · rw [value_set_fill_or _ hp0 hp' _ fun b hb => mask_testBit _ hbits b hb,
        value_set_fill_and _ hp0 hp' _ fun b hb => not_mask_testBit _ hbits b hb]
  · -- no prefix: every address
    rename_i hbytes
    have hp0 : netbits.toNat = 0 := by omega
    have hlt := value_lt_two_pow ts.fromAddr
    refine ⟨_, _, rfl, by simp [hf], by simp [hf], ?_, ?_⟩ <;>
      simp only [hp0, Nat.zero_add, Nat.reduceDiv, fill, List.take_zero, List.nil_append,
        Nat.sub_zero, value_replicate_zero]
    · rw [← hf, Nat.mod_eq_of_lt hlt, Nat.sub_self]
    · rw [hf, value_replicate_ff_eq]

/-- `netChunk` is `from` with the bits after the first `mask` cleared. -/
theorem netChunk_spec {fromAddr : List UInt8} {len : ℕ} (hf : fromAddr.length = len) {mask : UInt8}
    (hp : mask.toNat ≤ 8 * len) :
    (netChunk fromAddr len mask).length = len ∧
      value (netChunk fromAddr len mask) = value fromAddr - value fromAddr % 2 ^ (8 * len - mask.toNat) := by
  subst hf
  unfold netChunk
  split
  · rename_i hmask
    have hp0 : 0 < mask.toNat := by
      rcases Nat.eq_zero_or_pos mask.toNat with h0 | h0
      · exact absurd (UInt8.toNat_inj.mp (h0.trans UInt8.toNat_zero.symm)) hmask
      · exact h0
    have hfill : fromAddr.take ((mask.toNat + 7) / 8) ++
        List.replicate (fromAddr.length - (mask.toNat + 7) / 8) 0 =
          fill fromAddr ((mask.toNat + 7) / 8) 0 := rfl
    dsimp only
    rw [hfill]
    refine ⟨by simp, value_set_fill_and _ hp0 hp _ fun b hb => ?_⟩
    rw [Bits.testBit_high_mask, Nat.mul_comm]
    simp [hb]
  · rename_i hmask
    obtain rfl : mask = 0 := by simpa using hmask
    refine ⟨by simp, ?_⟩
    rw [value_replicate_zero, UInt8.toNat_zero, Nat.sub_zero,
      Nat.mod_eq_of_lt (value_lt_two_pow fromAddr), Nat.sub_self]


/-! ## 6. Well-formed selectors -/

/-- What every selector the program holds satisfies: addresses of the type's length,
the `netbits` `calc_netbits` stores for them, and ICMP ports as
`traffic_selector_create` leaves them. -/
structure WellFormed (ts : TrafficSelector) : Prop where
  length_from : ts.fromAddr.length = ts.type.ipLen
  length_to : ts.toAddr.length = ts.type.ipLen
  netbits_eq : ts.netbits = (calcNetbits ts).2.netbits
  icmpPorts : ts.IcmpPorts

section WellFormed

variable {ts : TrafficSelector}

/-- The selector `calc_netbits` leaves behind is well formed. -/
theorem wellFormed_calcNetbits (hf : ts.fromAddr.length = ts.type.ipLen)
    (ht : ts.toAddr.length = ts.type.ipLen) (hicmp : ts.IcmpPorts) :
    WellFormed (calcNetbits ts).2 :=
  ⟨hf, ht, rfl, hicmp⟩

/-- **The cached `netbits` of a well-formed selector** is the prefix of its range when
the range is a block, and `255` when the range is ordered but no block. -/
theorem WellFormed.netbits_cidr (h : WellFormed ts) :
    (∀ p, ts.IsCidr p → ts.netbits.toNat = p) ∧
      (value ts.fromAddr ≤ value ts.toAddr → (∀ p, ¬ ts.IsCidr p) →
        ts.netbits = nonSubnetAddressRange) := by
  rw [h.netbits_eq]
  exact calcNetbits_netbits h.length_from h.length_to

/-- The type of a host's family has the host's address length. -/
theorem ipLen_of_family (f : Family) :
    (if f = .inet then TsType.ipv4AddrRange else .ipv6AddrRange).ipLen = f.addrLen := by
  cases f <;> rfl

theorem wellFormed_createFromBytes {protocol : UInt8} {type : TsType} {fromAddr toAddr : List UInt8}
    {fromPort toPort : UInt16}
    (h : createFromBytes protocol type fromAddr fromPort toAddr toPort = some ts) : WellFormed ts := by
  unfold createFromBytes at h
  split at h
  · cases h
  rename_i hlen
  cases h
  push Not at hlen
  exact wellFormed_calcNetbits (by simp [hlen.2]) (by simp [← hlen.1, hlen.2])
    (trafficSelectorCreate_icmpPorts _ _ _ _)

theorem wellFormed_createFromString {inetPton : Family → String → Option (List UInt8)}
    (hpton : ∀ f s a, inetPton f s = some a → a.length = f.addrLen) {protocol : UInt8}
    {type : TsType} {fromAddr toAddr : String} {fromPort toPort : UInt16}
    (h : createFromString inetPton protocol type fromAddr fromPort toAddr toPort = some ts) :
    WellFormed ts := by
  unfold createFromString at h
  dsimp only at h
  generalize hfamily : (if type = .ipv4AddrRange then Family.inet else .inet6) = family at h
  have hfam : family.addrLen = type.ipLen := by
    rw [← hfamily]
    cases type <;> rfl
  rcases hsrc : inetPton family fromAddr with _ | src <;>
    rcases hdst : inetPton family toAddr with _ | dst <;> rw [hsrc, hdst] at h <;> cases h
  exact wellFormed_calcNetbits (by simpa [hfam] using hpton _ _ _ hsrc)
    (by simpa [hfam] using hpton _ _ _ hdst) (trafficSelectorCreate_icmpPorts _ _ _ _)

theorem wellFormed_createFromSubnet {net : Host} (hnet : net.WellFormed) (netbits protocol : UInt8)
    (fromPort toPort : UInt16) : WellFormed (createFromSubnet net netbits protocol fromPort toPort) := by
  unfold createFromSubnet
  dsimp only
  generalize htype : (if net.family = .inet then TsType.ipv4AddrRange else .ipv6AddrRange) = type
  have hlen : net.address.length = type.ipLen := by rw [hnet, ← htype, ipLen_of_family]
  have hN : type.ipLen * 8 < 256 := by have := type.ipLen_le; omega
  -- the prefix length is cut to the address length
  generalize hp' : min netbits (type.ipLen * 8).toUInt8 = p
  have hp : p.toNat ≤ 8 * type.ipLen := by
    rw [← hp', UInt8.toNat_min, toNat_toUInt8_of_lt hN]
    omega
  generalize hts : ({ trafficSelectorCreate protocol type fromPort toPort with
    fromAddr := net.address } : TrafficSelector) = ts
  have htstype : ts.type = type := by rw [← hts, trafficSelectorCreate_type]
  have hf : ts.fromAddr.length = ts.type.ipLen := by rw [htstype, ← hlen, ← hts]
  obtain ⟨F, T, heq, hF, hT, hvF, hvT⟩ := @calcRange_spec ts hf p (htstype ▸ hp)
  rw [heq]
  refine ⟨hF, hT, ?_, by rw [← hts]; exact trafficSelectorCreate_icmpPorts _ _ _ _⟩
  -- the subnet built is the block of its prefix, which `calc_netbits` finds again
  refine (calcNetbits_netbits_eq hF hT ⟨htstype ▸ hp, ?_⟩).symm
  show Set.Icc (value F) (value T) = blockOf (8 * ts.type.ipLen - p.toNat) (value F)
  rw [Icc_eq_blockOf_iff, hvT, hvF]
  exact ⟨Bits.sub_mod_two_pow_mod _ le_rfl, rfl⟩

theorem wellFormed_createFromCidr {parse : String → Option (Host × ℤ)}
    (hparse : ∀ s net bits, parse s = some (net, bits) → net.WellFormed) {string : String}
    {protocol : UInt8} {fromPort toPort : UInt16}
    (h : createFromCidr parse string protocol fromPort toPort = some ts) : WellFormed ts := by
  unfold createFromCidr at h
  obtain ⟨⟨net, bits⟩, hnet, rfl⟩ := Option.map_eq_some_iff.mp h
  exact wellFormed_createFromSubnet (hparse _ _ _ hnet) _ _ _ _

theorem wellFormed_createFromRfc3779Format (type : TsType) (fromChunk toChunk : List UInt8) :
    WellFormed (createFromRfc3779Format type fromChunk toChunk) := by
  unfold createFromRfc3779Format
  dsimp only
  refine wellFormed_calcNetbits ?_ ?_ (trafficSelectorCreate_icmpPorts _ _ _ _) <;>
    simp only [trafficSelectorCreate_type]
  · -- `from`: the bytes given, filled up with `0`s
    split <;> simp
  · -- `to`: the same with `1`s, one byte or-ed with the unused bits
    split <;> simp

theorem wellFormed_createDynamic (protocol : UInt8) (fromPort toPort : UInt16) :
    WellFormed (createDynamic protocol fromPort toPort) := by
  refine ⟨by simp [createDynamic, TsType.ipLen], by simp [createDynamic, TsType.ipLen], ?_,
    trafficSelectorCreate_icmpPorts _ _ _ _⟩
  exact (calcNetbits_netbits_eq (by simp [createDynamic, TsType.ipLen])
    (by simp [createDynamic, TsType.ipLen])
    (isCidr_zero_of rfl rfl (by simp [createDynamic, TsType.ipLen]))).symm

theorem WellFormed.clone (h : WellFormed ts) : WellFormed ts.clone := by
  rw [clone_eq h.icmpPorts]
  exact h

theorem WellFormed.setAddress {host : Host} (hhost : host.WellFormed) (h : WellFormed ts) :
    WellFormed (ts.setAddress host) := by
  have hlen : host.address.length = (if host.family = .inet then TsType.ipv4AddrRange
      else .ipv6AddrRange).ipLen := by rw [hhost, ipLen_of_family]
  unfold TrafficSelector.setAddress
  dsimp only
  split
  · -- the any-address: every address of the family, prefix `0`
    refine ⟨by simp, by simp, ?_, h.icmpPorts⟩
    exact (calcNetbits_netbits_eq (by simp) (by simp) (isCidr_zero_of rfl rfl rfl)).symm
  · -- one address: the full prefix
    have hN : host.address.length * 8 < 256 := by
      have := (if host.family = .inet then TsType.ipv4AddrRange else .ipv6AddrRange).ipLen_le
      omega
    refine ⟨hlen, hlen, ?_, h.icmpPorts⟩
    refine (calcNetbits_netbits_eq hlen hlen ?_).symm
    rw [toNat_toUInt8_of_lt hN, Nat.mul_comm, hlen]
    exact isCidr_full_of rfl

theorem length_higherAddr {a b : List UInt8} {n : ℕ} (ha : a.length = n) (hb : b.length = n) :
    (higherAddr a b).length = n := by
  unfold higherAddr; split <;> assumption

theorem length_lowerAddr {a b : List UInt8} {n : ℕ} (ha : a.length = n) (hb : b.length = n) :
    (lowerAddr a b).length = n := by
  unfold lowerAddr; split <;> assumption

theorem WellFormed.getSubset {a b : TrafficSelector} (ha : WellFormed a) (hb : WellFormed b)
    (h : getSubset a b = some ts) : WellFormed ts := by
  obtain ⟨-, -, htype, -, -, -, rfl⟩ := getSubset_eq_some h
  refine wellFormed_calcNetbits ?_ ?_ (trafficSelectorCreate_icmpPorts _ _ _ _) <;>
    simp only [trafficSelectorCreate_type]
  · exact length_higherAddr ha.length_from (htype ▸ hb.length_from)
  · exact length_lowerAddr ha.length_to (htype ▸ hb.length_to)

/-- `to_subnet` leaves a well-formed selector as it is: where `calc_netbits` runs, it
stores the cached value again. -/
theorem WellFormed.toSubnet_snd (h : WellFormed ts) : (toSubnet ts).2 = ts := by
  unfold toSubnet
  dsimp only
  split
  · show { ts with netbits := (TrafficSelector.calcNetbits ts).2.netbits } = ts
    rw [← h.netbits_eq]
  · rfl

end WellFormed

/-- The selectors a program holds: built by a constructor, then narrowed by
`get_subset`, copied by `clone`, given an address by `set_address`, or kept through
`to_subnet`, which may store `netbits` again. The address parsers, `inet_pton` and
`host_create_from_subnet`, return addresses of their family's length. -/
inductive Built : TrafficSelector → Prop
  | fromBytes {protocol : UInt8} {type : TsType} {fromAddr toAddr : List UInt8}
      {fromPort toPort : UInt16} {ts : TrafficSelector} :
      createFromBytes protocol type fromAddr fromPort toAddr toPort = some ts → Built ts
  | fromString {inetPton : Family → String → Option (List UInt8)} {protocol : UInt8}
      {type : TsType} {fromAddr toAddr : String} {fromPort toPort : UInt16} {ts : TrafficSelector} :
      (∀ f s a, inetPton f s = some a → a.length = f.addrLen) →
      createFromString inetPton protocol type fromAddr fromPort toAddr toPort = some ts → Built ts
  | fromSubnet {net : Host} {netbits protocol : UInt8} {fromPort toPort : UInt16} :
      net.WellFormed → Built (createFromSubnet net netbits protocol fromPort toPort)
  | fromCidr {parse : String → Option (Host × ℤ)} {string : String} {protocol : UInt8}
      {fromPort toPort : UInt16} {ts : TrafficSelector} :
      (∀ s net bits, parse s = some (net, bits) → net.WellFormed) →
      createFromCidr parse string protocol fromPort toPort = some ts → Built ts
  | fromRfc3779 {type : TsType} {fromChunk toChunk : List UInt8} :
      Built (createFromRfc3779Format type fromChunk toChunk)
  | dynamic {protocol : UInt8} {fromPort toPort : UInt16} :
      Built (createDynamic protocol fromPort toPort)
  | subset {a b ts : TrafficSelector} : Built a → Built b → getSubset a b = some ts → Built ts
  | clone {a : TrafficSelector} : Built a → Built a.clone
  | setAddress {a : TrafficSelector} {host : Host} : host.WellFormed → Built a →
      Built (a.setAddress host)
  | toSubnet {a : TrafficSelector} : Built a → Built (toSubnet a).2

/-- Every selector the program holds is well formed. -/
theorem Built.wellFormed {ts : TrafficSelector} (h : Built ts) : WellFormed ts := by
  induction h with
  | fromBytes h => exact wellFormed_createFromBytes h
  | fromString hpton h => exact wellFormed_createFromString hpton h
  | fromSubnet hnet => exact wellFormed_createFromSubnet hnet _ _ _ _
  | fromCidr hparse h => exact wellFormed_createFromCidr hparse h
  | fromRfc3779 => exact wellFormed_createFromRfc3779Format _ _ _
  | dynamic => exact wellFormed_createDynamic _ _ _
  | subset _ _ h iha ihb => exact iha.getSubset ihb h
  | clone _ ih => exact ih.clone
  | setAddress hhost _ ih => exact ih.setAddress hhost
  | toSubnet _ ih => rw [ih.toSubnet_snd]; exact ih


/-! ## 7. `to_subnet` -/

section ToSubnet

variable {ts : TrafficSelector}

/-- A cached prefix is the common prefix `calc_netbits` returns. -/
theorem WellFormed.netbits_eq_of_ne (h : WellFormed ts) (hne : ts.netbits ≠ nonSubnetAddressRange) :
    ts.netbits = (TrafficSelector.calcNetbits ts).1 := by
  obtain ⟨-, -, hstore⟩ := calcNetbits_spec h.length_from h.length_to
  rw [h.netbits_eq, hstore] at hne ⊢
  split_ifs at hne ⊢
  · rfl
  · exact absurd rfl hne

/-- What `to_subnet` returns for a well-formed selector: whether the cached prefix is
one, the network of the common prefix, and the common prefix as the mask. -/
theorem WellFormed.toSubnet_fst (h : WellFormed ts) :
    (toSubnet ts).1 = ⟨ts.netbits ≠ nonSubnetAddressRange,
      ⟨if ts.type = .ipv4AddrRange then .inet else .inet6,
        netChunk ts.fromAddr ts.type.ipLen (TrafficSelector.calcNetbits ts).1,
        if ts.toPort = ts.fromPort then ts.toPort else 0⟩,
      (TrafficSelector.calcNetbits ts).1⟩ := by
  unfold toSubnet
  by_cases hn : ts.netbits = nonSubnetAddressRange
  · simp only [if_pos hn]
    rw [show (TrafficSelector.calcNetbits ts).2.netbits = ts.netbits from h.netbits_eq.symm]
  · simp only [if_neg hn]
    rw [← h.netbits_eq_of_ne hn]

/-- **`to_subnet` of a well-formed selector with `from ≤ to`.** The mask is at most
the address length; the network is `from` with the bits after the mask cleared, of
the family and length of the selector's type; the block it names holds the range and
no smaller block does; the result says whether the range is that block; the port is
the one port of a range of one. -/
theorem WellFormed.toSubnet_spec (h : WellFormed ts) (hle : value ts.fromAddr ≤ value ts.toAddr) :
    (toSubnet ts).1.mask.toNat ≤ 8 * ts.type.ipLen ∧
      (toSubnet ts).1.net.family = (if ts.type = .ipv4AddrRange then .inet else .inet6) ∧
      (toSubnet ts).1.net.address.length = ts.type.ipLen ∧
      value (toSubnet ts).1.net.address =
        value ts.fromAddr - value ts.fromAddr % 2 ^ (8 * ts.type.ipLen - (toSubnet ts).1.mask.toNat) ∧
      Set.Icc (value ts.fromAddr) (value ts.toAddr) ⊆
        blockOf (8 * ts.type.ipLen - (toSubnet ts).1.mask.toNat) (value (toSubnet ts).1.net.address) ∧
      (∀ k y, Set.Icc (value ts.fromAddr) (value ts.toAddr) ⊆ blockOf k y →
        8 * ts.type.ipLen - (toSubnet ts).1.mask.toNat ≤ k) ∧
      ((toSubnet ts).1.isSubnet = true ↔ Set.Icc (value ts.fromAddr) (value ts.toAddr) =
        blockOf (8 * ts.type.ipLen - (toSubnet ts).1.mask.toNat) (value (toSubnet ts).1.net.address)) ∧
      (toSubnet ts).1.net.port = if ts.fromPort = ts.toPort then ts.fromPort else 0 := by
  obtain ⟨hKle, hlc, hstore⟩ := calcNetbits_spec h.length_from h.length_to
  obtain ⟨hlen, hval⟩ := netChunk_spec h.length_from hKle
  rw [h.toSubnet_fst]
  dsimp only
  -- the network names the least common block of the range
  have hnet : blockOf (8 * ts.type.ipLen - (TrafficSelector.calcNetbits ts).1.toNat)
      (value (netChunk ts.fromAddr ts.type.ipLen (TrafficSelector.calcNetbits ts).1)) =
        blockOf (8 * ts.type.ipLen - (TrafficSelector.calcNetbits ts).1.toNat) (value ts.fromAddr) := by
    have hpos := Nat.two_pow_pos (8 * ts.type.ipLen - (TrafficSelector.calcNetbits ts).1.toNat)
    rw [hval]
    exact blockOf_eq_of_mem ((mem_blockOf_iff _ _ _).mpr ⟨le_rfl, by omega⟩)
  have hK255 : (TrafficSelector.calcNetbits ts).1 ≠ nonSubnetAddressRange := fun heq => by
    have h16 := ts.type.ipLen_le
    have h255 : nonSubnetAddressRange.toNat = 255 := rfl
    rw [heq, h255] at hKle
    omega
  refine ⟨hKle, rfl, hlen, hval, hnet ▸ hlc.Icc_subset, fun k y hk => hlc.le_of_Icc_subset hle hk,
    ?_, ?_⟩
  · -- the cached prefix is one exactly when the range is the least common block
    rw [hnet, hlc.Icc_eq_iff hle, decide_eq_true_iff, h.netbits_eq, hstore]
    split_ifs with htail
    · exact ⟨fun _ => htail, fun _ => hK255⟩
    · exact ⟨fun hne => absurd rfl hne, fun h' => absurd h' htail⟩
  · by_cases hport : ts.fromPort = ts.toPort
    · rw [if_pos hport, if_pos hport.symm, hport]
    · rw [if_neg hport, if_neg (Ne.symm hport)]

end ToSubnet

/-- The cached prefix and `to_subnet` are right for `ts`: `netbits` is the prefix of
the range where the range is a block and `255` where it is none; `to_subnet` leaves
the selector as it is, and returns the least block that holds the range, its network
being `from` with the host bits cleared, says whether the range is that block, and
gives the one port of a range of one. -/
structure SubnetCacheSound (ts : TrafficSelector) : Prop where
  netbits_of_cidr : ∀ p, ts.IsCidr p → ts.netbits.toNat = p
  netbits_of_no_cidr : (∀ p, ¬ ts.IsCidr p) → ts.netbits = nonSubnetAddressRange
  toSubnet_snd : (toSubnet ts).2 = ts
  mask_le : (toSubnet ts).1.mask.toNat ≤ 8 * ts.type.ipLen
  net_family : (toSubnet ts).1.net.family = (if ts.type = .ipv4AddrRange then .inet else .inet6)
  net_length : (toSubnet ts).1.net.address.length = ts.type.ipLen
  net_value : value (toSubnet ts).1.net.address =
    value ts.fromAddr - value ts.fromAddr % 2 ^ (8 * ts.type.ipLen - (toSubnet ts).1.mask.toNat)
  range_subset : Set.Icc (value ts.fromAddr) (value ts.toAddr) ⊆
    blockOf (8 * ts.type.ipLen - (toSubnet ts).1.mask.toNat) (value (toSubnet ts).1.net.address)
  least : ∀ k y, Set.Icc (value ts.fromAddr) (value ts.toAddr) ⊆ blockOf k y →
    8 * ts.type.ipLen - (toSubnet ts).1.mask.toNat ≤ k
  isSubnet_iff : (toSubnet ts).1.isSubnet = true ↔ Set.Icc (value ts.fromAddr) (value ts.toAddr) =
    blockOf (8 * ts.type.ipLen - (toSubnet ts).1.mask.toNat) (value (toSubnet ts).1.net.address)
  net_port : (toSubnet ts).1.net.port = if ts.fromPort = ts.toPort then ts.fromPort else 0

/-- **The cached prefix of every selector the program holds is right, and so is
`to_subnet`,** for ordered ranges. -/
theorem subnetCacheSound_of_built {ts : TrafficSelector} (hb : Built ts)
    (hle : value ts.fromAddr ≤ value ts.toAddr) : SubnetCacheSound ts := by
  have h := hb.wellFormed
  obtain ⟨hcidr, hnone⟩ := h.netbits_cidr
  obtain ⟨hmask, hfam, hlen, hval, hsub, hleast, hiff, hport⟩ := h.toSubnet_spec hle
  exact ⟨hcidr, hnone hle, h.toSubnet_snd, hmask, hfam, hlen, hval, hsub, hleast, hiff, hport⟩

theorem subnetCacheSound_of_built_subnet :
    Built (createFromSubnet ⟨.inet, [10, 1, 2, 3], 0⟩ 20 0 0 65535) ∧
      value (createFromSubnet ⟨.inet, [10, 1, 2, 3], 0⟩ 20 0 0 65535).fromAddr ≤
        value (createFromSubnet ⟨.inet, [10, 1, 2, 3], 0⟩ 20 0 0 65535).toAddr ∧
      SubnetCacheSound (createFromSubnet ⟨.inet, [10, 1, 2, 3], 0⟩ 20 0 0 65535) :=
  have hb : Built (createFromSubnet ⟨.inet, [10, 1, 2, 3], 0⟩ 20 0 0 65535) := Built.fromSubnet rfl
  have hle : value (createFromSubnet ⟨.inet, [10, 1, 2, 3], 0⟩ 20 0 0 65535).fromAddr ≤
      value (createFromSubnet ⟨.inet, [10, 1, 2, 3], 0⟩ 20 0 0 65535).toAddr := by decide
  ⟨hb, hle, subnetCacheSound_of_built hb hle⟩

/-- With `from > to`, which `traffic_selector_create_from_bytes` accepts, the range is
empty, yet `netbits` names the prefix `24` and `to_subnet` calls the range a subnet. -/
theorem netbits_of_reversed_range :
    ∃ ts, createFromBytes 0 .ipv4AddrRange [10, 0, 0, 128] 0 [10, 0, 0, 127] 65535 = some ts ∧
      Built ts ∧ ts.netbits = 24 ∧ (∀ p, ¬ ts.IsCidr p) ∧ (toSubnet ts).1.isSubnet = true ∧
      ¬ SubnetCacheSound ts := by
  refine ⟨_, rfl, @Built.fromBytes 0 .ipv4AddrRange [10, 0, 0, 128] [10, 0, 0, 127] 0 65535 _ rfl,
    rfl, fun p hp => absurd hp.le (by decide), rfl, ?_⟩
  intro hsound
  have h255 := hsound.netbits_of_no_cidr fun p hp => absurd hp.le (by decide)
  exact absurd h255 (by decide)

end VpnClient.Ipsec.TrafficSelector
