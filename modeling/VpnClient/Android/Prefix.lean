import VpnClient.Android.RangeAlgebra

/-!
# Prefixes: `determinePrefix` and `initializeFromCIDR`

An `IPRange` caches a prefix length, `mPrefix`, and `toSubnets` trusts it: a range
with a prefix is returned as its own single subnet. This file proves the cache
right wherever it is set.

* The private constructor `IPRange(byte[], byte[])` sets it by `determinePrefix`.
  Its scan over the masked bit pairs is read back as the bits of the two addresses
  (`maskedBits_getElem?`): a prefix comes out only when the addresses agree above
  it and run from all zeros to all ones below it (`determinePrefix_sound`).
* `initializeFromCIDR` sets it together with the bounds it computes from a base
  address: the aligned block of the base (`initializeFromCIDR_spec`).

`WellFormed` collects what the public constructors guarantee: ordered bounds of 4
or 16 bytes, and a sound prefix. `merge` and `remove` build new ranges only through
`IPRange(byte[], byte[])`, so they keep ranges well formed (`merge_wellFormed`,
`remove_wellFormed`).
-/

namespace VpnClient.Android

namespace IPRange

open VpnClient.Lib Bytes

/-! ## 1. Proper subnets -/

/-- `r` is the proper subnet with a prefix of `p` bits: the host bits of `mFrom` are
all clear, and `mTo` is `mFrom` with all host bits set. -/
structure IsSubnet (r : IPRange) (p : ℕ) : Prop where
  length_eq : r.mTo.length = r.mFrom.length
  prefix_le : p ≤ 8 * r.family
  aligned : r.lo % 2 ^ (8 * r.family - p) = 0
  hi_eq : r.hi = r.lo + (2 ^ (8 * r.family - p) - 1)

theorem IsSubnet.valid {r : IPRange} {p : ℕ} (h : r.IsSubnet p) : r.Valid :=
  ⟨h.length_eq, by rw [h.hi_eq]; exact Nat.le_add_right _ _⟩

/-- What the public constructors build: ordered bounds of one of the two address
lengths, and a cached prefix only where the range is that subnet. -/
structure WellFormed (r : IPRange) : Prop where
  valid : r.Valid
  family_eq : r.family = 4 ∨ r.family = 16
  prefix_sound : ∀ p, r.mPrefix = some p → r.IsSubnet p

/-! ## 2. The bits `determinePrefix` reads -/

theorem mBitmask_getElem? : ∀ bit < 8, mBitmask[bit]? = some (UInt8.ofNat (2 ^ (7 - bit))) := by
  decide

theorem length_maskedBits : ∀ {a b : List UInt8}, b.length = a.length →
    (maskedBits a b).length = 8 * a.length
  | [], _, _ => rfl
  | _ :: _, [], h => absurd h (by simp)
  | x :: a, y :: b, h => by
    have ih := length_maskedBits (a := a) (b := b) (by simpa using h)
    rw [show maskedBits (x :: a) (y :: b) =
      mBitmask.map (fun m => (x &&& m, y &&& m)) ++ maskedBits a b from rfl,
      List.length_append, ih]
    simp [mBitmask]
    omega

/-- Entry `idx` of the scan is the pair of bits `idx`, counted from the top, under
their byte's mask. -/
theorem maskedBits_getElem? : ∀ {a b : List UInt8}, b.length = a.length →
    ∀ {idx : ℕ}, idx < 8 * a.length →
      (maskedBits a b)[idx]? = some (a.getD (idx / 8) 0 &&& UInt8.ofNat (2 ^ (7 - idx % 8)),
        b.getD (idx / 8) 0 &&& UInt8.ofNat (2 ^ (7 - idx % 8)))
  | [], _, _, _, h => absurd h (by simp)
  | _ :: _, [], h, _, _ => absurd h (by simp)
  | x :: a, y :: b, hlen, idx, h => by
    rw [show maskedBits (x :: a) (y :: b) =
      mBitmask.map (fun m => (x &&& m, y &&& m)) ++ maskedBits a b from rfl]
    have hmask : (mBitmask.map (fun m => (x &&& m, y &&& m))).length = 8 := rfl
    by_cases hidx : idx < 8
    · -- a bit of the first byte
      rw [List.getElem?_append_left (by omega), List.getElem?_map, mBitmask_getElem? idx hidx]
      simp [Nat.div_eq_of_lt hidx, Nat.mod_eq_of_lt hidx]
    · -- a bit of a later byte: eight entries further on
      obtain ⟨idx, rfl⟩ : ∃ idx', idx = idx' + 8 := ⟨idx - 8, by omega⟩
      rw [List.getElem?_append_right (by omega), hmask, Nat.add_sub_cancel,
        maskedBits_getElem? (by simpa using hlen) (by simp at h; omega),
        Nat.add_div_right _ (by norm_num), Nat.add_mod_right]
      simp

/-! ## 3. `determinePrefix` -/

/-- After the first differing bit the loop only checks that every later bit of
`mFrom` is `0` and every later bit of `mTo` is `1`. -/
theorem determinePrefixLoop_unmatched : ∀ (l : List (UInt8 × UInt8)) (j : ℕ) (mp : Option ℕ),
    determinePrefixLoop l j false mp = if ∀ e ∈ l, e.1 = 0 ∧ e.2 ≠ 0 then mp else none
  | [], _, _ => by simp [determinePrefixLoop]
  | (f, t) :: rest, j, mp => by
    simp only [determinePrefixLoop, Bool.false_eq_true, if_false]
    rw [determinePrefixLoop_unmatched rest (j + 1) mp]
    by_cases hft : f ≠ 0 ∨ t = 0
    · have hnot : ¬ ∀ e ∈ (f, t) :: rest, e.1 = 0 ∧ e.2 ≠ 0 := fun hall => by
        have := hall (f, t) List.mem_cons_self
        simp only at this
        tauto
      rw [if_pos hft, if_neg hnot]
    · rw [if_neg hft]
      simp only [not_or, ne_eq, not_not] at hft
      by_cases hrest : ∀ e ∈ rest, e.1 = 0 ∧ e.2 ≠ 0
      · refine (if_pos hrest).trans (if_pos fun e he => ?_).symm
        rcases List.mem_cons.mp he with rfl | he
        exacts [hft, hrest e he]
      · rw [if_neg hrest, if_neg fun h => hrest (List.forall_mem_cons.mp h).2]

/-- **What the scan of `determinePrefix` accepts.** A prefix comes out either when
all bits agree, as the initial value, or as the index of the first differing bit,
with every later bit of `mFrom` `0` and of `mTo` `1`. -/
theorem determinePrefixLoop_eq_some : ∀ {l : List (UInt8 × UInt8)} {j : ℕ} {mp : Option ℕ} {p : ℕ},
    determinePrefixLoop l j true mp = some p →
      ((∀ e ∈ l, e.1 = e.2) ∧ mp = some p) ∨
      ∃ k, p = j + k ∧ (∀ i < k, ∀ e, l[i]? = some e → e.1 = e.2) ∧
        (∃ e, l[k]? = some e ∧ e.1 ≠ e.2) ∧ ∀ i, k < i → ∀ e, l[i]? = some e → e.1 = 0 ∧ e.2 ≠ 0
  | [], _, _, _, h => Or.inl ⟨by simp, h⟩
  | (f, t) :: rest, j, mp, p, h => by
    rw [determinePrefixLoop, if_pos rfl] at h
    split at h
    · -- the first differing bit: the rest must run from `0`s to `1`s
      rename_i hft
      rw [determinePrefixLoop_unmatched] at h
      split at h
      · rename_i hrest
        cases h
        refine Or.inr ⟨0, rfl, fun i hi => absurd hi (Nat.not_lt_zero _), ⟨(f, t), rfl, hft⟩, ?_⟩
        rintro (_ | i) hi e he
        · exact absurd hi (Nat.lt_irrefl 0)
        · exact hrest e (List.mem_of_getElem? he)
      · cases h
    · -- an agreeing bit: on to the next
      rename_i hft
      rcases determinePrefixLoop_eq_some h with ⟨hall, hmp⟩ | ⟨k, rfl, hbelow, hk, habove⟩
      · refine Or.inl ⟨?_, hmp⟩
        rintro e (_ | ⟨_, he⟩)
        · simpa using hft
        · exact hall e he
      · refine Or.inr ⟨k + 1, by omega, ?_, by simpa using hk, ?_⟩
        · rintro (_ | i) hi e he
          · simp only [List.getElem?_cons_zero, Option.some.injEq] at he
            subst he; simpa using hft
          · exact hbelow i (by omega) e (by simpa using he)
        · rintro (_ | i) hi e he
          · exact absurd hi (Nat.not_lt_zero _)
          · exact habove i (by omega) e (by simpa using he)

/-- An entry of the scan, read as bits: entry `idx` exists only for `idx < 8 * n`,
and holds bit `8 * n - 1 - idx` of each value under its mask. -/
theorem maskedBits_entry {a b : List UInt8} (hlen : b.length = a.length) {idx : ℕ}
    {e : UInt8 × UInt8} (he : (maskedBits a b)[idx]? = some e) :
    idx < 8 * a.length ∧ (e.1 ≠ 0 ↔ (value a).testBit (8 * a.length - 1 - idx) = true) ∧
      (e.2 ≠ 0 ↔ (value b).testBit (8 * a.length - 1 - idx) = true) ∧
      (e.1 = e.2 ↔ (value a).testBit (8 * a.length - 1 - idx) =
        (value b).testBit (8 * a.length - 1 - idx)) := by
  have hidx : idx < 8 * a.length := length_maskedBits hlen ▸ (List.getElem?_eq_some_iff.mp he).1
  rw [maskedBits_getElem? hlen hidx, Option.some.injEq] at he
  subst he
  refine ⟨hidx, and_mask_ne_zero_iff a hidx, ?_, and_mask_eq_iff hlen hidx⟩
  rw [← hlen] at hidx ⊢
  exact and_mask_ne_zero_iff b hidx

/-- Addresses whose first `k` scan entries agree agree above their last
`8 * n - k` bits. -/
theorem div_eq_of_maskedBits_agree {a b : List UInt8} (hlen : b.length = a.length) {k : ℕ}
    (h : ∀ i < k, ∀ e, (maskedBits a b)[i]? = some e → e.1 = e.2) :
    value a / 2 ^ (8 * a.length - k) = value b / 2 ^ (8 * a.length - k) :=
  Bits.div_two_pow_eq_of_testBit_eq fun n hn => by
    by_cases hn' : n < 8 * a.length
    · -- bit `n` is read by entry `8 * n - 1 - n` of the scan, one of the first `k`
      have he := maskedBits_getElem? hlen (show 8 * a.length - 1 - n < 8 * a.length by omega)
      have heq := (maskedBits_entry hlen he).2.2.2
      rw [show 8 * a.length - 1 - (8 * a.length - 1 - n) = n by omega] at heq
      exact heq.mp (h _ (by omega) _ he)
    · rw [testBit_value_of_le a (by omega), testBit_value_of_le b (by omega)]

/-- **`determinePrefix` is sound.** On ordered bounds, a prefix `p` comes out only
when the range is the proper subnet with prefix `p`. -/
theorem determinePrefix_sound {a b : List UInt8} (hv : (ofBytes a b).Valid) {p : ℕ}
    (h : determinePrefix a b = some p) : (ofBytes a b).IsSubnet p := by
  have hlen : b.length = a.length := hv.length_eq
  have hle : value a ≤ value b := hv.le
  rcases determinePrefixLoop_eq_some h with ⟨hall, hp⟩ | ⟨k, hk, hbelow, ⟨e, hek, hne⟩, habove⟩
  · -- all bits agree: a one-address range, with the full prefix
    cases hp
    have hab := div_eq_of_maskedBits_agree hlen (k := 8 * a.length)
      fun _ _ e he => hall e (List.mem_of_getElem? he)
    rw [Nat.sub_self, pow_zero, Nat.div_one, Nat.div_one] at hab
    refine ⟨hlen, by simp [family]; omega, ?_, ?_⟩ <;>
      simp [family, lo, hi, hab, show 8 * a.length - a.length * 8 = 0 by omega, Nat.mod_one]
  · -- the first differing bit is bit `K` from the bottom; `K + 1` host bits
    have hpk : p = k := by simpa using hk
    subst hpk
    obtain ⟨hp8, -, -, heq⟩ := maskedBits_entry hlen hek
    obtain ⟨K, hK⟩ : ∃ K, 8 * a.length - p = K + 1 := ⟨8 * a.length - 1 - p, by omega⟩
    have habove' : value a / 2 ^ (K + 1) = value b / 2 ^ (K + 1) :=
      hK ▸ div_eq_of_maskedBits_agree hlen hbelow
    rw [show 8 * a.length - 1 - p = K by omega] at heq
    obtain ⟨haK, hbK⟩ := Bits.testBit_of_first_difference hle habove' (fun h' => hne (heq.mpr h'))
    -- below bit `K`, `mFrom` is all `0`s and `mTo` all `1`s
    have hlow : ∀ i < K, (value a).testBit i = false ∧ (value b).testBit i = true := by
      intro i hi
      have he := maskedBits_getElem? hlen (show 8 * a.length - 1 - i < 8 * a.length by omega)
      obtain ⟨-, ha, hb, -⟩ := maskedBits_entry hlen he
      rw [show 8 * a.length - 1 - (8 * a.length - 1 - i) = i by omega] at ha hb
      obtain ⟨h1, h2⟩ := habove _ (by omega) _ he
      exact ⟨Bool.eq_false_iff.mpr fun hbit => ha.mpr hbit h1, hb.mp h2⟩
    have hamod : value a % 2 ^ K = 0 := Bits.mod_two_pow_eq_zero_of_testBit fun i hi => (hlow i hi).1
    have hbmod : value b % 2 ^ K = 2 ^ K - 1 := Bits.mod_two_pow_eq_of_testBit fun i hi => (hlow i hi).2
    have hasucc := Bits.mod_two_pow_succ (value a) K
    have hbsucc := Bits.mod_two_pow_succ (value b) K
    rw [haK, if_neg Bool.false_ne_true, hamod] at hasucc
    rw [hbK, if_pos rfl, hbmod] at hbsucc
    have hpow : 2 ^ (K + 1) = 2 ^ K + 2 ^ K := by rw [pow_succ]; omega
    have hpos := Nat.two_pow_pos K
    have hda := Nat.div_add_mod (value a) (2 ^ (K + 1))
    have hdb := Nat.div_add_mod (value b) (2 ^ (K + 1))
    rw [habove'] at hda
    refine ⟨hlen, by simp [family]; omega, ?_, ?_⟩
    · simp only [family, lo, mFrom_ofBytes]; rw [hK]; omega
    · simp only [family, lo, hi, mFrom_ofBytes, mTo_ofBytes]; rw [hK]; omega

/-- A scan whose entries all agree keeps the prefix it started with. -/
theorem determinePrefixLoop_agree : ∀ {l : List (UInt8 × UInt8)} (j : ℕ) (mp : Option ℕ),
    (∀ e ∈ l, e.1 = e.2) → determinePrefixLoop l j true mp = mp
  | [], _, _, _ => rfl
  | (f, t) :: rest, j, mp, h => by
    have hft : f = t := h (f, t) List.mem_cons_self
    rw [determinePrefixLoop, if_pos rfl, if_neg (not_not.mpr hft)]
    exact determinePrefixLoop_agree (j + 1) mp fun e he => h e (List.mem_cons_of_mem _ he)

/-- The converse of `determinePrefixLoop_eq_some`: a first differing entry at `k`,
with every later entry running from `0` to non-`0`, gives the prefix `j + k`. -/
theorem determinePrefixLoop_of_first_difference : ∀ {l : List (UInt8 × UInt8)} {j k : ℕ} (mp : Option ℕ),
    (∀ i < k, ∀ e, l[i]? = some e → e.1 = e.2) → (∃ e, l[k]? = some e ∧ e.1 ≠ e.2) →
    (∀ i, k < i → ∀ e, l[i]? = some e → e.1 = 0 ∧ e.2 ≠ 0) →
    determinePrefixLoop l j true mp = some (j + k)
  | [], _, _, _, _, ⟨_, he, _⟩, _ => by simp at he
  | (f, t) :: rest, j, 0, mp, _, ⟨e, he, hne⟩, habove => by
    -- the first entry differs: the rest must run from `0`s to `1`s
    simp only [List.getElem?_cons_zero, Option.some.injEq] at he
    subst he
    have hrest : ∀ e ∈ rest, e.1 = 0 ∧ e.2 ≠ 0 := fun e he' => by
      obtain ⟨i, hi⟩ := List.mem_iff_getElem?.mp he'
      exact habove (i + 1) (by omega) e (by simpa using hi)
    rw [determinePrefixLoop, if_pos rfl, if_pos hne, determinePrefixLoop_unmatched, if_pos hrest, Nat.add_zero]
  | (f, t) :: rest, j, k + 1, mp, hbelow, ⟨e, he, hne⟩, habove => by
    -- an agreeing entry: on to the next
    have hft : f = t := hbelow 0 (by omega) (f, t) rfl
    rw [determinePrefixLoop, if_pos rfl, if_neg (not_not.mpr hft),
      @determinePrefixLoop_of_first_difference rest (j + 1) k mp
        (fun i hi e he => hbelow (i + 1) (by omega) e (by simpa using he)) ⟨e, by simpa using he, hne⟩
        (fun i hi e he => habove (i + 1) (by omega) e (by simpa using he)),
      Nat.add_right_comm, Nat.add_assoc]

/-- **`determinePrefix` is complete.** The proper subnet with prefix `p` gets the
prefix `p`. -/
theorem determinePrefix_complete {a b : List UInt8} {p : ℕ} (h : (ofBytes a b).IsSubnet p) :
    determinePrefix a b = some p := by
  have hlen : b.length = a.length := h.length_eq
  have hp := h.prefix_le
  have hal := h.aligned
  have hhi := h.hi_eq
  simp only [family, lo, hi, mFrom_ofBytes, mTo_ofBytes] at hp hal hhi
  -- below the prefix `a` holds zeros and `b` ones; above it they agree
  obtain ⟨q, hq⟩ := Nat.dvd_of_mod_eq_zero hal
  have hpos := Nat.two_pow_pos (8 * a.length - p)
  have hlow : value b % 2 ^ (8 * a.length - p) = 2 ^ (8 * a.length - p) - 1 := by
    rw [hhi, hq, Nat.mul_add_mod, Nat.mod_eq_of_lt (by omega)]
  have hhigh : value a / 2 ^ (8 * a.length - p) = value b / 2 ^ (8 * a.length - p) := by
    rw [hhi, hq, Nat.mul_add_div hpos, Nat.mul_div_cancel_left _ hpos, Nat.div_eq_of_lt (by omega),
      Nat.add_zero]
  unfold determinePrefix
  by_cases hfull : p = 8 * a.length
  · -- one address: every bit agrees, and the prefix stays the full length
    have hab : value a = value b := by
      rw [hhi, hfull, Nat.sub_self, pow_zero, Nat.sub_self, Nat.add_zero]
    rw [determinePrefixLoop_agree 0 _ fun e he => ?_]
    · rw [hfull, Nat.mul_comm]
    · obtain ⟨idx, hidx⟩ := List.mem_iff_getElem?.mp he
      exact (maskedBits_entry hlen hidx).2.2.2.mpr (by rw [hab])
  · -- the first differing bit is the top host bit
    have hentry : ∀ {i e}, (maskedBits a b)[i]? = some e →
        (8 * a.length - p ≤ 8 * a.length - 1 - i → e.1 = e.2) ∧
        (8 * a.length - 1 - i < 8 * a.length - p → e.1 = 0 ∧ e.2 ≠ 0) := by
      intro i e he
      obtain ⟨-, h1, h2, heq⟩ := maskedBits_entry hlen he
      refine ⟨fun hge => heq.mpr (Bits.testBit_eq_of_div_two_pow_eq hhigh hge), fun hlt => ⟨?_, ?_⟩⟩
      · simpa [Bits.testBit_eq_false_of_mod_two_pow hal hlt] using h1
      · exact h2.mpr (Bits.testBit_eq_true_of_mod_two_pow hlow hlt)
    have hp8 : p < 8 * a.length := by omega
    obtain ⟨e, he⟩ : ∃ e, (maskedBits a b)[p]? = some e := ⟨_, maskedBits_getElem? hlen hp8⟩
    have hne : e.1 ≠ e.2 := fun heq => by
      obtain ⟨h0, hnz⟩ := (hentry he).2 (by omega)
      exact hnz (heq ▸ h0)
    have := determinePrefixLoop_of_first_difference (j := 0) (some (a.length * 8))
      (fun i hi e he => (hentry he).1 (by omega)) ⟨e, he, hne⟩
      (fun i hi e he => (hentry he).2 (by have := (maskedBits_entry hlen he).1; omega))
    rwa [Nat.zero_add] at this

/-- **The prefix of a range is `determinePrefix`'s exactly when the range is that
subnet.** -/
theorem determinePrefix_eq_some_iff {a b : List UInt8} (hv : (ofBytes a b).Valid) (p : ℕ) :
    determinePrefix a b = some p ↔ (ofBytes a b).IsSubnet p :=
  ⟨determinePrefix_sound hv, determinePrefix_complete⟩

/-! ## 4. `initializeFromCIDR` -/

/-- `initializeFromCIDR`, behind the constructors from a base address and a prefix
length. `mFrom` is the base with its host bits cleared and `mTo` the base with them
set: in byte `prefix / 8` under the mask `0xff << (8 - prefix % 8)`, cut to a byte,
and in every later byte by `Arrays.fill`. -/
def initializeFromCIDR (fromAddr : List UInt8) (prefixLen : Int) : Except String IPRange :=
  if fromAddr.length ≠ 4 ∧ fromAddr.length ≠ 16 then .error "Invalid address"
  else if prefixLen < 0 ∨ prefixLen > fromAddr.length * 8 then .error "Invalid prefix"
  else
    let p := prefixLen.toNat
    let mask : UInt8 := UInt8.ofNat (0xff <<< (8 - p % 8))
    let i := p / 8
    if i < fromAddr.length then
      .ok ⟨fill (fromAddr.set i (fromAddr.getD i 0 &&& mask)) (i + 1) 0,
        fill (fromAddr.set i (fromAddr.getD i 0 ||| ~~~mask)) (i + 1) 0xff, some p⟩
    else .ok ⟨fromAddr, fromAddr, some p⟩

/-- Byte `i` replaced, then the bytes after it filled: the first `i` bytes, the new
byte, and the fill. -/
theorem value_fill_set (a : List UInt8) {i : ℕ} (hi : i < a.length) (b v : UInt8) :
    value (fill (a.set i b) (i + 1) v) =
      (value a / 256 ^ (a.length - i) * 256 + b.toNat) * 256 ^ (a.length - 1 - i) +
        value (List.replicate (a.length - 1 - i) v) := by
  have htake : (a.set i b).take (i + 1) = a.take i ++ [b] := by
    rw [List.set_eq_take_append_cons_drop, if_pos hi, List.take_append]
    simp [List.take_take, Nat.min_eq_left (Nat.le_of_lt hi)]
  rw [fill, value_append, htake, value_append_singleton, value_take, List.length_replicate,
    List.length_set]
  congr 3 <;> omega

/-- **`initializeFromCIDR` builds the aligned block of the base.** For a base of 4
or 16 bytes and a prefix within its length, the range starts at the base with its
host bits cleared and spans `2 ^ hostBits` addresses. -/
theorem initializeFromCIDR_spec {a : List UInt8} {p : ℕ} (hlen : a.length = 4 ∨ a.length = 16)
    (hp : p ≤ 8 * a.length) :
    ∃ c, initializeFromCIDR a p = .ok c ∧ c.mPrefix = some p ∧ c.mFrom.length = a.length ∧
      c.mTo.length = a.length ∧ c.lo = value a - value a % 2 ^ (8 * a.length - p) ∧
      c.hi = c.lo + (2 ^ (8 * a.length - p) - 1) := by
  have hchk : ¬ (a.length ≠ 4 ∧ a.length ≠ 16) := by omega
  have hchk' : ¬ ((p : ℤ) < 0 ∨ (p : ℤ) > a.length * 8) := by omega
  simp only [initializeFromCIDR, hchk, hchk', if_false, Int.toNat_natCast]
  split
  · rename_i hidx
    have hp8 := Nat.div_add_mod p 8
    have hr8 := Nat.mod_lt p (show 8 > 0 by norm_num)
    generalize p / 8 = i at *
    obtain ⟨hand, hor⟩ := Bits.toNat_high_mask (a.getD i 0) hr8
    have hbyte := toNat_getD a hidx
    have hfill := value_replicate_ff (a.length - 1 - i)
    -- the weight of byte `i`, and the `8 - p % 8` host bits within it
    have hW : 256 ^ (a.length - i) = 256 ^ (a.length - 1 - i) * 256 := by
      rw [← pow_succ]; congr 1; omega
    have hexp : 2 ^ (8 * a.length - p) = 256 ^ (a.length - 1 - i) * 2 ^ (8 - p % 8) := by
      rw [show 8 * a.length - p = 8 * (a.length - 1 - i) + (8 - p % 8) by omega, two_pow_bit,
        Nat.mul_comm]
    have hdvd : 2 ^ (8 - p % 8) ∣ 256 :=
      ⟨2 ^ (p % 8), by rw [← pow_add, show 8 - p % 8 + p % 8 = 8 by omega]; rfl⟩
    refine ⟨_, rfl, rfl, by simp, by simp, ?_, ?_⟩ <;> simp only [lo, hi]
    · -- the base less its host bits: the bytes above `i`, then byte `i` masked
      rw [value_fill_set a hidx, value_replicate_zero, Nat.add_zero, hand, hbyte, hW,
        ← Nat.div_div_eq_div_mul, hexp, Nat.mod_mul]
      have hsplit := Nat.div_add_mod (value a) (256 ^ (a.length - 1 - i))
      generalize 256 ^ (a.length - 1 - i) = W at *
      rw [← Nat.mod_mod_of_dvd (value a / W) hdvd]
      have hN := Nat.div_add_mod (value a / W) 256
      have ht := Nat.mod_le (value a / W % 256) (2 ^ (8 - p % 8))
      generalize value a / W % 256 % 2 ^ (8 - p % 8) = t at *
      generalize value a / W % 256 = s at *
      generalize value a / W / 256 = A at *
      generalize value a / W = N at *
      generalize value a % W = D at *
      obtain ⟨u, rfl⟩ := Nat.exists_eq_add_of_le ht
      subst hN
      rw [← hsplit, Nat.add_sub_cancel_left,
        show W * (256 * A + (t + u)) + D = (A * 256 + u) * W + (D + W * t) by ring, Nat.add_sub_cancel]
    · -- the top of the block: byte `i` with its host bits set, then all-ones bytes
      rw [value_fill_set a hidx, value_fill_set a hidx, value_replicate_zero, Nat.add_zero, hor,
        hand, hexp, ← hfill]
      have hq := Nat.two_pow_pos (8 - p % 8)
      generalize 2 ^ (8 - p % 8) = q at *
      obtain ⟨q, rfl⟩ : ∃ q', q = q' + 1 := ⟨q - 1, by omega⟩
      generalize value (List.replicate (a.length - 1 - i) 0xff) = R
      rw [Nat.add_sub_cancel, show (R + 1) * (q + 1) = (R + 1) * q + R + 1 by ring, Nat.add_sub_cancel]
      ring
  · -- a full-length prefix: the base alone
    rename_i hidx
    have hp' : p = 8 * a.length := by omega
    subst hp'
    refine ⟨_, rfl, rfl, rfl, rfl, ?_, ?_⟩ <;> simp [lo, hi, Nat.mod_one]

/-- `initializeFromCIDR` fails only on its two checks, with their messages. -/
theorem initializeFromCIDR_eq_error {a : List UInt8} {prefixLen : ℤ} {msg : String} :
    initializeFromCIDR a prefixLen = .error msg ↔
      (a.length ≠ 4 ∧ a.length ≠ 16) ∧ msg = "Invalid address" ∨
      ¬ (a.length ≠ 4 ∧ a.length ≠ 16) ∧ (prefixLen < 0 ∨ prefixLen > a.length * 8) ∧
        msg = "Invalid prefix" := by
  unfold initializeFromCIDR
  by_cases h1 : a.length ≠ 4 ∧ a.length ≠ 16
  · simp [h1, eq_comm]
  · by_cases h2 : prefixLen < 0 ∨ prefixLen > a.length * 8
    · simp [h1, h2, eq_comm]
    · -- both checks pass: the answer is a range, whichever branch builds it
      rw [if_neg h1, if_neg h2]
      simp only [h1, h2, false_and, and_false, or_self, iff_false]
      split <;> simp

/-- A range from a base of 4 or 16 bytes and a prefix within its length is well
formed, and the proper subnet of that prefix. -/
theorem initializeFromCIDR_wellFormed {a : List UInt8} {p : ℕ}
    (hlen : a.length = 4 ∨ a.length = 16) (hp : p ≤ 8 * a.length) :
    ∃ c, initializeFromCIDR a p = .ok c ∧ c.WellFormed ∧ c.family = a.length ∧ c.mPrefix = some p ∧
      c.lo = value a - value a % 2 ^ (8 * a.length - p) := by
  obtain ⟨c, hc, hpre, hfrom, hto, hlo, hhi⟩ := initializeFromCIDR_spec hlen hp
  have hfam : c.family = a.length := hfrom
  have hsub : c.IsSubnet p := by
    refine ⟨by rw [hto, hfrom], by rw [hfam]; exact hp, ?_, ?_⟩ <;> rw [hfam]
    · rw [hlo]
      exact Nat.sub_mod_eq_zero_of_mod_eq (Nat.mod_mod _ _).symm
    · exact hhi
  refine ⟨c, hc, ⟨hsub.valid, hfam ▸ hlen, fun p' hp' => ?_⟩, hfam, hpre, hlo⟩
  rw [hpre, Option.some.injEq] at hp'
  exact hp' ▸ hsub

/-! ## 5. `initializeFromRange` -/

/-- `initializeFromRange`, behind the constructors from two addresses: the two
addresses in order, whichever was given first, and the prefix by
`determinePrefix`. -/
def initializeFromRange (fa ta : List UInt8) : Except String IPRange :=
  if fa.length ≠ ta.length then .error "Invalid range"
  else if compareAddr fa ta = .lt then .ok (ofBytes fa ta)
  else .ok (ofBytes ta fa)

/-- Ordered bounds of 4 or 16 bytes make a well-formed range. -/
theorem ofBytes_wellFormed {a b : List UInt8} (hv : (ofBytes a b).Valid)
    (hlen : a.length = 4 ∨ a.length = 16) : (ofBytes a b).WellFormed :=
  ⟨hv, hlen, fun _ hp => determinePrefix_sound hv hp⟩

/-- A range from two addresses of 4 or 16 bytes is well formed and runs from the
smaller to the larger. -/
theorem initializeFromRange_wellFormed {fa ta : List UInt8} (hlen : fa.length = 4 ∨ fa.length = 16)
    (hta : ta.length = fa.length) :
    ∃ c, initializeFromRange fa ta = .ok c ∧ c.WellFormed ∧ c.family = fa.length ∧
      c.lo = min (value fa) (value ta) ∧ c.hi = max (value fa) (value ta) := by
  have hcmp : compareAddr fa ta = compare (value fa) (value ta) := compareAddr_of_length_eq hta.symm
  simp only [initializeFromRange, hta, ne_eq, not_true_eq_false, if_false, hcmp, compare_lt_iff_lt]
  split
  · rename_i hlt
    exact ⟨_, rfl, ofBytes_wellFormed ⟨hta, hlt.le⟩ hlen, rfl, (min_eq_left hlt.le).symm,
      (max_eq_right hlt.le).symm⟩
  · rename_i hge
    have hle : value ta ≤ value fa := Nat.le_of_not_lt hge
    exact ⟨_, rfl, ofBytes_wellFormed ⟨hta.symm, hle⟩ (hta ▸ hlen), hta, (min_eq_right hle).symm,
      (max_eq_left hle).symm⟩

theorem initializeFromRange_eq_error {fa ta : List UInt8} {msg : String} :
    initializeFromRange fa ta = .error msg ↔ fa.length ≠ ta.length ∧ msg = "Invalid range" := by
  unfold initializeFromRange
  split_ifs <;> simp_all [eq_comm]

/-- Whether a range is a subnet depends on its bounds only. -/
theorem IsSubnet.ofBytes {c : IPRange} {p : ℕ} (h : c.IsSubnet p) : (ofBytes c.mFrom c.mTo).IsSubnet p :=
  ⟨h.length_eq, h.prefix_le, h.aligned, h.hi_eq⟩

/-- The range `initializeFromCIDR` builds is the one `initializeFromRange` builds from
its bounds, prefix included. -/
theorem initializeFromRange_of_subnet {c : IPRange} {p : ℕ} (hsub : c.IsSubnet p) (hpre : c.mPrefix = some p) :
    initializeFromRange c.mFrom c.mTo = .ok c := by
  have hlen := hsub.length_eq
  have hle : value c.mFrom ≤ value c.mTo := hsub.valid.le
  have hcmp : compareAddr c.mFrom c.mTo = compare (value c.mFrom) (value c.mTo) :=
    compareAddr_of_length_eq hlen.symm
  have hof : ofBytes c.mFrom c.mTo = c := by
    rw [ofBytes, determinePrefix_complete hsub.ofBytes, ← hpre]
  simp only [initializeFromRange, hlen, ne_eq, not_true_eq_false, if_false, hcmp, compare_lt_iff_lt]
  split
  · rw [hof]
  · -- equal bounds: the swapped pair is the same pair
    have heq : c.mTo = c.mFrom := eq_of_value_eq hlen (by omega)
    rw [heq] at hof ⊢
    rw [hof]

/-- The two ways of building a subnet agree: `initializeFromCIDR` clears the host bits
of the base for `mFrom` and sets them for `mTo`, `determinePrefix` finds the prefix back
from those bounds, and `initializeFromRange` on them builds the same range. On any
ordered bounds of one length, `determinePrefix` answers `p` exactly for the aligned
block of prefix `p`. -/
theorem cidr_range_prefix_agree :
    (∀ (a : List UInt8) (p : ℕ), (a.length = 4 ∨ a.length = 16) → p ≤ 8 * a.length →
      ∃ c, initializeFromCIDR a p = .ok c ∧ c.mFrom.length = a.length ∧ c.mTo.length = a.length ∧
        value c.mFrom = value a - value a % 2 ^ (8 * a.length - p) ∧
        value c.mTo = value c.mFrom + (2 ^ (8 * a.length - p) - 1) ∧
        c.mPrefix = some p ∧ determinePrefix c.mFrom c.mTo = some p ∧
        initializeFromRange c.mFrom c.mTo = .ok c) ∧
    (∀ (a b : List UInt8), b.length = a.length → value a ≤ value b →
      ∀ p, determinePrefix a b = some p ↔ (ofBytes a b).IsSubnet p) := by
  refine ⟨fun a p hlen hp => ?_, fun a b hlen hle p => determinePrefix_eq_some_iff ⟨hlen, hle⟩ p⟩
  obtain ⟨c, hc, hpre, hfrom, hto, hlo, hhi⟩ := initializeFromCIDR_spec hlen hp
  have hsub : c.IsSubnet p := by
    obtain ⟨c', hc', hwf, -, hpre', -⟩ := initializeFromCIDR_wellFormed hlen hp
    rw [hc, Except.ok.injEq] at hc'
    subst hc'
    exact hwf.prefix_sound p hpre'
  exact ⟨c, hc, hfrom, hto, hlo, hhi, hpre, determinePrefix_complete hsub.ofBytes,
    initializeFromRange_of_subnet hsub hpre⟩

theorem cidr_range_prefix_agree_ipv4 :
    ∃ c, initializeFromCIDR [192, 168, 1, 77] 24 = .ok c ∧ c.mFrom.length = 4 ∧ c.mTo.length = 4 ∧
      value c.mFrom = value [192, 168, 1, 77] - value [192, 168, 1, 77] % 2 ^ (8 * 4 - 24) ∧
      value c.mTo = value c.mFrom + (2 ^ (8 * 4 - 24) - 1) ∧
      c.mPrefix = some 24 ∧ determinePrefix c.mFrom c.mTo = some 24 ∧
      initializeFromRange c.mFrom c.mTo = .ok c :=
  cidr_range_prefix_agree.1 [192, 168, 1, 77] 24 (.inl rfl) (by decide)

/-! ## 6. `merge` and `remove` keep ranges well formed -/

/-- What `merge` answers is one of the two ranges, or a range it built from bytes. -/
theorem merge_eq_some_cases {r s c : IPRange} (h : r.merge s = some c) :
    c = r ∨ c = s ∨ c = ofBytes c.mFrom c.mTo := by
  unfold merge at h
  split_ifs at h <;> cases h
  · exact Or.inl rfl
  · exact Or.inr (Or.inl rfl)
  all_goals exact Or.inr (Or.inr rfl)

/-- What `remove` answers is the range itself, or ranges it built from bytes. -/
theorem mem_remove_cases {r s c : IPRange} (h : c ∈ r.remove s) :
    c = r ∨ c = ofBytes c.mFrom c.mTo := by
  unfold remove at h
  split_ifs at h <;> simp only [List.mem_cons, List.not_mem_nil, or_false] at h
  · exact Or.inl h
  -- every other piece is built by `IPRange(byte[], byte[])`
  all_goals rcases h with rfl | rfl <;> exact Or.inr rfl

/-- A range built from bytes is well formed as soon as its bounds are ordered and of
one of the two lengths: its prefix is `determinePrefix`'s. -/
theorem wellFormed_of_eq_ofBytes {c : IPRange} (hc : c.Valid) (hfam : c.family = 4 ∨ c.family = 16)
    (hof : c = ofBytes c.mFrom c.mTo) : c.WellFormed := by
  rw [hof]
  exact ofBytes_wellFormed (by rwa [← hof]) hfam

theorem merge_wellFormed {r s c : IPRange} (hr : r.WellFormed) (hs : s.WellFormed)
    (h : r.merge s = some c) : c.WellFormed := by
  obtain ⟨hc, hpts⟩ := merge_eq_some hr.valid hs.valid h
  -- the merged range holds the first address of `r`, so it is of `r`'s family
  have hmem : (r.family, r.lo) ∈ c.points := hpts ▸ Or.inl ⟨rfl, le_rfl, hr.valid.le⟩
  rcases merge_eq_some_cases h with rfl | rfl | hof
  · exact hr
  · exact hs
  · exact wellFormed_of_eq_ofBytes hc (hmem.1 ▸ hr.family_eq) hof

theorem remove_wellFormed {r s c : IPRange} (hr : r.WellFormed) (hs : s.WellFormed)
    (h : c ∈ r.remove s) : c.WellFormed := by
  obtain ⟨hc, hpts⟩ := remove_valid hr.valid hs.valid c h
  -- a piece lies within `r`, so it is of `r`'s family
  have hfam : c.family = r.family :=
    (hpts (show (c.family, c.lo) ∈ c.points from ⟨rfl, le_rfl, hc.le⟩)).1
  rcases mem_remove_cases h with rfl | hof
  · exact hr
  · exact wellFormed_of_eq_ofBytes hc (hfam ▸ hr.family_eq) hof

end IPRange

end VpnClient.Android
