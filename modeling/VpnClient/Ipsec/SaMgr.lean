import VpnClient.Ipsec.Sa
import VpnClient.Lib.Run

/-!
# Allocating SPIs

`get_spi` and `allocate_spi` of `libipsec/ipsec_sa_mgr.c`. `get_spi` reads the range
`spi_min`..`spi_max` from the settings, puts the bounds in order and raises both to at
least `0x100`, below which SPIs are reserved. It then draws random words until one,
reduced into the range and put into network byte order, is neither allocated before nor
the SPI of an installed inbound SA, and allocates it.

The reduction `spi_min + spi_new % (spi_max - spi_min + 1)` is in 32-bit arithmetic; with
the lower bound raised to `0x100` the modulus is never zero and the sum never wraps, so
the SPI lies in the range (`getSpi_spec`). The loop retries exactly the draws whose SPI
is taken and allocates the first free one (`getSpiLoop_eq_success_iff`); where every SPI
of the range is taken it never returns, which the model shows as `running` once the
draws it was given run out. Over any run of calls no SPI is handed out twice, nor one
an inbound SA holds (`getSpi_run_unique`).
-/

namespace VpnClient.Ipsec

open VpnClient.Lib LinkedList

/-! ## Byte order -/

/-- `__bswap_32`, the four bytes of a 32-bit value in the other order. -/
def bswap32 (n : ℕ) : ℕ :=
  n % 0x100 * 0x1000000 + n / 0x100 % 0x100 * 0x10000 + n / 0x10000 % 0x100 * 0x100 + n / 0x1000000

/-- `htonl` on the little-endian hosts the client runs on. -/
def htonl (v : UInt32) : UInt32 := UInt32.ofNat (bswap32 v.toNat)

/-- `ntohl`, the same swap. -/
def ntohl (v : UInt32) : UInt32 := htonl v

theorem bswap32_bytes {b0 b1 b2 b3 : ℕ} (h0 : b0 < 0x100) (h1 : b1 < 0x100) (h2 : b2 < 0x100)
    (_h3 : b3 < 0x100) :
    bswap32 (b0 + b1 * 0x100 + b2 * 0x10000 + b3 * 0x1000000) =
      b3 + b2 * 0x100 + b1 * 0x10000 + b0 * 0x1000000 := by
  unfold bswap32
  omega

theorem bswap32_lt {n : ℕ} (h : n < 2 ^ 32) : bswap32 n < 2 ^ 32 := by
  unfold bswap32
  omega

theorem bswap32_bswap32 {n : ℕ} (h : n < 2 ^ 32) : bswap32 (bswap32 n) = n := by
  -- split `n` into its bytes, which the swap only reorders
  obtain ⟨b0, b1, b2, b3, h0, h1, h2, h3, rfl⟩ : ∃ b0 b1 b2 b3, b0 < 0x100 ∧ b1 < 0x100 ∧
      b2 < 0x100 ∧ b3 < 0x100 ∧ n = b0 + b1 * 0x100 + b2 * 0x10000 + b3 * 0x1000000 :=
    ⟨n % 0x100, n / 0x100 % 0x100, n / 0x10000 % 0x100, n / 0x1000000,
      by omega, by omega, by omega, by omega, by omega⟩
  rw [bswap32_bytes h0 h1 h2 h3, bswap32_bytes h3 h2 h1 h0]

@[simp] theorem toNat_htonl (v : UInt32) : (htonl v).toNat = bswap32 v.toNat := by
  rw [htonl, UInt32.toNat_ofNat', Nat.mod_eq_of_lt (bswap32_lt v.toNat_lt)]

/-- Swapping the bytes twice gives the word back. -/
@[simp] theorem ntohl_htonl (v : UInt32) : ntohl (htonl v) = v := by
  rw [← UInt32.toNat_inj, ntohl, toNat_htonl, toNat_htonl, bswap32_bswap32 v.toNat_lt]

/-! ## The manager -/

/-- The part of `private_ipsec_sa_mgr_t` that `get_spi` reads and writes: the installed
SAs, first to last, and the keys of `allocated_spis`. -/
structure SaMgr where
  sas : List IpsecSa
  allocatedSpis : List UInt32

/-- `match_entry_by_spi_inbound`. -/
def matchEntryBySpiInbound (spi : UInt32) (inbound : Bool) (sa : IpsecSa) : Bool :=
  sa.spi == spi && sa.inbound == inbound

/-- `allocate_spi`: `FALSE` (`none`) for an SPI already allocated or used by an
installed inbound SA; otherwise the SPI is put into `allocated_spis`. -/
def allocateSpi (mgr : SaMgr) (spi : UInt32) : Option SaMgr :=
  if spi ∈ mgr.allocatedSpis ∨ (findFirst (matchEntryBySpiInbound spi true) mgr.sas).isSome then none
  else some { mgr with allocatedSpis := spi :: mgr.allocatedSpis }

/-- The range `get_spi` draws from: the configured bounds in order, each then raised to
`0x100` by `max`, `_x > _y ? _x : _y`. -/
def spiRange (spiMin spiMax : UInt32) : UInt32 × UInt32 :=
  let bounds := if spiMin > spiMax then (spiMax, spiMin) else (spiMin, spiMax)
  (if bounds.1 > 0x100 then bounds.1 else 0x100, if bounds.2 > 0x100 then bounds.2 else 0x100)

/-- What `get_spi` comes to: `SUCCESS` with the SPI and the manager after it, `FAILED`,
or still drawing when the draws given run out. -/
inductive GetSpiResult
  | success (spi : UInt32) (mgr : SaMgr)
  | failed
  | running

/-- The SPI a draw gives: reduced into the range, in network byte order. -/
def spiOfDraw (spiMin spiMax r : UInt32) : UInt32 := htonl (spiMin + r % (spiMax - spiMin + 1))

/-- The retry loop of `get_spi`. A draw is the word `get_bytes` writes, or `none` where it
fails. -/
def getSpiLoop (spiMin spiMax : UInt32) (mgr : SaMgr) : List (Option UInt32) → GetSpiResult
  | [] => .running
  | none :: _ => .failed
  | some r :: draws =>
    match allocateSpi mgr (spiOfDraw spiMin spiMax r) with
    | some mgr' => .success (spiOfDraw spiMin spiMax r) mgr'
    | none => getSpiLoop spiMin spiMax mgr draws

/-- `get_spi` under the mutex, with the words of the RNG, or `none` where no RNG can be
created. -/
def getSpi (cfgMin cfgMax : UInt32) (rng : Option (List (Option UInt32))) (mgr : SaMgr) : GetSpiResult :=
  match rng with
  | none => .failed
  | some draws => getSpiLoop (spiRange cfgMin cfgMax).1 (spiRange cfgMin cfgMax).2 mgr draws

/-! ## The range -/

/-- The bounds in order and at least `0x100`: the smaller configured bound raised to `0x100`,
and the larger. -/
theorem spiRange_spec (cfgMin cfgMax : UInt32) :
    (spiRange cfgMin cfgMax).1.toNat = max (min cfgMin.toNat cfgMax.toNat) 0x100 ∧
      (spiRange cfgMin cfgMax).2.toNat = max (max cfgMin.toNat cfgMax.toNat) 0x100 := by
  -- `max(x, 0x100)` is the maximum of the values
  have hmax (x : UInt32) : (if x > 0x100 then x else 0x100).toNat = max x.toNat 0x100 := by
    split_ifs with h <;> simp only [gt_iff_lt, UInt32.lt_iff_toNat_lt, UInt32.reduceToNat] at h ⊢ <;> omega
  simp only [spiRange, hmax]
  split_ifs with h <;> dsimp only <;> simp only [gt_iff_lt, UInt32.lt_iff_toNat_lt] at h <;> omega

/-- **The reduction stays in the range**: the modulus is never zero, and the sum neither
wraps nor passes the upper bound. -/
theorem toNat_reduce {spiMin spiMax : UInt32} (hmin : 0x100 ≤ spiMin.toNat) (hle : spiMin.toNat ≤ spiMax.toNat)
    (r : UInt32) :
    spiMax - spiMin + 1 ≠ 0 ∧ spiMin.toNat ≤ (spiMin + r % (spiMax - spiMin + 1)).toNat ∧
      (spiMin + r % (spiMax - spiMin + 1)).toNat ≤ spiMax.toNat := by
  have hmax := spiMax.toNat_lt
  -- the modulus is the size of the range, which `spi_min ≥ 0x100` keeps below `2 ^ 32`
  have hmod : (spiMax - spiMin + 1).toNat = spiMax.toNat - spiMin.toNat + 1 := by
    rw [UInt32.toNat_add, UInt32.toNat_sub_of_le _ _ (UInt32.le_iff_toNat_le.mpr hle)]
    simp only [UInt32.reduceToNat]
    omega
  have hr : r.toNat % (spiMax - spiMin + 1).toNat ≤ spiMax.toNat - spiMin.toNat := by
    rw [hmod]
    exact Nat.le_of_lt_succ (Nat.mod_lt _ (Nat.succ_pos _))
  -- so the sum stays below `spi_max` and does not wrap
  have hsum : (spiMin + r % (spiMax - spiMin + 1)).toNat = spiMin.toNat + r.toNat % (spiMax - spiMin + 1).toNat := by
    rw [UInt32.toNat_add, UInt32.toNat_mod]
    exact Nat.mod_eq_of_lt (by omega)
  refine ⟨fun h => ?_, by omega, by omega⟩
  have h0 := congrArg UInt32.toNat h
  rw [hmod] at h0
  simp at h0

/-! ## `allocate_spi` and the loop -/

/-- An SPI is free when it is neither allocated nor the SPI of an installed inbound SA. -/
def SaMgr.Free (mgr : SaMgr) (spi : UInt32) : Prop :=
  spi ∉ mgr.allocatedSpis ∧ ∀ sa ∈ mgr.sas, ¬(sa.spi = spi ∧ sa.inbound = true)

theorem allocateSpi_eq_some_iff {mgr mgr' : SaMgr} {spi : UInt32} :
    allocateSpi mgr spi = some mgr' ↔
      mgr.Free spi ∧ mgr' = { mgr with allocatedSpis := spi :: mgr.allocatedSpis } := by
  unfold allocateSpi SaMgr.Free
  simp only [isSome_findFirst_iff, matchEntryBySpiInbound, Bool.and_eq_true, beq_iff_eq]
  by_cases h : spi ∈ mgr.allocatedSpis ∨ ∃ sa ∈ mgr.sas, sa.spi = spi ∧ sa.inbound = true
  · -- a taken SPI is refused
    simp only [if_pos h, reduceCtorEq, false_iff]
    rintro ⟨⟨hnot, hsas⟩, -⟩
    rcases h with h | ⟨sa, hsa, hp⟩
    exacts [hnot h, hsas sa hsa hp]
  · -- a free one is put into `allocated_spis`
    obtain ⟨hnot, hsas⟩ := not_or.mp h
    simp only [if_neg h, Option.some.injEq]
    constructor
    · rintro rfl
      exact ⟨⟨hnot, fun sa hsa hp => hsas ⟨sa, hsa, hp⟩⟩, rfl⟩
    · rintro ⟨-, rfl⟩
      rfl

/-- Draws that start with `some r`, split before a draw `r'`: `r` is that draw, or the
first of those before it. -/
theorem some_cons_eq_map_some_append {r r' : UInt32} {draws rest : List (Option UInt32)}
    {taken : List UInt32} :
    some r :: draws = taken.map some ++ some r' :: rest ↔
      taken = [] ∧ r = r' ∧ draws = rest ∨
        ∃ taken', taken = r :: taken' ∧ draws = taken'.map some ++ some r' :: rest := by
  cases taken with
  | nil => simp
  | cons r'' taken => simp [eq_comm]

/-- **The loop allocates the first free SPI among the draws**, after retrying those that are
taken, and returns it; no draw before it fails. -/
theorem getSpiLoop_eq_success_iff {spiMin spiMax : UInt32} {mgr mgr' : SaMgr} {spi : UInt32} :
    ∀ draws : List (Option UInt32), getSpiLoop spiMin spiMax mgr draws = .success spi mgr' ↔
      ∃ (taken : List UInt32) (r : UInt32) (rest : List (Option UInt32)), draws = taken.map some ++ some r :: rest ∧
        (∀ r' ∈ taken, ¬mgr.Free (spiOfDraw spiMin spiMax r')) ∧ mgr.Free (spiOfDraw spiMin spiMax r) ∧
        spi = spiOfDraw spiMin spiMax r ∧ mgr' = { mgr with allocatedSpis := spi :: mgr.allocatedSpis }
  | [] => by simp [getSpiLoop]
  | none :: draws => by
    -- a failed draw ends the loop
    simp only [getSpiLoop, reduceCtorEq, false_iff]
    rintro ⟨taken, r, rest, hdraws, -⟩
    cases taken <;> simp at hdraws
  | some r :: draws => by
    unfold getSpiLoop
    cases halloc : allocateSpi mgr (spiOfDraw spiMin spiMax r) with
    | some mgr'' =>
      -- the first draw is free: it is the one allocated
      obtain ⟨hfree, rfl⟩ := allocateSpi_eq_some_iff.mp halloc
      simp only [GetSpiResult.success.injEq]
      constructor
      · rintro ⟨rfl, rfl⟩
        exact ⟨[], r, draws, rfl, by simp, hfree, rfl, rfl⟩
      · rintro ⟨taken, r', rest, hdraws, htaken, -, rfl, rfl⟩
        rcases some_cons_eq_map_some_append.mp hdraws with ⟨-, rfl, -⟩ | ⟨taken', rfl, -⟩
        · exact ⟨rfl, rfl⟩
        · exact absurd hfree (htaken r List.mem_cons_self)
    | none =>
      -- the first draw is taken: the loop goes on with the others
      have htaken : ¬mgr.Free (spiOfDraw spiMin spiMax r) := fun hfree => by
        have h := allocateSpi_eq_some_iff.mpr ⟨hfree, rfl⟩
        rw [halloc] at h
        cases h
      rw [getSpiLoop_eq_success_iff draws]
      constructor
      · rintro ⟨taken, r', rest, rfl, htaken', hfree, hspi, hmgr⟩
        exact ⟨r :: taken, r', rest, rfl, by simpa [htaken] using htaken', hfree, hspi, hmgr⟩
      · rintro ⟨taken, r', rest, hdraws, htaken', hfree, hspi, hmgr⟩
        rcases some_cons_eq_map_some_append.mp hdraws with ⟨-, rfl, -⟩ | ⟨taken', rfl, hdraws'⟩
        · exact absurd hfree htaken
        · exact ⟨taken', r', rest, hdraws', fun r'' h => htaken' r'' (List.mem_cons_of_mem _ h), hfree, hspi,
            hmgr⟩

/-! ## `get_spi` -/

/-- The range holds no reserved SPI and its bounds are in order. -/
theorem spiRange_ordered (cfgMin cfgMax : UInt32) :
    0x100 ≤ (spiRange cfgMin cfgMax).1.toNat ∧
      (spiRange cfgMin cfgMax).1.toNat ≤ (spiRange cfgMin cfgMax).2.toNat := by
  obtain ⟨hlo, hhi⟩ := spiRange_spec cfgMin cfgMax
  omega

/-- The modulus `spi_max - spi_min + 1` of `get_spi` is never zero. -/
theorem spiRange_modulus_ne_zero (cfgMin cfgMax : UInt32) :
    (spiRange cfgMin cfgMax).2 - (spiRange cfgMin cfgMax).1 + 1 ≠ 0 :=
  let ⟨hmin, hle⟩ := spiRange_ordered cfgMin cfgMax
  (toNat_reduce hmin hle 0).1

/-- A successful `get_spi` allocates a free SPI of the range and changes nothing else. -/
theorem getSpi_eq_success {cfgMin cfgMax : UInt32} {rng : Option (List (Option UInt32))}
    {mgr mgr' : SaMgr} {s : UInt32} (h : getSpi cfgMin cfgMax rng mgr = .success s mgr') :
    max (min cfgMin.toNat cfgMax.toNat) 0x100 ≤ (ntohl s).toNat ∧
      (ntohl s).toNat ≤ max (max cfgMin.toNat cfgMax.toNat) 0x100 ∧
      mgr.Free s ∧ mgr' = { mgr with allocatedSpis := s :: mgr.allocatedSpis } := by
  cases rng with
  | none => cases h
  | some draws =>
    obtain ⟨-, r, -, -, -, hfree, rfl, rfl⟩ := (getSpiLoop_eq_success_iff draws).mp h
    obtain ⟨hlo, hhi⟩ := spiRange_spec cfgMin cfgMax
    obtain ⟨hmin, hle⟩ := spiRange_ordered cfgMin cfgMax
    obtain ⟨-, hge, hle'⟩ := toNat_reduce hmin hle r
    refine ⟨?_, ?_, hfree, rfl⟩ <;> rw [spiOfDraw, ntohl_htonl] <;> omega

theorem getSpi_spec (cfgMin cfgMax : UInt32) (rng : Option (List (Option UInt32))) (mgr mgr' : SaMgr)
    (s : UInt32) :
    (spiRange cfgMin cfgMax).2 - (spiRange cfgMin cfgMax).1 + 1 ≠ 0 ∧
      (getSpi cfgMin cfgMax rng mgr = .success s mgr' →
        max (min cfgMin.toNat cfgMax.toNat) 0x100 ≤ (ntohl s).toNat ∧
          (ntohl s).toNat ≤ max (max cfgMin.toNat cfgMax.toNat) 0x100 ∧
          s ∉ mgr.allocatedSpis ∧ (∀ sa ∈ mgr.sas, ¬(sa.spi = s ∧ sa.inbound = true)) ∧
          s ∈ mgr'.allocatedSpis ∧ mgr'.sas = mgr.sas) := by
  refine ⟨spiRange_modulus_ne_zero cfgMin cfgMax, fun h => ?_⟩
  obtain ⟨hlo, hhi, ⟨hnot, hsas⟩, rfl⟩ := getSpi_eq_success h
  exact ⟨hlo, hhi, hnot, hsas, List.mem_cons_self, rfl⟩

theorem getSpi_spec_default :
    getSpi 0x100 0xffffffff (some [some 5]) ⟨[], []⟩ = .success (htonl 0x105) ⟨[], [htonl 0x105]⟩ ∧
      0x100 ≤ (ntohl (htonl 0x105)).toNat := by
  have h : getSpi 0x100 0xffffffff (some [some 5]) ⟨[], []⟩ = .success (htonl 0x105) ⟨[], [htonl 0x105]⟩ := by
    rfl
  exact ⟨h, ((getSpi_spec 0x100 0xffffffff _ _ _ _).2 h).1⟩

/-- `allocated_spis` never holds an SPI twice. -/
theorem getSpi_nodup {cfgMin cfgMax : UInt32} {rng : Option (List (Option UInt32))}
    {mgr mgr' : SaMgr} {s : UInt32} (hnodup : mgr.allocatedSpis.Nodup)
    (h : getSpi cfgMin cfgMax rng mgr = .success s mgr') : mgr'.allocatedSpis.Nodup := by
  obtain ⟨-, -, ⟨hnot, -⟩, rfl⟩ := getSpi_eq_success h
  exact List.nodup_cons.mpr ⟨hnot, hnodup⟩

/-! ## Runs of `get_spi` -/

/-- A call of `get_spi`: the configured `spi_min` and `spi_max`, and the words of the RNG. -/
structure GetSpiCall where
  cfgMin : UInt32
  cfgMax : UInt32
  rng : Option (List (Option UInt32))

/-- One call on the manager and the SPIs returned so far, the latest first. A call that
fails, or that the draws given do not see to its end, returns no SPI and changes
nothing. -/
def spiStep (s : SaMgr × List UInt32) (c : GetSpiCall) : SaMgr × List UInt32 :=
  match getSpi c.cfgMin c.cfgMax c.rng s.1 with
  | .success spi mgr' => (mgr', spi :: s.2)
  | _ => s

section Run

variable (mgr : SaMgr)

/-- What a run of calls from `mgr` keeps: the SPIs returned are the ones allocated on top
of those of `mgr`, none twice, none the SPI of an inbound SA, and the SAs are untouched. -/
def SpiRunInv (s : SaMgr × List UInt32) : Prop :=
  s.1.allocatedSpis = s.2 ++ mgr.allocatedSpis ∧ s.1.sas = mgr.sas ∧ s.1.allocatedSpis.Nodup ∧
    ∀ spi ∈ s.2, ∀ sa ∈ mgr.sas, ¬(sa.spi = spi ∧ sa.inbound = true)

theorem SpiRunInv.step {s : SaMgr × List UInt32} (h : SpiRunInv mgr s) (c : GetSpiCall) :
    SpiRunInv mgr (spiStep s c) := by
  obtain ⟨halloc, hsas, hnodup, hin⟩ := h
  unfold spiStep
  split
  · -- the SPI allocated was free, and is put in front of the others
    rename_i spi mgr' hget
    have hnodup' := getSpi_nodup hnodup hget
    obtain ⟨-, -, ⟨-, hfree⟩, rfl⟩ := getSpi_eq_success hget
    refine ⟨by simp [halloc], hsas, hnodup', ?_⟩
    rintro spi' hspi' sa hsa
    rcases List.mem_cons.mp hspi' with rfl | hspi'
    · exact hfree sa (hsas ▸ hsa)
    · exact hin spi' hspi' sa hsa
  · exact ⟨halloc, hsas, hnodup, hin⟩

/-- **`get_spi` never hands out an SPI twice.** Over any run of `get_spi` calls, with any
settings and any words of the RNG, from a manager whose allocated SPIs are distinct, the
SPIs returned are distinct, none was allocated before and none is the SPI of an installed
inbound SA; the manager then holds them as allocated, on top of its earlier ones, and its
SAs as they were. -/
theorem getSpi_run_unique (hnodup : mgr.allocatedSpis.Nodup) (calls : List GetSpiCall) :
    let s := Run.run spiStep (mgr, []) calls
    s.2.Nodup ∧ (∀ spi ∈ s.2, spi ∉ mgr.allocatedSpis ∧ ∀ sa ∈ mgr.sas, ¬(sa.spi = spi ∧ sa.inbound = true)) ∧
      s.1.allocatedSpis = s.2 ++ mgr.allocatedSpis ∧ s.1.sas = mgr.sas := by
  intro s
  have hinv : SpiRunInv mgr s :=
    Run.run_preserves (fun s c h => h.step mgr c) calls ⟨rfl, rfl, hnodup, by simp⟩
  obtain ⟨halloc, hsas, hnodup', hin⟩ := hinv
  rw [halloc, List.nodup_append] at hnodup'
  exact ⟨hnodup'.1, fun spi hspi => ⟨fun hmem => hnodup'.2.2 spi hspi spi hmem rfl, hin spi hspi⟩, halloc, hsas⟩

end Run

/-- Two calls on a new manager whose RNG gives `5` and then `6`: the second call draws
`5` again, finds it taken, and allocates `6`. -/
theorem getSpi_run_unique_two :
    (Run.run spiStep (⟨[], []⟩, []) [⟨0x100, 0xffffffff, some [some 5]⟩,
      ⟨0x100, 0xffffffff, some [some 5, some 6]⟩]).2 = [htonl 0x106, htonl 0x105] ∧
    (Run.run spiStep (⟨[], []⟩, []) [⟨0x100, 0xffffffff, some [some 5]⟩,
      ⟨0x100, 0xffffffff, some [some 5, some 6]⟩]).2.Nodup :=
  ⟨rfl, (getSpi_run_unique ⟨[], []⟩ List.nodup_nil _).1⟩

end VpnClient.Ipsec
