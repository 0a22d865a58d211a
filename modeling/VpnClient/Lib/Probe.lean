import Mathlib

/-!
# Quadratic probing in a table of `2 ^ k` buckets

Open addressing with the probe sequence `h`, `h + 1`, `h + 3`, `h + 6`, …: probe `p`
lands `1 + 2 + ⋯ + p = p (p + 1) / 2` buckets after the home bucket `h`, modulo the
size of the table. When that size is a power of two the first `2 ^ k` probes land in
distinct buckets (`probe_injOn`), so they visit every bucket (`probe_surjOn`), and a
search that stops at the first empty bucket stops within `2 ^ k` probes whenever the
table has one (`exists_first_probe`).

The first fact is a parity argument: the offsets of probes `i` and `j` differ by
`(i - j) (i + j + 1) / 2`, one of the two factors is odd, and the other one is below
`2 ^ (k + 1)`.
-/

namespace VpnClient.Lib.Probe

/-- How far probe `p` lands from the home bucket: `1 + 2 + ⋯ + p`. -/
def offset (p : ℕ) : ℕ := p * (p + 1) / 2

@[simp] theorem offset_zero : offset 0 = 0 := rfl

theorem offset_succ (p : ℕ) : offset (p + 1) = offset p + (p + 1) := by
  unfold offset
  have h : (p + 1) * (p + 1 + 1) = p * (p + 1) + (p + 1) * 2 := by ring
  rw [h, Nat.add_mul_div_right _ _ (by norm_num)]

theorem two_mul_offset (p : ℕ) : 2 * offset p = p * (p + 1) :=
  Nat.mul_div_cancel' (Nat.even_mul_succ_self p).two_dvd

theorem offset_mono {i j : ℕ} (h : j ≤ i) : offset j ≤ offset i :=
  Nat.div_le_div_right (Nat.mul_le_mul h (Nat.add_le_add_right h 1))

/-- The bucket of probe `p` from the home `h` in a table of `n` buckets. -/
def probe (n h p : ℕ) : ℕ := (h + offset p) % n

@[simp] theorem probe_zero (n h : ℕ) : probe n h 0 = h % n := rfl

theorem probe_succ (n h p : ℕ) : probe n h (p + 1) = (probe n h p + (p + 1)) % n := by
  rw [probe, probe, offset_succ, ← Nat.add_assoc, Nat.mod_add_mod]

theorem probe_lt {n : ℕ} (hn : 0 < n) (h p : ℕ) : probe n h p < n := Nat.mod_lt _ hn

/-- Two distinct probes below `2 ^ k` have offsets that differ modulo `2 ^ k`. -/
theorem offset_not_modEq {k i j : ℕ} (hi : i < 2 ^ k) (hji : j < i) :
    ¬ offset i ≡ offset j [MOD 2 ^ k] := by
  intro heq
  obtain ⟨d, rfl⟩ := Nat.exists_eq_add_of_le hji.le
  have hd : 0 < d := by omega
  -- twice the difference of the offsets factors as `d (2 j + d + 1)`
  have hdiff : 2 * (offset (j + d) - offset j) = d * (2 * j + d + 1) := by
    have h2 : 2 * offset (j + d) = 2 * offset j + d * (2 * j + d + 1) := by
      rw [two_mul_offset, two_mul_offset]
      ring
    omega
  have hdvd : 2 ^ (k + 1) ∣ d * (2 * j + d + 1) := by
    rw [← hdiff, pow_succ, Nat.mul_comm _ 2]
    exact Nat.mul_dvd_mul_left 2 ((Nat.modEq_iff_dvd' (offset_mono (by omega))).mp heq.symm)
  have hpow : 2 ^ (k + 1) = 2 * 2 ^ k := by rw [pow_succ]; ring
  -- one factor is odd, so the power of two divides the other, which is too small
  rcases Nat.even_or_odd d with heven | hodd
  · have hodd' : Odd (2 * j + d + 1) := ((even_two_mul j).add heven).add_one
    have hcop : Nat.Coprime (2 ^ (k + 1)) (2 * j + d + 1) :=
      Nat.Coprime.pow_left _ (Nat.coprime_two_left.mpr hodd')
    have := Nat.le_of_dvd hd (hcop.dvd_of_dvd_mul_right hdvd)
    omega
  · have hcop : Nat.Coprime (2 ^ (k + 1)) d := Nat.Coprime.pow_left _ (Nat.coprime_two_left.mpr hodd)
    have := Nat.le_of_dvd (by omega) (hcop.dvd_of_dvd_mul_left hdvd)
    omega

/-- **The first `2 ^ k` probes land in distinct buckets.** -/
theorem probe_injOn {k h i j : ℕ} (hi : i < 2 ^ k) (hj : j < 2 ^ k)
    (heq : probe (2 ^ k) h i = probe (2 ^ k) h j) : i = j := by
  have hmod : offset i ≡ offset j [MOD 2 ^ k] := Nat.ModEq.add_left_cancel' h heq
  rcases lt_trichotomy i j with hlt | rfl | hgt
  · exact absurd hmod.symm (offset_not_modEq hj hlt)
  · rfl
  · exact absurd hmod (offset_not_modEq hi hgt)

/-- **The first `2 ^ k` probes visit every bucket.** -/
theorem probe_surjOn {k r : ℕ} (h : ℕ) (hr : r < 2 ^ k) : ∃ p < 2 ^ k, probe (2 ^ k) h p = r := by
  have hsurj := Finset.surj_on_of_inj_on_of_card_le (s := Finset.range (2 ^ k))
    (t := Finset.range (2 ^ k)) (fun p _ => probe (2 ^ k) h p)
    (fun p _ => Finset.mem_range.mpr (probe_lt (Nat.two_pow_pos k) h p))
    (fun i j hi hj heq => probe_injOn (Finset.mem_range.mp hi) (Finset.mem_range.mp hj) heq)
    le_rfl r (Finset.mem_range.mpr hr)
  obtain ⟨p, hp, heq⟩ := hsurj
  exact ⟨p, Finset.mem_range.mp hp, heq.symm⟩

/-- **A search along the probes stops.** If some bucket is empty, the probes from any
home reach a first empty bucket within `2 ^ k` probes. -/
theorem exists_first_probe {k : ℕ} (h : ℕ) {empty : ℕ → Prop} [DecidablePred empty]
    (hex : ∃ r < 2 ^ k, empty r) :
    ∃ p < 2 ^ k, empty (probe (2 ^ k) h p) ∧ ∀ q < p, ¬ empty (probe (2 ^ k) h q) := by
  obtain ⟨r, hr, hempty⟩ := hex
  obtain ⟨p₀, hp₀, rfl⟩ := probe_surjOn h hr
  have hfind : ∃ p, empty (probe (2 ^ k) h p) := ⟨p₀, hempty⟩
  refine ⟨Nat.find hfind, ?_, Nat.find_spec hfind, fun q hq => Nat.find_min hfind hq⟩
  exact lt_of_le_of_lt (Nat.find_min' hfind hempty) hp₀

end VpnClient.Lib.Probe
