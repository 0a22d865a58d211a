import VpnClient.Lib.ReplayWindow
import VpnClient.Lib.Bytes

/-!
# ESP contexts and the anti-replay window

`esp_context_t` (`libipsec/esp_context.c`) is what one IPsec SA encrypts or
decrypts with: the AEAD, the sequence number counter, and, for an inbound SA, the
anti-replay window. The window is `ESP_DEFAULT_WINDOW_SIZE = 128` bits in a byte
array used as a ring: `seqno_index` is the bit of the highest authenticated number
`last_seqno`, and the bit of `last_seqno - j` lies `j` places behind it.

The functions are translated on the bytes and on `uint32_t`/`u_int` values:
`set_window_bit`, `get_window_bit`, `check_window`, `verify_seqno`,
`set_authenticated_seqno` with its shifting loop, and `next_seqno`. `decrypt`
calls `verify_seqno` on every received number and `set_authenticated_seqno` once
its ICV verified (`receive`).

The ring is proved to implement the receiver of `Lib/ReplayWindow` through
`WindowInv`: after any sequence of received numbers, `verify_seqno` answers
exactly whether the number is fresh for the numbers authenticated so far
(`verifySeqno_iff_fresh`). The wrapping `u_int` arithmetic of the ring positions
is harmless because `128` divides `2 ^ 32` (`toNat_window_pos`).
-/

namespace VpnClient.Ipsec

open VpnClient.Lib ReplayWindow

/-! ## 1. The code -/

/-- `aead_t`: the algorithm an ESP context protects packets with. Its sizes, the
two directions and the IV generator are what `esp_packet.c` uses; the algorithms
themselves belong to the crypto plugins and are arbitrary here. -/
structure Aead where
  ivSize : ℕ
  icvSize : ℕ
  blockSize : ℕ
  /-- `encrypt(plain, assoc, iv)`: the ciphertext, followed by the ICV. -/
  encrypt : List UInt8 → List UInt8 → List UInt8 → Option (List UInt8)
  /-- `decrypt(encrypted, assoc, iv)`: the plaintext, when the ICV verifies. -/
  decrypt : List UInt8 → List UInt8 → List UInt8 → Option (List UInt8)
  /-- `get_iv_gen()`, and its `get_iv(seq, size)`. -/
  ivGen : Option (UInt32 → ℕ → Option (List UInt8))

/-- `private_esp_context_t`. -/
structure EspContext where
  aead : Aead
  lastSeqno : UInt32
  seqnoIndex : UInt32
  windowSize : UInt32
  window : List UInt8
  inbound : Bool

/-- `ESP_DEFAULT_WINDOW_SIZE`. -/
def espDefaultWindowSize : UInt32 := 128

/-- `UINT32_MAX`. -/
def uint32Max : UInt32 := 0xffffffff

/-- `set_window_bit`: set or clear bit `index` of the window, bit `index % 8` of
byte `index / 8`. -/
def setWindowBit (window : List UInt8) (index : UInt32) (set : Bool) : List UInt8 :=
  let i := (index / 8).toNat
  let mask : UInt8 := UInt8.ofNat (1 <<< (index % 8).toNat)
  if set then window.set i (window.getD i 0 ||| mask)
  else window.set i (window.getD i 0 &&& ~~~mask)

/-- `get_window_bit`. -/
def getWindowBit (window : List UInt8) (index : UInt32) : Bool :=
  let i := (index / 8).toNat
  window.getD i 0 &&& UInt8.ofNat (1 <<< (index % 8).toNat) ≠ 0

namespace EspContext

/-- `check_window`: whether the bit of `seqno` is clear. -/
def checkWindow (c : EspContext) (seqno : UInt32) : Bool :=
  let offset := c.lastSeqno - seqno
  let offset := (c.seqnoIndex - offset) % c.windowSize
  !getWindowBit c.window offset

/-- `verify_seqno`. -/
def verifySeqno (c : EspContext) (seqno : UInt32) : Bool :=
  if !c.inbound then false
  else if seqno > c.lastSeqno then true
  else if seqno > 0 ∧ c.windowSize > c.lastSeqno - seqno then checkWindow c seqno
  else false

/-- One pass of the shifting loop of `set_authenticated_seqno`: the head moves one
bit on and clears it. -/
def shiftStep (windowSize : UInt32) (s : List UInt8 × UInt32) : List UInt8 × UInt32 :=
  let index := (s.2 + 1) % windowSize
  (setWindowBit s.1 index false, index)

/-- `set_authenticated_seqno`: above `last_seqno` the window shifts up to the new
number, at most its whole size; inside it, the number's bit is set. -/
def setAuthenticatedSeqno (c : EspContext) (seqno : UInt32) : EspContext :=
  if !c.inbound then c
  else if seqno > c.lastSeqno then
    let shift := seqno - c.lastSeqno
    let shift := if shift < c.windowSize then shift else c.windowSize
    let s := (List.range shift.toNat).foldl (fun s _ => shiftStep c.windowSize s)
      (c.window, c.seqnoIndex)
    { c with window := setWindowBit s.1 s.2 true, seqnoIndex := s.2, lastSeqno := seqno }
  else
    let i := c.lastSeqno - seqno
    { c with window := setWindowBit c.window ((c.seqnoIndex - i) % c.windowSize) true }

/-- `next_seqno`: the next outbound number, refused inbound and before the counter
would cycle. -/
def nextSeqno (c : EspContext) : Option (UInt32 × EspContext) :=
  if c.inbound ∨ c.lastSeqno = uint32Max then none
  else some (c.lastSeqno + 1, { c with lastSeqno := c.lastSeqno + 1 })

end EspContext

/-- `esp_context_create`, given the AEAD it built from the algorithms and keys: an
inbound context gets a cleared window of `128 / 8 + 1` bytes. -/
def espContextCreate (aead : Aead) (inbound : Bool) : EspContext where
  aead := aead
  lastSeqno := 0
  seqnoIndex := 0
  windowSize := espDefaultWindowSize
  window := if inbound then List.replicate (espDefaultWindowSize / 8 + 1).toNat 0 else []
  inbound := inbound

namespace EspContext

/-- What `decrypt` does with the number of a received packet: `verify_seqno`, and
`set_authenticated_seqno` once the ICV verified (`authentic`). The flag says
whether the number was authenticated. -/
def receive (c : EspContext) (seqno : UInt32) (authentic : Bool) : EspContext × Bool :=
  if c.verifySeqno seqno && authentic then (c.setAuthenticatedSeqno seqno, true) else (c, false)

@[simp] theorem receive_snd (c : EspContext) (seqno : UInt32) (authentic : Bool) :
    (c.receive seqno authentic).2 = (c.verifySeqno seqno && authentic) := by
  unfold receive
  split <;> simp_all

/-- A sequence of received numbers, with the numbers authenticated, in order. -/
def receiveAll (c : EspContext) : List (UInt32 × Bool) → EspContext × List UInt32
  | [] => (c, [])
  | (s, authentic) :: rest =>
    let r := receive c s authentic
    let t := receiveAll r.1 rest
    (t.1, if r.2 then s :: t.2 else t.2)

end EspContext

/-! ## 2. The window as a ring of flags -/

/-- The flag at position `p` of the window. -/
def flag (window : List UInt8) (p : ℕ) : Bool := getWindowBit window (UInt32.ofNat p)

theorem getWindowBit_eq (window : List UInt8) (index : UInt32) :
    getWindowBit window index = (window.getD (index.toNat / 8) 0).toNat.testBit (index.toNat % 8) := by
  have h8 : index.toNat % 8 < 8 := Nat.mod_lt _ (by omega)
  have hbit := Bits.and_two_pow_ne_zero_iff (window.getD (index.toNat / 8) 0) h8
  simp only [getWindowBit, UInt32.toNat_div, UInt32.toNat_mod, Nat.one_shiftLeft]
  rw [show (UInt32.toNat 8) = 8 from rfl, Bool.eq_iff_iff, decide_eq_true_iff]
  exact hbit

theorem getWindowBit_eq_flag (window : List UInt8) (index : UInt32) :
    getWindowBit window index = flag window index.toNat := by
  rw [flag, UInt32.ofNat_toNat]

theorem flag_eq (window : List UInt8) {p : ℕ} (hp : p < 2 ^ 32) :
    flag window p = (window.getD (p / 8) 0).toNat.testBit (p % 8) := by
  rw [flag, getWindowBit_eq, UInt32.toNat_ofNat_of_lt' hp]

@[simp] theorem length_setWindowBit (window : List UInt8) (index : UInt32) (set : Bool) :
    (setWindowBit window index set).length = window.length := by
  unfold setWindowBit; split <;> simp

/-- **`set_window_bit` changes one flag.** -/
theorem flag_setWindowBit (window : List UInt8) (index : UInt32) (set : Bool) {p : ℕ}
    (hi : index.toNat < 8 * window.length) (hp32 : p < 2 ^ 32) :
    flag (setWindowBit window index set) p = if index.toNat = p then set else flag window p := by
  have h8 : index.toNat % 8 < 8 := Nat.mod_lt _ (by omega)
  have hp8 : p % 8 < 8 := Nat.mod_lt _ (by omega)
  have hbyte : index.toNat / 8 < window.length := by omega
  have hset : setWindowBit window index set = window.set (index.toNat / 8)
      (if set then window.getD (index.toNat / 8) 0 ||| UInt8.ofNat (2 ^ (index.toNat % 8))
       else window.getD (index.toNat / 8) 0 &&& ~~~UInt8.ofNat (2 ^ (index.toNat % 8))) := by
    simp only [setWindowBit, UInt32.toNat_div, UInt32.toNat_mod, Nat.one_shiftLeft]
    rw [show UInt32.toNat 8 = 8 from rfl]
    cases set <;> rfl
  rw [flag_eq _ hp32, flag_eq _ hp32, hset, Bytes.getD_set _ hbyte]
  by_cases hsame : index.toNat / 8 = p / 8
  · -- the same byte: only bit `index % 8` of it changes
    have hbit : index.toNat = p ↔ index.toNat % 8 = p % 8 := by omega
    rw [if_pos hsame, ← hsame]
    cases set
    · rw [if_neg Bool.false_ne_true, Bits.testBit_and_not_two_pow _ h8]
      by_cases hip : index.toNat = p
      · rw [if_pos hip, decide_eq_false (not_not.mpr (hbit.mp hip)), Bool.false_and]
      · have hne : index.toNat % 8 ≠ p % 8 := fun h => hip (hbit.mpr h)
        rw [if_neg hip, decide_eq_true hne, Bool.true_and]
    · rw [if_pos rfl, Bits.testBit_or_two_pow _ h8]
      by_cases hip : index.toNat = p
      · rw [if_pos hip, decide_eq_true (hbit.mp hip), Bool.true_or]
      · rw [if_neg hip, decide_eq_false fun h => hip (hbit.mpr h), Bool.false_or]
  · have hip : index.toNat ≠ p := fun h => hsame (by rw [h])
    rw [if_neg hsame, if_neg hip]

@[simp] theorem flag_replicate_zero (n p : ℕ) : flag (List.replicate n 0) p = false := by
  rw [flag, getWindowBit_eq, List.getD_eq_getElem?_getD, List.getElem?_replicate]
  split <;> simp

/-! ## 3. Ring positions in `u_int` arithmetic -/

/-- The position `check_window` and `set_authenticated_seqno` compute for a number
`j` below `last_seqno`: `j` places behind the head, even when the `u_int`
subtraction wraps, since `128` divides `2 ^ 32`. -/
theorem toNat_window_pos {index j : UInt32} (hi : index.toNat < 128) (hj : j.toNat < 128) :
    ((index - j) % 128).toNat = back 128 index.toNat j.toNat := by
  rw [UInt32.toNat_mod, UInt32.toNat_sub, back]
  show (2 ^ 32 - j.toNat + index.toNat) % 2 ^ 32 % 128 = (index.toNat + 128 - j.toNat) % 128
  omega

/-- The head's next position, `(seqno_index + 1) % window_size`. -/
theorem toNat_next_index (index : UInt32) :
    ((index + 1) % 128).toNat = ahead 128 index.toNat 1 := by
  rw [UInt32.toNat_mod, UInt32.toNat_add, ahead]
  show (index.toNat + 1) % 2 ^ 32 % 128 = (index.toNat + 1) % 128
  omega

/-! ## 4. The window represents the authenticated numbers -/

/-- The abstraction: an inbound context of the default size whose ring holds the
receiver that authenticated `A`. -/
structure WindowInv (c : EspContext) (A : Finset ℕ) : Prop where
  inbound : c.inbound = true
  windowSize_eq : c.windowSize = 128
  length_eq : c.window.length = 17
  represents : Represents 128 (flag c.window) c.seqnoIndex.toNat c.lastSeqno.toNat A

/-- A new inbound context has authenticated nothing. -/
theorem WindowInv.create (aead : Aead) : WindowInv (espContextCreate aead true) ∅ :=
  ⟨rfl, rfl, rfl, Represents.init (by omega) fun p _ => flag_replicate_zero _ p⟩

section Window

variable {c : EspContext} {A : Finset ℕ}

/-- **`verify_seqno` is the receiver's check.** -/
theorem WindowInv.verifySeqno_eq (h : WindowInv c A) (s : UInt32) :
    c.verifySeqno s = decide (Fresh 128 A s.toNat) := by
  have hrep := h.represents
  have hlast := c.lastSeqno.toNat_lt
  rw [Bool.eq_iff_iff, decide_eq_true_iff, hrep.fresh_iff]
  unfold EspContext.verifySeqno EspContext.checkWindow
  rw [h.inbound, h.windowSize_eq]
  simp only [Bool.not_true, Bool.false_eq_true, if_false, UInt32.lt_iff_toNat_lt]
  by_cases hgt : c.lastSeqno.toNat < s.toNat
  · simp [hgt]
  · have hle : s ≤ c.lastSeqno := UInt32.le_iff_toNat_le.mpr (by omega)
    have hsub := UInt32.toNat_sub_of_le _ _ hle
    rw [if_neg hgt, hsub, show (UInt32.toNat 0) = 0 from rfl, show (UInt32.toNat 128) = 128 from rfl]
    simp only [hgt, false_or]
    by_cases hwin : 0 < s.toNat ∧ c.lastSeqno.toNat - s.toNat < 128
    · -- inside the window: the flag `last_seqno - s` places behind the head decides
      have hpos : ((c.seqnoIndex - (c.lastSeqno - s)) % 128).toNat =
          back 128 c.seqnoIndex.toNat (c.lastSeqno.toNat - s.toNat) := by
        rw [toNat_window_pos hrep.index_lt (by omega), hsub]
      rw [if_pos hwin, getWindowBit_eq_flag, hpos]
      simp [hwin]
    · rw [if_neg hwin]
      simp only [Bool.false_eq_true, false_iff]
      exact fun ⟨h1, h2, _⟩ => hwin ⟨h1, h2⟩

/-- The shifting loop of `set_authenticated_seqno`, `n` passes: the ring rotated by
`n`. -/
theorem shift_rotated {w : List UInt8} {index : UInt32} (hlen : w.length = 17)
    (hi : index.toNat < 128) :
    ∀ n ≤ 128, let r := (List.range n).foldl (fun s _ => EspContext.shiftStep 128 s) (w, index)
      r.1.length = 17 ∧ r.2.toNat < 128 ∧
        RotatedBy 128 (flag w) index.toNat n (flag r.1) r.2.toNat := by
  intro n
  induction n with
  | zero => intro _; exact ⟨hlen, hi, RotatedBy.zero hi⟩
  | succ n ih =>
    intro hn
    obtain ⟨hlen', hi', hrot⟩ := ih (by omega)
    rw [List.range_succ, List.foldl_append, List.foldl_cons, List.foldl_nil]
    -- one more pass: the head moves on and its new bit is cleared
    generalize (List.range n).foldl (fun s _ => EspContext.shiftStep 128 s) (w, index) = r at *
    have hnext := toNat_next_index r.2
    have hnlt : ((r.2 + 1) % 128).toNat < 128 := hnext ▸ ahead_lt hi' (by omega)
    refine ⟨by simp [EspContext.shiftStep, hlen'], hnlt, ?_⟩
    simp only [EspContext.shiftStep]
    rw [hnext]
    refine hrot.step hi (by omega) ?_ fun p hp hne => ?_
    · rw [flag_setWindowBit _ _ _ (by omega) (by omega), if_pos hnext]
    · rw [flag_setWindowBit _ _ _ (by omega) (by omega), if_neg (by rw [hnext]; exact Ne.symm hne)]

/-- **`set_authenticated_seqno` records a fresh number.** -/
theorem WindowInv.setAuthenticatedSeqno (h : WindowInv c A) {s : UInt32}
    (hs : Fresh 128 A s.toNat) : WindowInv (c.setAuthenticatedSeqno s) (insert s.toNat A) := by
  have hrep := h.represents
  have hlen := h.length_eq
  unfold EspContext.setAuthenticatedSeqno
  rw [h.inbound, h.windowSize_eq]
  simp only [Bool.not_true, Bool.false_eq_true, if_false]
  by_cases hgt' : s > c.lastSeqno
  · -- above the window: rotate by `min (s - last_seqno) 128`, then set the new head
    rw [if_pos hgt']
    have hgt : c.lastSeqno.toNat < s.toNat := UInt32.lt_iff_toNat_lt.mp hgt'
    have hsub := UInt32.toNat_sub_of_le _ _ (UInt32.le_of_lt hgt')
    obtain ⟨k, hk⟩ : ∃ k, (if s - c.lastSeqno < 128 then s - c.lastSeqno else 128).toNat = k :=
      ⟨_, rfl⟩
    have hkmin : k = min (s.toNat - c.lastSeqno.toNat) 128 := by
      rw [← hk, ← hsub]
      split_ifs with hlt
      · rw [UInt32.lt_iff_toNat_lt] at hlt; exact (min_eq_left (by exact hlt.le)).symm
      · rw [UInt32.lt_iff_toNat_lt] at hlt; exact (min_eq_right (by simpa using hlt)).symm
    rw [hk]
    obtain ⟨hlen', hi', hrot⟩ := shift_rotated hlen hrep.index_lt k (by omega)
    generalize (List.range k).foldl (fun s _ => EspContext.shiftStep 128 s)
      (c.window, c.seqnoIndex) = r at *
    refine ⟨rfl, rfl, by simp [hlen'], ?_⟩
    dsimp only
    refine hrep.advance hgt hkmin hrot ?_ fun p hp hne => ?_
    · rw [flag_setWindowBit _ _ _ (by omega) (by omega), if_pos rfl]
    · rw [flag_setWindowBit _ _ _ (by omega) (by omega), if_neg (Ne.symm hne)]
  · -- inside the window: set the number's bit
    rw [if_neg hgt']
    have hgt : ¬ c.lastSeqno.toNat < s.toNat := fun h' => hgt' (UInt32.lt_iff_toNat_lt.mpr h')
    have hle : s ≤ c.lastSeqno := UInt32.le_iff_toNat_le.mpr (by omega)
    have hsub := UInt32.toNat_sub_of_le _ _ hle
    obtain ⟨hs0, -, hwin⟩ := hs
    rw [hrep.high_eq] at hwin
    have hw : c.lastSeqno.toNat - s.toNat < 128 := by omega
    have hpos : ((c.seqnoIndex - (c.lastSeqno - s)) % 128).toNat =
        back 128 c.seqnoIndex.toNat (c.lastSeqno.toNat - s.toNat) := by
      rw [toNat_window_pos hrep.index_lt (by omega), hsub]
    have hplt := back_lt hrep.index_lt hw
    refine ⟨rfl, rfl, by simp [hlen], ?_⟩
    dsimp only
    refine hrep.mark (by omega) hw ?_ fun p hp hne => ?_
    · rw [flag_setWindowBit _ _ _ (by omega) (by omega), if_pos hpos]
    · rw [flag_setWindowBit _ _ _ (by omega) (by omega), if_neg (by rw [hpos]; exact Ne.symm hne)]

end Window

/-! ## 5. Runs -/

section Runs

variable {c : EspContext} {A : Finset ℕ}

/-- **The step lemma**: a received number is authenticated only when fresh, and the
window then records it. -/
theorem WindowInv.receive (h : WindowInv c A) (s : UInt32) (authentic : Bool) :
    ((c.receive s authentic).2 = true → Fresh 128 A s.toNat) ∧
      WindowInv (c.receive s authentic).1
        (if (c.receive s authentic).2 then insert s.toNat A else A) := by
  unfold EspContext.receive
  rw [h.verifySeqno_eq]
  by_cases hok : decide (Fresh 128 A s.toNat) && authentic
  · rw [if_pos hok]
    exact ⟨fun _ => of_decide_eq_true (Bool.and_eq_true_iff.mp hok).1,
      h.setAuthenticatedSeqno (of_decide_eq_true (Bool.and_eq_true_iff.mp hok).1)⟩
  · rw [if_neg hok]
    exact ⟨fun h' => absurd h' Bool.false_ne_true, h⟩

/-- **The run lemma**: along any sequence of received numbers the window represents
the numbers authenticated, each of them authenticated once. -/
theorem WindowInv.receiveAll : ∀ (evs : List (UInt32 × Bool)) {c : EspContext} {A : Finset ℕ},
    WindowInv c A →
      WindowInv (c.receiveAll evs).1 (A ∪ ((c.receiveAll evs).2.map UInt32.toNat).toFinset) ∧
        ((c.receiveAll evs).2.map UInt32.toNat).Nodup ∧
        ∀ s ∈ (c.receiveAll evs).2, s.toNat ∉ A
  | [], _, _, h => by simpa [EspContext.receiveAll] using h
  | (s, authentic) :: rest, c, A, h => by
    obtain ⟨hfresh, hstep⟩ := h.receive s authentic
    simp only [EspContext.receiveAll]
    generalize c.receive s authentic = r at hfresh hstep
    obtain ⟨c', accepted⟩ := r
    cases accepted with
    | false =>
      -- not authenticated: the window is as it was
      exact WindowInv.receiveAll rest hstep
    | true =>
      -- authenticated: fresh, so not among the numbers before or after it
      have hs := (hfresh rfl).not_mem
      dsimp only at hstep ⊢
      rw [if_pos rfl] at hstep ⊢
      obtain ⟨hinv, hnodup, hnew⟩ := WindowInv.receiveAll rest hstep
      refine ⟨?_, ?_, ?_⟩
      · convert hinv using 1
        ext x
        simp only [Finset.mem_union, Finset.mem_insert, List.map_cons, List.toFinset_cons]
        tauto
      · refine List.nodup_cons.mpr ⟨fun hmem => ?_, hnodup⟩
        obtain ⟨t, ht, hts⟩ := List.mem_map.mp hmem
        exact hnew t ht (hts ▸ Finset.mem_insert_self _ _)
      · intro t ht
        rcases List.mem_cons.mp ht with rfl | ht
        · exact hs
        · exact fun htA => hnew t ht (Finset.mem_insert_of_mem htA)

/-- **The anti-replay window of an inbound ESP context is exact.** However the
received numbers arrive, with their ICVs verifying or not, `verify_seqno` accepts
a number exactly when it is not `0`, was not authenticated before, and is above the
highest authenticated number `H` or less than `128` below it; and no number is ever
authenticated twice. -/
theorem verifySeqno_iff_fresh (aead : Aead) (evs : List (UInt32 × Bool)) (s : UInt32) :
    let r := (espContextCreate aead true).receiveAll evs
    let A := (r.2.map UInt32.toNat).toFinset
    (r.1.verifySeqno s = true ↔ s ≠ 0 ∧ s.toNat ∉ A ∧ (high A < s.toNat ∨ high A - s.toNat < 128)) ∧
      r.2.Nodup := by
  intro r A
  obtain ⟨hinv, hnodup, -⟩ := WindowInv.receiveAll evs (WindowInv.create aead)
  rw [Finset.empty_union] at hinv
  refine ⟨?_, List.Nodup.of_map _ hnodup⟩
  rw [hinv.verifySeqno_eq, decide_eq_true_iff, Fresh, Ne, Ne, ← UInt32.toNat_inj]
  rfl

end Runs

end VpnClient.Ipsec
