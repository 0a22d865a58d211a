import Mathlib

/-!
# Memory blocks as lists of slots

An allocated block is the list of its slots, of any type `β` (bytes, or `Option α` for
slots that may hold no value yet). `memmove` and `memcpy` are stated as the C library
specifies them: `memmove` copies as through a temporary buffer, so that source and
destination may overlap. `realloc` keeps the slots the new size still covers and adds
slots of unspecified content, given here as `junk`.

The lemmas read single slots back (`getElem?_memmove`, `getElem?_memcpy`,
`getElem?_realloc_of_lt`), which is what a proof about a layout inside a block needs:
every slot index is then plain arithmetic.
-/

namespace VpnClient.Lib.Memory

variable {β : Type*}

/-- `memmove(buf + dst, buf + src, n)`. -/
def memmove (buf : List β) (dst src n : ℕ) : List β :=
  buf.take dst ++ (buf.drop src).take n ++ buf.drop (dst + n)

/-- `memcpy(buf + dst, src, len(src))` from a block of its own. -/
def memcpy (buf : List β) (dst : ℕ) (src : List β) : List β :=
  buf.take dst ++ src ++ buf.drop (dst + src.length)

/-- `realloc(buf, n)`. -/
def realloc (buf : List β) (n : ℕ) (junk : β) : List β :=
  buf.take n ++ List.replicate (n - buf.length) junk

variable {buf : List β} {dst src n k : ℕ}

theorem length_memmove (hd : dst + n ≤ buf.length) (hs : src + n ≤ buf.length) :
    (memmove buf dst src n).length = buf.length := by
  simp only [memmove, List.length_append, List.length_take, List.length_drop]
  omega

theorem getElem?_memmove (hd : dst + n ≤ buf.length) (hs : src + n ≤ buf.length) (k : ℕ) :
    (memmove buf dst src n)[k]? = if dst ≤ k ∧ k < dst + n then buf[src + (k - dst)]? else buf[k]? := by
  have htake : (buf.take dst).length = dst := by simp only [List.length_take]; omega
  have hmid : ((buf.drop src).take n).length = n := by simp only [List.length_take, List.length_drop]; omega
  simp only [memmove, List.getElem?_append, List.length_append, htake, hmid, List.getElem?_take,
    List.getElem?_drop]
  split_ifs <;> first | omega | rfl | (congr 1; omega)

theorem getElem?_memcpy {l : List β} (h : dst + l.length ≤ buf.length) (k : ℕ) :
    (memcpy buf dst l)[k]? = if dst ≤ k ∧ k < dst + l.length then l[k - dst]? else buf[k]? := by
  have htake : (buf.take dst).length = dst := by simp only [List.length_take]; omega
  simp only [memcpy, List.getElem?_append, List.length_append, htake, List.getElem?_take,
    List.getElem?_drop]
  split_ifs <;> first | omega | rfl | (congr 1; omega)

@[simp] theorem length_realloc (buf : List β) (n : ℕ) (junk : β) : (realloc buf n junk).length = n := by
  simp only [realloc, List.length_append, List.length_take, List.length_replicate]
  omega

/-- `realloc` keeps every slot both sizes cover. -/
theorem getElem?_realloc_of_lt (junk : β) (hn : k < n) (hk : k < buf.length) :
    (realloc buf n junk)[k]? = buf[k]? := by
  rw [realloc, List.getElem?_append_left (by simp only [List.length_take]; omega), List.getElem?_take_of_lt hn]

/-! ## Blocks stored in a buffer -/

/-- The slots of `buf` from `h` on hold `B`. -/
def Stored (buf : List β) (h : ℕ) (B : List β) : Prop :=
  ∀ k < B.length, buf[h + k]? = B[k]?

variable {h : ℕ} {A B : List β}

/-- Every slot of a stored block is inside the buffer. -/
theorem Stored.lt_length (hs : Stored buf h B) {k : ℕ} (hk : k < B.length) : h + k < buf.length := by
  have hk' := hs k hk
  rw [List.getElem?_eq_getElem hk] at hk'
  exact (List.getElem?_eq_some_iff.mp hk').1

theorem Stored.getD_eq (hs : Stored buf h B) (d : β) {k : ℕ} (hk : k < B.length) :
    buf.getD (h + k) d = B[k] := by
  rw [List.getD_eq_getElem?_getD, hs k hk, List.getElem?_eq_getElem hk, Option.getD_some]

/-- A stored block is what the buffer holds from its offset on, for its length. -/
theorem Stored.drop_take (hs : Stored buf h B) : (buf.drop h).take B.length = B := by
  apply List.ext_getElem?
  intro k
  rw [List.getElem?_take, List.getElem?_drop]
  split_ifs with hk
  · exact hs k hk
  · exact (List.getElem?_eq_none (by omega)).symm

/-- A block stored at the start is the buffer's prefix of its length. -/
theorem Stored.take_eq (hs : Stored buf 0 B) : buf.take B.length = B := by
  simpa using hs.drop_take

theorem stored_append : Stored buf h (A ++ B) ↔ Stored buf h A ∧ Stored buf (h + A.length) B := by
  constructor
  · intro hs
    refine ⟨fun k hk => ?_, fun k hk => ?_⟩
    · rw [hs k (by simp only [List.length_append]; omega), List.getElem?_append_left hk]
    · rw [Nat.add_assoc, hs (A.length + k) (by simp only [List.length_append]; omega), List.getElem?_append_right (by omega),
        Nat.add_sub_cancel_left]
  · rintro ⟨hA, hB⟩ k hk
    by_cases hkA : k < A.length
    · rw [hA k hkA, List.getElem?_append_left hkA]
    · have := hB (k - A.length) (by simp only [List.length_append] at hk; omega)
      rw [List.getElem?_append_right (by omega), ← this]
      congr 1
      omega

theorem stored_singleton {b : β} : Stored buf h [b] ↔ buf[h]? = some b := by
  simp [Stored]

@[simp] theorem stored_nil : Stored buf h ([] : List β) := fun k hk => absurd hk (Nat.not_lt_zero k)

/-- A block that `memmove` neither writes over is kept. -/
theorem Stored.memmove_of_disjoint (hs : Stored buf h B) (hd : dst + n ≤ buf.length)
    (hsrc : src + n ≤ buf.length) (hdisj : h + B.length ≤ dst ∨ dst + n ≤ h) :
    Stored (memmove buf dst src n) h B := by
  intro k hk
  rw [getElem?_memmove hd hsrc, if_neg (by omega), hs k hk]

/-- A block inside the source range of `memmove` is found at the same offset from the
destination. -/
theorem Stored.memmove_of_le (hs : Stored buf h B) (hd : dst + n ≤ buf.length)
    (hsrc : src + n ≤ buf.length) (hlo : src ≤ h) (hhi : h + B.length ≤ src + n) :
    Stored (memmove buf dst src n) (dst + (h - src)) B := by
  intro k hk
  rw [getElem?_memmove hd hsrc, if_pos (by omega), ← hs k hk]
  congr 1
  omega

theorem Stored.realloc (hs : Stored buf h B) (junk : β) (hn : h + B.length ≤ n) :
    Stored (realloc buf n junk) h B := by
  intro k hk
  rw [getElem?_realloc_of_lt junk (by omega) (hs.lt_length hk), hs k hk]

theorem Stored.set_of_ne (hs : Stored buf h B) {i : ℕ} (b : β) (hi : i < h ∨ h + B.length ≤ i) :
    Stored (buf.set i b) h B := by
  intro k hk
  rw [List.getElem?_set_ne (by omega), hs k hk]

theorem stored_set_self {i : ℕ} {b : β} (hi : i < buf.length) : Stored (buf.set i b) i [b] :=
  stored_singleton.mpr (by simp [hi])

theorem stored_memcpy {l : List β} (h : dst + l.length ≤ buf.length) : Stored (memcpy buf dst l) dst l := by
  intro k hk
  rw [getElem?_memcpy h, if_pos (by omega), Nat.add_sub_cancel_left]

theorem Stored.memcpy_of_disjoint (hs : Stored buf h B) {l : List β} (hl : dst + l.length ≤ buf.length)
    (hdisj : h + B.length ≤ dst ∨ dst + l.length ≤ h) : Stored (memcpy buf dst l) h B := by
  intro k hk
  rw [getElem?_memcpy hl, if_neg (by omega), hs k hk]

end VpnClient.Lib.Memory
