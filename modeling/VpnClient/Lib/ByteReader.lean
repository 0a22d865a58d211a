import Mathlib

/-!
# Reading and writing byte strings

A reader over a byte string takes fields off its front or off its back, and fails
when too few bytes are left; a writer appends fields. Multi-byte numbers are
big-endian (network order).

The lemmas are the round trips a codec proof needs: what a writer appended, a
reader takes back, from the front (`readU32_append`, `readData_append`) or from the
back (`readU8End_append`, `readDataEnd_append`), together with what reading leaves
of the length.
-/

namespace VpnClient.Lib.ByteReader

/-! ## 1. Numbers -/

/-- The number of two big-endian bytes. -/
def u16OfBytes (a b : UInt8) : UInt16 := UInt16.ofNat (a.toNat * 2 ^ 8 + b.toNat)

/-- The number of four big-endian bytes. -/
def u32OfBytes (a b c d : UInt8) : UInt32 :=
  UInt32.ofNat (a.toNat * 2 ^ 24 + b.toNat * 2 ^ 16 + c.toNat * 2 ^ 8 + d.toNat)

/-- The four big-endian bytes of a number. -/
def u32Bytes (v : UInt32) : List UInt8 :=
  [UInt8.ofNat (v.toNat / 2 ^ 24), UInt8.ofNat (v.toNat / 2 ^ 16), UInt8.ofNat (v.toNat / 2 ^ 8),
    UInt8.ofNat v.toNat]

@[simp] theorem length_u32Bytes (v : UInt32) : (u32Bytes v).length = 4 := rfl

theorem u32OfBytes_u32Bytes (v : UInt32) :
    u32OfBytes (UInt8.ofNat (v.toNat / 2 ^ 24)) (UInt8.ofNat (v.toNat / 2 ^ 16))
      (UInt8.ofNat (v.toNat / 2 ^ 8)) (UInt8.ofNat v.toNat) = v := by
  have hv := v.toNat_lt
  have key : (UInt8.ofNat (v.toNat / 2 ^ 24)).toNat * 2 ^ 24 +
      (UInt8.ofNat (v.toNat / 2 ^ 16)).toNat * 2 ^ 16 + (UInt8.ofNat (v.toNat / 2 ^ 8)).toNat * 2 ^ 8 +
      (UInt8.ofNat v.toNat).toNat = v.toNat := by
    simp only [UInt8.toNat_ofNat']
    omega
  rw [u32OfBytes, key, UInt32.ofNat_toNat]

/-! ## 2. Reading -/

/-- A 32-bit number off the front. -/
def readU32 : List UInt8 → Option (UInt32 × List UInt8)
  | a :: b :: c :: d :: rest => some (u32OfBytes a b c d, rest)
  | _ => none

/-- `n` bytes off the front. -/
def readData (n : ℕ) (l : List UInt8) : Option (List UInt8 × List UInt8) :=
  if l.length < n then none else some (l.take n, l.drop n)

/-- One byte off the back. -/
def readU8End (l : List UInt8) : Option (UInt8 × List UInt8) :=
  match l.reverse with
  | [] => none
  | b :: r => some (b, r.reverse)

/-- `n` bytes off the back. -/
def readDataEnd (n : ℕ) (l : List UInt8) : Option (List UInt8 × List UInt8) :=
  if l.length < n then none else some (l.drop (l.length - n), l.take (l.length - n))

/-! ## 3. Round trips -/

theorem readU32_append (v : UInt32) (rest : List UInt8) :
    readU32 (u32Bytes v ++ rest) = some (v, rest) := by
  simp only [u32Bytes, List.cons_append, List.nil_append, readU32, u32OfBytes_u32Bytes]

theorem readData_append {n : ℕ} {d : List UInt8} (hd : d.length = n) (rest : List UInt8) :
    readData n (d ++ rest) = some (d, rest) := by
  subst hd
  simp [readData]

theorem readU8End_append (l : List UInt8) (b : UInt8) : readU8End (l ++ [b]) = some (b, l) := by
  simp [readU8End]

theorem readDataEnd_append {n : ℕ} (l : List UInt8) {d : List UInt8} (hd : d.length = n) :
    readDataEnd n (l ++ d) = some (d, l) := by
  subst hd
  simp [readDataEnd]

/-- What a successful read takes and leaves. -/
theorem readU32_eq_some {l rest : List UInt8} {v : UInt32} (h : readU32 l = some (v, rest)) :
    rest = l.drop 4 := by
  match l, h with
  | _ :: _ :: _ :: _ :: _, h =>
    simp only [readU32, Option.some.injEq, Prod.mk.injEq] at h
    rw [← h.2]
    rfl

theorem readU8End_eq_some {l rest : List UInt8} {b : UInt8} (h : readU8End l = some (b, rest)) :
    l = rest ++ [b] := by
  unfold readU8End at h
  split at h
  · cases h
  · rename_i b' r hr
    simp only [Option.some.injEq, Prod.mk.injEq] at h
    obtain ⟨rfl, rfl⟩ := h
    rw [← List.reverse_reverse l, hr]
    simp

end VpnClient.Lib.ByteReader
