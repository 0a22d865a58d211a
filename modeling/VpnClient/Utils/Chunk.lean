import VpnClient.Lib.InternetChecksum

/-!
# `chunk_internet_checksum`

`chunk_internet_checksum_inc` and `chunk_internet_checksum` of
`libstrongswan/utils/chunk.c`, with the sum kept in a `uint32_t` as the C code keeps
it: `sumLoop` adds the big-endian words (`untoh16`) and a last odd byte shifted up,
modulo `2 ^ 32`, and `foldLoop` adds the carries back in. A checksum is read in
network order, as everywhere in `Lib.InternetChecksum`: `ntohs` on the way in and
`htons` on the way out only fix the host's byte order.

The 32-bit sum is the exact sum taken modulo `2 ^ 32` (`toNat_sumLoop`). Since every
word is at most `0xffff`, it cannot wrap on at most 131070 bytes, and there the code
computes the checksum of the library (`chunkInternetChecksumInc_eq`), RFC 1071's. On
longer data the sum wraps and the result is another number, but a checksum written
into its zeroed field still makes the data sum to zero, for data of any length
(`chunkInternetChecksum_setWord`): a wrapped sum is below `2 ^ 32` by at least
`0xffff` more than its fold, so adding the checksum does not wrap it again.
-/

namespace VpnClient.Utils

open VpnClient.Lib InternetChecksum

/-- The first loop of `chunk_internet_checksum_inc`: `sum += untoh16(data.ptr)` over
the two-byte words, then `sum += (uint16_t)*data.ptr << 8` for a last odd byte. -/
def sumLoop : List UInt8 → UInt32 → UInt32
  | a :: b :: rest, sum => sumLoop rest (sum + UInt32.ofNat (a.toNat * 256 + b.toNat))
  | [a], sum => sum + UInt32.ofNat (a.toNat * 256)
  | [], sum => sum

theorem toNat_fold_step (sum : UInt32) :
    ((sum &&& (0xffff : UInt32)) + (sum >>> (16 : UInt32))).toNat = sum.toNat % 2 ^ 16 + sum.toNat / 2 ^ 16 := by
  have hlt := sum.toNat_lt
  rw [UInt32.toNat_add, UInt32.toNat_and, UInt32.toNat_shiftRight,
    show (0xffff : UInt32).toNat = 2 ^ 16 - 1 from rfl, Nat.and_two_pow_sub_one_eq_mod,
    show (16 : UInt32).toNat % 32 = 16 from rfl, Nat.shiftRight_eq_div_pow]
  omega

theorem shiftRight_eq_zero_iff (sum : UInt32) : sum >>> (16 : UInt32) = 0 ↔ sum.toNat < 2 ^ 16 := by
  rw [← UInt32.toNat_inj, UInt32.toNat_shiftRight, show (16 : UInt32).toNat % 32 = 16 from rfl,
    Nat.shiftRight_eq_div_pow, UInt32.toNat_zero]
  omega

/-- The second loop: `while (sum >> 16) sum = (sum & 0xffff) + (sum >> 16)`. -/
def foldLoop (sum : UInt32) : UInt32 :=
  if sum >>> (16 : UInt32) = 0 then sum else foldLoop ((sum &&& (0xffff : UInt32)) + (sum >>> (16 : UInt32)))
termination_by sum.toNat
decreasing_by
  rw [toNat_fold_step]
  have := (shiftRight_eq_zero_iff sum).not.mp ‹_›
  omega

/-- `chunk_internet_checksum_inc`: the sum starts as `ntohs((uint16_t)~checksum)`,
and the result is `htons(~sum)`, the complement cut to 16 bits. -/
def chunkInternetChecksumInc (data : List UInt8) (checksum : UInt16) : UInt16 :=
  (~~~foldLoop (sumLoop data (~~~checksum).toUInt32)).toUInt16

/-- `chunk_internet_checksum`. -/
def chunkInternetChecksum (data : List UInt8) : UInt16 := chunkInternetChecksumInc data 0xffff

/-! ## The loops on numbers -/

/-- The 32-bit sum is the exact sum modulo `2 ^ 32`. -/
theorem toNat_sumLoop : ∀ (data : List UInt8) (sum : UInt32),
    (sumLoop data sum).toNat = (sum.toNat + wordSum data) % 2 ^ 32
  | [], sum => by
    simp [sumLoop, wordSum, Nat.mod_eq_of_lt sum.toNat_lt]
  | [a], sum => by
    rw [sumLoop, UInt32.toNat_add, UInt32.toNat_ofNat', wordSum]
    omega
  | a :: b :: rest, sum => by
    rw [sumLoop, toNat_sumLoop rest, UInt32.toNat_add, UInt32.toNat_ofNat', wordSum]
    omega

/-- The carry loop is `fold`. -/
theorem toNat_foldLoop (sum : UInt32) : (foldLoop sum).toNat = fold sum.toNat := by
  fun_induction foldLoop sum with
  | case1 sum hzero =>
    rw [fold, if_pos ((shiftRight_eq_zero_iff sum).mp hzero)]
  | case2 sum hne ih =>
    -- one turn of the loop is one turn of `fold`
    rw [ih, toNat_fold_step, fold.eq_1 sum.toNat, if_neg (by simpa [shiftRight_eq_zero_iff] using hne)]

theorem toNat_chunkInternetChecksumInc (data : List UInt8) (checksum : UInt16) :
    (chunkInternetChecksumInc data checksum).toNat =
      0xffff - fold ((0xffff - checksum.toNat + wordSum data) % 2 ^ 32) := by
  have hinit : (~~~checksum).toUInt32.toNat = 0xffff - checksum.toNat := by
    rw [UInt16.toNat_toUInt32, UInt16.toNat_not]
    rfl
  have hfold := fold_lt ((0xffff - checksum.toNat + wordSum data) % 2 ^ 32)
  rw [chunkInternetChecksumInc, UInt32.toNat_toUInt16, UInt32.toNat_not, toNat_foldLoop, toNat_sumLoop,
    hinit, show UInt32.size = 2 ^ 32 from rfl]
  omega

/-- **On at most 131070 bytes the sum does not wrap**, and the code computes the
checksum of `Lib.InternetChecksum`. -/
theorem chunkInternetChecksumInc_eq {data : List UInt8} (checksum : UInt16) (h : data.length ≤ 131070) :
    chunkInternetChecksumInc data checksum = checksumInc data checksum := by
  have hsum := wordSum_le data
  have hc := checksum.toNat_lt
  have hbound : 0xffff - checksum.toNat + wordSum data < 2 ^ 32 := by
    have : (data.length + 1) / 2 ≤ 65535 := by omega
    have : 0xffff * ((data.length + 1) / 2) ≤ 0xffff * 65535 := Nat.mul_le_mul_left _ this
    omega
  apply UInt16.toNat_inj.mp
  rw [toNat_chunkInternetChecksumInc, toNat_checksumInc, Nat.mod_eq_of_lt hbound]

theorem chunkInternetChecksum_eq {data : List UInt8} (h : data.length ≤ 131070) :
    chunkInternetChecksum data = checksum data :=
  chunkInternetChecksumInc_eq 0xffff h

/-- A wrapped sum plus the complement of its fold is a non-zero multiple of `0xffff`
that does not wrap again. -/
theorem fold_add_complement {r : ℕ} (hr : r < 2 ^ 32) : fold ((r + (0xffff - fold r)) % 2 ^ 32) = 0xffff := by
  have hf := fold_eq r
  have hfr : r = 0 ∧ fold r = 0 ∨ r ≠ 0 ∧ fold r = (r - 1) % 0xffff + 1 := by
    by_cases h0 : r = 0
    · exact .inl ⟨h0, by rw [hf, if_pos h0]⟩
    · exact .inr ⟨h0, by rw [hf, if_neg h0]⟩
  have hlt : r + (0xffff - fold r) < 2 ^ 32 := by
    omega
  have hne : r + (0xffff - fold r) ≠ 0 := by
    omega
  rw [Nat.mod_eq_of_lt hlt, fold_eq, if_neg hne]
  omega

/-- **A checksum verifies, for data of any length**: computed over data whose field
at an even offset is zero and written into that field, it makes the checksum of the
data zero, whether or not the 32-bit sum wrapped. -/
theorem chunkInternetChecksum_setWord {data : List UInt8} {k : ℕ} (hk : 2 * k + 1 < data.length)
    (hzero : word data (2 * k) = 0) :
    chunkInternetChecksum (setWord data (2 * k) (chunkInternetChecksum data)) = 0 := by
  apply UInt16.toNat_inj.mp
  have hsum := wordSum_setWord k (chunkInternetChecksum data) hk
  rw [hzero, Nat.add_zero] at hsum
  have hc : (chunkInternetChecksum data).toNat = 0xffff - fold (wordSum data % 2 ^ 32) := by
    rw [chunkInternetChecksum, toNat_chunkInternetChecksumInc, show (0xffff : UInt16).toNat = 0xffff from rfl,
      Nat.sub_self, Nat.zero_add]
  rw [chunkInternetChecksum, toNat_chunkInternetChecksumInc, hsum, hc, UInt16.toNat_zero,
    show (0xffff : UInt16).toNat = 0xffff from rfl, Nat.sub_self, Nat.zero_add, ← Nat.mod_add_mod (wordSum data),
    fold_add_complement (Nat.mod_lt _ (Nat.two_pow_pos 32))]

/-- What `chunk_internet_checksum` is for, on the code with its 32-bit sum: summing in
two calls is summing once, when the first part has an even length and the sum does not
wrap; a checksum written into its zeroed field verifies, on data of any length; and on
data the sum cannot wrap on, the checksum is RFC 1071's. -/
theorem chunkInternetChecksum_laws :
    (∀ a b : List UInt8, a.length % 2 = 0 → a.length + b.length ≤ 131070 →
      chunkInternetChecksumInc b (chunkInternetChecksum a) = chunkInternetChecksum (a ++ b)) ∧
    (∀ (d : List UInt8) (k : ℕ), 2 * k + 1 < d.length → word d (2 * k) = 0 →
      chunkInternetChecksum (setWord d (2 * k) (chunkInternetChecksum d)) = 0) ∧
    (∀ data : List UInt8, data.length ≤ 131070 → (chunkInternetChecksum data).toNat = rfc1071 data) := by
  refine ⟨fun a b ha hab => ?_, fun d k hk hzero => chunkInternetChecksum_setWord hk hzero,
    fun data h => ?_⟩
  · have hlen : (a ++ b).length ≤ 131070 := by rw [List.length_append]; exact hab
    rw [chunkInternetChecksum_eq (by omega), chunkInternetChecksumInc_eq _ (by omega),
      chunkInternetChecksum_eq hlen, checksum, checksum, checksumInc_append b ha]
  · rw [chunkInternetChecksum_eq h, toNat_checksum_eq_rfc1071]

theorem chunkInternetChecksum_laws_short :
    chunkInternetChecksumInc [0x12] (chunkInternetChecksum [0x45, 0x00]) =
        chunkInternetChecksum ([0x45, 0x00] ++ [0x12]) ∧
      chunkInternetChecksum (setWord [0, 0, 0x45, 0x00] (2 * 0) (chunkInternetChecksum [0, 0, 0x45, 0x00])) = 0 ∧
      (chunkInternetChecksum [0x45, 0x00, 0x12]).toNat = rfc1071 [0x45, 0x00, 0x12] :=
  ⟨chunkInternetChecksum_laws.1 _ _ (by decide) (by decide),
    chunkInternetChecksum_laws.2.1 _ 0 (by decide) (by decide), chunkInternetChecksum_laws.2.2 _ (by decide)⟩

end VpnClient.Utils
