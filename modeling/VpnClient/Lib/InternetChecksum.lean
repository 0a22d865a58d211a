import Mathlib

/-!
# The Internet checksum

The checksum of RFC 1071 over byte strings: the big-endian 16-bit words of the data
are added, the carries above 16 bits are folded back in (`fold`), and the sum is
complemented. The carried form `checksumInc` starts from an earlier checksum instead
of from zero, so that a header and what follows it may be summed in two calls. A
checksum is a 16-bit value in network order: the number its two bytes spell
big-endian, whatever the byte order of the host that computes it.

The folded sum is the sum modulo `0xffff`, where the two zeros of ones' complement
are told apart by whether the sum was zero (`fold_eq`). From that: summing in two
calls is summing once, when the first part has an even length
(`checksumInc_append`); and a checksum written into the zeroed field it was computed
over makes the data sum to zero (`checksumInc_setWord`), which is how a receiver
verifies it. And the folded sum is the ones' complement sum of RFC 1071, word by
word with the end-around carry (`toNat_checksum_eq_rfc1071`).

The sum is a natural number. An implementation that keeps it in 32 bits cannot
overflow on less than 128 KiB of data, and every packet here is shorter.
-/

namespace VpnClient.Lib.InternetChecksum

/-- The sum of the big-endian 16-bit words of a byte string; a last odd byte is the
high byte of its word. -/
def wordSum : List UInt8 → ℕ
  | [] => 0
  | [b] => b.toNat * 256
  | a :: b :: rest => (a.toNat * 256 + b.toNat) + wordSum rest

/-- The end-around carry: the bits above 16 are added back in until there are none. -/
def fold (sum : ℕ) : ℕ :=
  if sum < 2 ^ 16 then sum else fold (sum % 2 ^ 16 + sum / 2 ^ 16)
termination_by sum
decreasing_by omega

/-- The checksum of `data` carried on from `checksum`: the complement of the folded
sum of the words of `data` and the complement of `checksum`. -/
def checksumInc (data : List UInt8) (checksum : UInt16) : UInt16 :=
  ~~~(fold ((~~~checksum).toNat + wordSum data)).toUInt16

/-- The checksum of `data`. -/
def checksum (data : List UInt8) : UInt16 := checksumInc data 0xffff

/-- A big-endian 16-bit word written at `i` and `i + 1`. -/
def setWord (l : List UInt8) (i : ℕ) (w : UInt16) : List UInt8 :=
  (l.set i (w >>> 8).toUInt8).set (i + 1) w.toUInt8

/-- The big-endian word at `i` and `i + 1`. -/
def word (l : List UInt8) (i : ℕ) : ℕ := (l.getD i 0).toNat * 256 + (l.getD (i + 1) 0).toNat

/-! ## 1. Folding is the sum modulo `0xffff` -/

/-- **The folded sum**: `0` for a zero sum, and otherwise the representative of the sum
modulo `0xffff` in `1 … 0xffff`. -/
theorem fold_eq (sum : ℕ) : fold sum = if sum = 0 then 0 else (sum - 1) % 0xffff + 1 := by
  fun_induction fold sum with
  | case1 sum hlt =>
    split_ifs <;> omega
  | case2 sum hge ih =>
    -- the carries move `sum` by a multiple of `0xffff`, and keep it non-zero
    rw [ih, if_neg (by omega), if_neg (by omega)]
    omega

theorem fold_lt (sum : ℕ) : fold sum < 2 ^ 16 := by
  rw [fold_eq]
  split_ifs <;> omega

/-- Folding part of a sum first changes nothing. -/
theorem fold_fold_add (x y : ℕ) : fold (fold x + y) = fold (x + y) := by
  rw [fold_eq x]
  split_ifs with hx
  · rw [hx]
  · rw [fold_eq, fold_eq (x + y), if_neg (by omega), if_neg (by omega)]
    omega

/-! ## 2. Summing in parts -/

theorem wordSum_append : ∀ {a : List UInt8} (b : List UInt8), a.length % 2 = 0 →
    wordSum (a ++ b) = wordSum a + wordSum b
  | [], _, _ => by simp [wordSum]
  | [_], _, h => by simp at h
  | x :: y :: rest, b, h => by
    have hrest : rest.length % 2 = 0 := by
      simp only [List.length_cons] at h
      omega
    simp only [List.cons_append, wordSum]
    rw [wordSum_append b hrest]
    omega

/-- Every word is at most `0xffff`: the bound that keeps a 32-bit sum from
overflowing. -/
theorem wordSum_le : ∀ data : List UInt8, wordSum data ≤ 0xffff * ((data.length + 1) / 2)
  | [] => by simp [wordSum]
  | [b] => by
    have := b.toNat_lt
    simp only [wordSum, List.length_singleton]
    omega
  | a :: b :: rest => by
    have ha := a.toNat_lt
    have hb := b.toNat_lt
    have ih := wordSum_le rest
    simp only [wordSum, List.length_cons]
    omega

theorem toNat_checksumInc (data : List UInt8) (checksum : UInt16) :
    (checksumInc data checksum).toNat = 0xffff - fold (0xffff - checksum.toNat + wordSum data) := by
  have hlt := fold_lt (0xffff - checksum.toNat + wordSum data)
  simp only [checksumInc, UInt16.toNat_not, UInt16.size, Nat.toUInt16, UInt16.toNat_ofNat', Nat.mod_eq_of_lt hlt]

theorem checksumInc_ext {data data' : List UInt8} {checksum checksum' : UInt16}
    (h : fold (0xffff - checksum.toNat + wordSum data) = fold (0xffff - checksum'.toNat + wordSum data')) :
    checksumInc data checksum = checksumInc data' checksum' :=
  UInt16.toNat_inj.mp (by rw [toNat_checksumInc, toNat_checksumInc, h])

/-- **Summing in two calls is summing once**, when the first part has an even
length. -/
theorem checksumInc_append {a : List UInt8} (b : List UInt8) (ha : a.length % 2 = 0) (checksum : UInt16) :
    checksumInc (a ++ b) checksum = checksumInc b (checksumInc a checksum) := by
  apply checksumInc_ext
  have hlt := fold_lt (0xffff - checksum.toNat + wordSum a)
  rw [toNat_checksumInc, wordSum_append b ha,
    show 0xffff - (0xffff - fold (0xffff - checksum.toNat + wordSum a)) =
      fold (0xffff - checksum.toNat + wordSum a) by omega, fold_fold_add, Nat.add_assoc]

/-! ## 3. Writing a word -/

@[simp] theorem length_setWord (l : List UInt8) (i : ℕ) (w : UInt16) :
    (setWord l i w).length = l.length := by
  simp [setWord]

theorem getD_setWord_of_ne {l : List UInt8} {i j : ℕ} (w : UInt16) (hi : j ≠ i) (hi' : j ≠ i + 1) :
    (setWord l i w).getD j 0 = l.getD j 0 := by
  simp only [setWord, List.getD_eq_getElem?_getD, List.getElem?_set_ne (Ne.symm hi'),
    List.getElem?_set_ne (Ne.symm hi)]

/-- A word written below `n` leaves what follows `n` as it is. -/
theorem drop_setWord {l : List UInt8} {i n : ℕ} (w : UInt16) (h : i + 1 < n) :
    (setWord l i w).drop n = l.drop n := by
  rw [setWord, List.drop_set_of_lt h, List.drop_set_of_lt (by omega)]

/-- The two bytes of a word spell it. -/
theorem word_bytes (w : UInt16) : (w >>> 8).toUInt8.toNat * 256 + w.toUInt8.toNat = w.toNat := by
  have := w.toNat_lt
  simp only [UInt16.toNat_toUInt8, UInt16.toNat_shiftRight, UInt16.reduceToNat, Nat.reduceMod,
    Nat.shiftRight_eq_div_pow]
  omega

theorem word_setWord {l : List UInt8} {i : ℕ} (w : UInt16) (hi : i + 1 < l.length) :
    word (setWord l i w) i = w.toNat := by
  simp only [word, setWord, List.getD_eq_getElem?_getD, List.getElem?_set, List.length_set,
    show i < l.length by omega, hi, if_true, show i + 1 ≠ i by omega, if_false, Option.getD_some]
  exact word_bytes w

/-- Writing a word at an even offset changes the sum by the difference of the
words. -/
theorem wordSum_setWord : ∀ (k : ℕ) {l : List UInt8} (w : UInt16), 2 * k + 1 < l.length →
    wordSum (setWord l (2 * k) w) + word l (2 * k) = wordSum l + w.toNat
  | 0, a :: b :: rest, w, _ => by
    have hset : setWord (a :: b :: rest) (2 * 0) w = (w >>> 8).toUInt8 :: w.toUInt8 :: rest := rfl
    have hword : word (a :: b :: rest) (2 * 0) = a.toNat * 256 + b.toNat := rfl
    rw [hset, hword]
    simp only [wordSum]
    rw [← word_bytes w]
    omega
  | _, [], _, h => absurd h (by simp)
  | _, [_], _, h => absurd h (by simp)
  | k + 1, a :: b :: rest, w, h => by
    have ih := @wordSum_setWord k rest w (by simp at h; omega)
    have hset : setWord (a :: b :: rest) (2 * (k + 1)) w = a :: b :: setWord rest (2 * k) w := by
      simp [setWord, show 2 * (k + 1) = 2 * k + 1 + 1 by omega]
    have hword : word (a :: b :: rest) (2 * (k + 1)) = word rest (2 * k) := by
      simp [word, show 2 * (k + 1) = 2 * k + 1 + 1 by omega]
    rw [hset, hword]
    simp only [wordSum]
    omega

/-- **A checksum verifies.** Computed over data whose field at an even offset is zero
and written into that field, it makes the data sum to zero. -/
theorem checksumInc_setWord {data : List UInt8} {k : ℕ} (checksum : UInt16) (hk : 2 * k + 1 < data.length)
    (hzero : word data (2 * k) = 0) :
    checksumInc (setWord data (2 * k) (checksumInc data checksum)) checksum = 0 := by
  apply UInt16.toNat_inj.mp
  have hsum := wordSum_setWord k (checksumInc data checksum) hk
  rw [hzero, Nat.add_zero, toNat_checksumInc] at hsum
  rw [toNat_checksumInc, UInt16.toNat_zero, hsum, ← Nat.add_assoc]
  generalize 0xffff - checksum.toNat + wordSum data = s
  -- the new sum is a non-zero multiple of `0xffff`
  rw [fold_eq, fold_eq s]
  split_ifs <;> omega

/-! ## 4. The ones' complement sum of RFC 1071 -/

/-- The 16-bit words of a byte string, big-endian; a last odd byte is padded with a
zero byte. -/
def words : List UInt8 → List ℕ
  | [] => []
  | [b] => [b.toNat * 256]
  | a :: b :: rest => (a.toNat * 256 + b.toNat) :: words rest

/-- Ones' complement addition of 16-bit numbers: the carry out of the top bit is added
back in at the bottom. -/
def onesAdd (x y : ℕ) : ℕ := if x + y < 0x10000 then x + y else x + y - 0x10000 + 1

/-- The checksum of RFC 1071: the complement of the ones' complement sum of the
words. -/
def rfc1071 (data : List UInt8) : ℕ := 0xffff - (words data).foldl onesAdd 0

theorem wordSum_eq_sum_words : ∀ data : List UInt8, wordSum data = (words data).sum
  | [] => rfl
  | [_] => by simp [wordSum, words]
  | _ :: _ :: rest => by simp [wordSum, words, wordSum_eq_sum_words rest]

theorem lt_of_mem_words : ∀ {data : List UInt8} {w : ℕ}, w ∈ words data → w < 2 ^ 16
  | [], _, h => by simp [words] at h
  | [b], _, h => by
    simp only [words, List.mem_singleton] at h
    have := b.toNat_lt
    omega
  | a :: b :: rest, _, h => by
    simp only [words, List.mem_cons] at h
    rcases h with rfl | h
    · have := a.toNat_lt
      have := b.toNat_lt
      omega
    · exact lt_of_mem_words h

/-- Adding a word with the end-around carry is adding it before folding. -/
theorem onesAdd_fold (x : ℕ) {w : ℕ} (hw : w < 2 ^ 16) : onesAdd (fold x) w = fold (x + w) := by
  replace hw : w < 0x10000 := by omega
  rw [fold_eq (x + w), fold_eq x]
  by_cases hx : x = 0
  · subst hx
    rw [if_pos rfl, Nat.zero_add, onesAdd, Nat.zero_add, if_pos hw]
    by_cases hw0 : w = 0
    · rw [if_pos hw0, hw0]
    · rw [if_neg hw0]
      omega
  · -- both sides are the sum modulo `0xffff`, in `1 … 0xffff`
    rw [if_neg hx, if_neg (by omega), onesAdd]
    split
    · omega
    · omega

theorem foldl_onesAdd_fold : ∀ (x : ℕ) {ws : List ℕ}, (∀ w ∈ ws, w < 2 ^ 16) →
    ws.foldl onesAdd (fold x) = fold (x + ws.sum)
  | x, [], _ => by simp
  | x, w :: ws, h => by
    rw [List.foldl_cons, onesAdd_fold x (h w (by simp)),
      foldl_onesAdd_fold (x + w) fun w' hw' => h w' (by simp [hw']), List.sum_cons, Nat.add_assoc]

/-- **The checksum is RFC 1071's.** -/
theorem toNat_checksum_eq_rfc1071 (data : List UInt8) : (checksum data).toNat = rfc1071 data := by
  have hsum : (words data).foldl onesAdd 0 = fold (wordSum data) := by
    have h := foldl_onesAdd_fold 0 fun w (hw : w ∈ words data) => lt_of_mem_words hw
    rwa [show fold 0 = 0 by rw [fold_eq]; rfl, Nat.zero_add, ← wordSum_eq_sum_words] at h
  rw [checksum, toNat_checksumInc, rfc1071, hsum]
  simp

end VpnClient.Lib.InternetChecksum
