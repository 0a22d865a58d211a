import VpnClient.Lib.Bits
import Mathlib.Data.List.Basic

/-!
# Hex and base64 text of chunks

`chunk_to_hex` and `chunk_from_hex`, `chunk_to_base64` and `chunk_from_base64` of
`utils/chunk.c`. Text is the list of its characters; the digit tables are those of the
source.

`chunk_from_hex` fills its buffer from the right while a pointer walks back over the
text, skipping one `:` before each byte and an optional `0x` prefix once. It reads
back what `chunk_to_hex` writes in either case (`chunkFromHex_chunkToHex`), also with
the bytes joined by `:` (`chunkFromHex_colonHex`) or behind `0x`
(`chunkFromHex_prefixHex`). `chunk_from_base64` counts every `=` off the length of its
output, which takes back the padding `chunk_to_base64` writes
(`chunkFromBase64_chunkToBase64`). The digits are fields of bits of the bytes, and the
decoders put the fields together again (`Lib.Bits.toNat_or_of_lt`).

Lengths are natural numbers here. `chunk.c` computes them in `int`, twice or four thirds
the chunk's length; the two agree on every chunk below 512 MiB, larger than any chunk a
caller encodes.
-/

namespace VpnClient.Utils

open VpnClient.Lib.Bits

/-! ## 1. Hex -/

/-- `hexdig_upper`. -/
def hexdigUpper : List Char :=
  ['0', '1', '2', '3', '4', '5', '6', '7', '8', '9', 'A', 'B', 'C', 'D', 'E', 'F']

/-- `hexdig_lower`. -/
def hexdigLower : List Char :=
  ['0', '1', '2', '3', '4', '5', '6', '7', '8', '9', 'a', 'b', 'c', 'd', 'e', 'f']

/-- `buf[i*2]` and `buf[i*2+1]` of `chunk_to_hex`: the digits of the high and the low
half of a byte. -/
def hexPair (uppercase : Bool) (b : UInt8) : List Char :=
  let hexdig := if uppercase then hexdigUpper else hexdigLower
  [hexdig.getD ((b >>> 4) &&& 0xF).toNat '\x00', hexdig.getD (b &&& 0xF).toNat '\x00']

/-- `chunk_to_hex`. -/
def chunkToHex (chunk : List UInt8) (uppercase : Bool) : List Char := chunk.flatMap (hexPair uppercase)

/-- `hex2bin`: the value of a hex digit, and `0` for any other character. -/
def hex2bin (hex : Char) : UInt8 :=
  if '0' ≤ hex ∧ hex ≤ '9' then UInt8.ofNat (hex.toNat - '0'.toNat)
  else if 'A' ≤ hex ∧ hex ≤ 'F' then UInt8.ofNat (hex.toNat - 'A'.toNat + 10)
  else if 'a' ≤ hex ∧ hex ≤ 'f' then UInt8.ofNat (hex.toNat - 'a'.toNat + 10)
  else 0

/-- `*(--hex.ptr)`: the character before the pointer, and the characters before that
one, nearest first. The texts read here never take the pointer before their start; a
NUL stands for what lies there. -/
def prev : List Char → Char × List Char
  | [] => ('\x00', [])
  | c :: before => (c, before)

/-- The loop of `chunk_from_hex`, for `i` from `k - 1` down to `0`: the buffer is filled
from the right while the pointer walks back over `before`. `acc` holds `buf[i+1..]`;
each byte is assigned before it is or-ed, so the `memset` of the buffer leaves no trace. -/
def fromHexLoop (odd : Bool) : ℕ → List Char → List UInt8 → List UInt8
  | 0, _, acc => acc
  | i + 1, before, acc =>
    -- skip separation characters
    let (c, before) := prev before
    let (c, before) := if c = ':' then prev before else (c, before)
    if i > 0 || !odd then
      let (c', before) := prev before
      fromHexLoop odd i before ((hex2bin c ||| (hex2bin c' <<< 4)) :: acc)
    else fromHexLoop odd i before (hex2bin c :: acc)

@[simp] theorem fromHexLoop_zero (odd : Bool) (before : List Char) (acc : List UInt8) :
    fromHexLoop odd 0 before acc = acc := rfl

/-- `chunk_from_hex`. -/
def chunkFromHex (hex : List Char) : List UInt8 :=
  -- skip an optional 0x prefix
  let hex := if hex.length > 1 ∧ hex.getD 1 '\x00' = 'x' ∧ hex.getD 0 '\x00' = '0' then hex.drop 2 else hex
  -- subtract the number of optional ':' separation characters
  let len := hex.length - hex.count ':'
  -- compute the number of binary bytes
  let odd := len % 2 == 1
  let len := (if odd then len + 1 else len) / 2
  fromHexLoop odd len hex.reverse []

/-- The bytes as hex pairs joined by `:`. -/
def colonHex (chunk : List UInt8) (uppercase : Bool) : List Char :=
  List.intercalate [':'] (chunk.map (hexPair uppercase))

section Hex

variable (uppercase : Bool)

/-- Each digit of the table reads back as its index, and none is a `:` or an `x`. -/
theorem hex2bin_hexdig : ∀ k < 16,
    hex2bin ((if uppercase then hexdigUpper else hexdigLower).getD k '\x00') = UInt8.ofNat k ∧
      (if uppercase then hexdigUpper else hexdigLower).getD k '\x00' ≠ ':' ∧
      (if uppercase then hexdigUpper else hexdigLower).getD k '\x00' ≠ 'x' := by
  cases uppercase <;> decide

/-- The two halves of a byte, put together again. -/
theorem low_or_high_shiftLeft (b : UInt8) :
    (b &&& (0xF : UInt8)) ||| (((b >>> (4 : UInt8)) &&& (0xF : UInt8)) <<< (4 : UInt8)) = b := by
  have hlow := toNat_and_low (m := 0xF) (k := 4) rfl b
  have hhigh : ((b >>> (4 : UInt8)) &&& (0xF : UInt8)).toNat = b.toNat / 2 ^ 4 % 2 ^ 4 := by
    rw [toNat_and_low (m := 0xF) (k := 4) rfl, toNat_shiftRight_eq (k := 4) rfl (by decide)]
  have hshift : (((b >>> (4 : UInt8)) &&& (0xF : UInt8)) <<< (4 : UInt8)).toNat = b.toNat / 2 ^ 4 % 2 ^ 4 * 2 ^ 4 % 256 := by
    rw [toNat_shiftLeft_eq (k := 4) rfl (by decide), hhigh]
  have hb := b.toNat_lt
  apply UInt8.toNat_inj.mp
  rw [UInt8.or_comm, toNat_or_of_lt (k := 4) (by rw [hshift]; omega) (by rw [hlow]; omega), hshift, hlow]
  omega

/-- The two digits of a byte: each reads back as its half of the byte, and neither is
a `:` or an `x`. -/
theorem hexPair_digits (b : UInt8) : ∃ hi lo, hexPair uppercase b = [hi, lo] ∧
    hex2bin hi = (b >>> 4) &&& 0xF ∧ hex2bin lo = b &&& 0xF ∧ (hi ≠ ':' ∧ hi ≠ 'x') ∧ (lo ≠ ':' ∧ lo ≠ 'x') := by
  obtain ⟨hhi, hhi'⟩ := hex2bin_hexdig uppercase ((b >>> 4) &&& 0xF).toNat (by rw [toNat_and_low (k := 4) rfl]; omega)
  obtain ⟨hlo, hlo'⟩ := hex2bin_hexdig uppercase (b &&& 0xF).toNat (by rw [toNat_and_low (k := 4) rfl]; omega)
  rw [UInt8.ofNat_toNat] at hhi hlo
  exact ⟨_, _, rfl, hhi, hlo, hhi', hlo'⟩

/-- What `hexPair` writes, as `chunk_from_hex` reads it: the low digit first. -/
theorem hexPair_reverse (b : UInt8) : ∃ lo hi, (hexPair uppercase b).reverse = [lo, hi] ∧ lo ≠ ':' ∧
    hex2bin lo ||| (hex2bin hi <<< 4) = b := by
  obtain ⟨hi, lo, hpair, hhi, hlo, -, hlo'⟩ := hexPair_digits uppercase b
  refine ⟨lo, hi, by rw [hpair]; rfl, hlo'.1, ?_⟩
  rw [hhi, hlo, low_or_high_shiftLeft]

/-- One byte read back, after a `:` or not. -/
theorem fromHexLoop_hexPair {pre : List Char} (hpre : pre = [] ∨ pre = [':']) (b : UInt8) (i : ℕ)
    (rest : List Char) (acc : List UInt8) :
    fromHexLoop false (i + 1) (pre ++ (hexPair uppercase b).reverse ++ rest) acc = fromHexLoop false i rest (b :: acc) := by
  obtain ⟨lo, hi, hpair, hlo, hb⟩ := hexPair_reverse uppercase b
  rw [hpair]
  rcases hpre with rfl | rfl
  · simp [fromHexLoop, prev, hlo, hb]
  · simp [fromHexLoop, prev, hb]

/-- The plain text of bytes is read back from its end. -/
theorem fromHexLoop_chunkToHex (i : ℕ) (rest : List Char) (acc : List UInt8) :
    ∀ bs : List UInt8, fromHexLoop false (bs.length + i) ((chunkToHex bs uppercase).reverse ++ rest) acc =
      fromHexLoop false i rest (bs ++ acc)
  | [] => by simp [chunkToHex]
  | b :: bs => by
    -- the loop reads the last bytes first, and `b` last
    have h := fromHexLoop_chunkToHex (i + 1) ((hexPair uppercase b).reverse ++ rest) acc bs
    have hstep := fromHexLoop_hexPair uppercase (Or.inl rfl) b i rest (bs ++ acc)
    rw [List.nil_append] at hstep
    have hlen : (b :: bs).length + i = bs.length + (i + 1) := by
      rw [List.length_cons]
      omega
    rw [hlen, chunkToHex, List.flatMap_cons, List.reverse_append, List.append_assoc, List.cons_append]
    rw [hstep] at h
    exact h

/-- The text with `:` between the pairs is read back from its end: before every pair but
the last one read, the loop skips a `:`. -/
theorem fromHexLoop_colonHex (i : ℕ) (rest : List Char) (acc : List UInt8) :
    ∀ bs : List UInt8, fromHexLoop false (bs.length + i) ((colonHex bs uppercase).reverse ++ rest) acc =
      fromHexLoop false i rest (bs ++ acc)
  | [] => by simp [colonHex]
  | [b] => by
    have hstep := fromHexLoop_hexPair uppercase (Or.inl rfl) b i rest acc
    rw [List.nil_append] at hstep
    rw [List.length_singleton, Nat.add_comm]
    simpa [colonHex] using hstep
  | b :: b' :: bs => by
    have h := fromHexLoop_colonHex (i + 1) (':' :: ((hexPair uppercase b).reverse ++ rest)) acc (b' :: bs)
    have hstep := fromHexLoop_hexPair uppercase (Or.inr rfl) b i rest ((b' :: bs) ++ acc)
    have htext : (colonHex (b :: b' :: bs) uppercase).reverse ++ rest =
        (colonHex (b' :: bs) uppercase).reverse ++ (':' :: ((hexPair uppercase b).reverse ++ rest)) := by
      simp [colonHex, List.intercalate_cons_cons]
    have hlen : (b :: b' :: bs).length + i = (b' :: bs).length + (i + 1) := by
      rw [List.length_cons, List.length_cons]
      omega
    rw [hlen, htext, h]
    simpa using hstep

theorem mem_hexPair {b : UInt8} {c : Char} (hc : c ∈ hexPair uppercase b) : c ≠ ':' ∧ c ≠ 'x' := by
  obtain ⟨hi, lo, hpair, -, -, hhi, hlo⟩ := hexPair_digits uppercase b
  simp only [hpair, List.mem_cons, List.not_mem_nil, or_false] at hc
  rcases hc with rfl | rfl
  · exact hhi
  · exact hlo

@[simp] theorem length_hexPair (b : UInt8) : (hexPair uppercase b).length = 2 := rfl

/-- A text that starts with a pair has no `x` second. -/
theorem getD_one_hexPair_append (b : UInt8) (t : List Char) : (hexPair uppercase b ++ t).getD 1 '\x00' ≠ 'x' := by
  have h := mem_hexPair uppercase (List.getElem_mem (l := hexPair uppercase b) (n := 1) (by simp))
  rw [List.getD_eq_getElem?_getD, List.getElem?_append_left (by simp), List.getElem?_eq_getElem (by simp),
    Option.getD_some]
  exact h.2

theorem length_sub_count_chunkToHex (bs : List UInt8) :
    (chunkToHex bs uppercase).length - (chunkToHex bs uppercase).count ':' = 2 * bs.length := by
  have hlen : (chunkToHex bs uppercase).length = 2 * bs.length := by
    induction bs with
    | nil => rfl
    | cons b bs ih =>
      rw [chunkToHex, List.flatMap_cons, List.length_append, length_hexPair, ← chunkToHex, ih, List.length_cons]
      omega
  have hcount : (chunkToHex bs uppercase).count ':' = 0 :=
    List.count_eq_zero.mpr fun hc => by
      obtain ⟨b, -, hb⟩ := List.mem_flatMap.mp hc
      exact (mem_hexPair uppercase hb).1 rfl
  rw [hcount, hlen, Nat.sub_zero]

theorem length_sub_count_colonHex :
    ∀ bs : List UInt8, (colonHex bs uppercase).length - (colonHex bs uppercase).count ':' = 2 * bs.length
  | [] => rfl
  | [b] => by
    have h := length_sub_count_chunkToHex uppercase [b]
    simpa [chunkToHex, colonHex] using h
  | b :: b' :: bs => by
    have ih := length_sub_count_colonHex (b' :: bs)
    have hle := List.count_le_length (a := ':') (l := colonHex (b' :: bs) uppercase)
    have hpair : (hexPair uppercase b).count ':' = 0 :=
      List.count_eq_zero.mpr fun hc => (mem_hexPair uppercase hc).1 rfl
    have htext : colonHex (b :: b' :: bs) uppercase = hexPair uppercase b ++ ':' :: colonHex (b' :: bs) uppercase := by
      simp [colonHex, List.intercalate_cons_cons]
    rw [htext, List.length_append, List.count_append, length_hexPair, hpair, List.length_cons, List.count_cons_self]
    simp only [List.length_cons] at ih ⊢
    omega

/-- Where the text does not start with `0x` and holds `2 n` digits besides its `:`,
`chunk_from_hex` reads `n` bytes over the whole text. -/
theorem chunkFromHex_eq_loop {hex : List Char} {n : ℕ} (hx : hex.getD 1 '\x00' ≠ 'x')
    (hlen : hex.length - hex.count ':' = 2 * n) : chunkFromHex hex = fromHexLoop false n hex.reverse [] := by
  have hodd : (2 * n % 2 == 1) = false := by simp
  simp only [chunkFromHex, hx, false_and, and_false, if_false, hlen, hodd, Bool.false_eq_true]
  congr 1
  omega

/-- Behind `0x` the same text is read. -/
theorem chunkFromHex_prefix_eq_loop {hex : List Char} {n : ℕ} (hlen : hex.length - hex.count ':' = 2 * n) :
    chunkFromHex ('0' :: 'x' :: hex) = fromHexLoop false n hex.reverse [] := by
  have hodd : (2 * n % 2 == 1) = false := by simp
  have hcond : ('0' :: 'x' :: hex).length > 1 ∧ ('0' :: 'x' :: hex).getD 1 '\x00' = 'x' ∧
      ('0' :: 'x' :: hex).getD 0 '\x00' = '0' := ⟨by simp, rfl, rfl⟩
  simp only [chunkFromHex, if_pos hcond, List.drop_succ_cons, List.drop_zero, hlen, hodd, Bool.false_eq_true,
    if_false]
  congr 1
  omega

theorem chunkFromHex_chunkToHex (c : List UInt8) : chunkFromHex (chunkToHex c uppercase) = c := by
  have hx : (chunkToHex c uppercase).getD 1 '\x00' ≠ 'x' := by
    cases c with
    | nil => show ([] : List Char).getD 1 '\x00' ≠ 'x'; decide
    | cons b c => exact getD_one_hexPair_append uppercase b _
  rw [chunkFromHex_eq_loop hx (length_sub_count_chunkToHex uppercase c)]
  simpa using fromHexLoop_chunkToHex uppercase 0 [] [] c

theorem chunkFromHex_colonHex (c : List UInt8) : chunkFromHex (colonHex c uppercase) = c := by
  have hx : (colonHex c uppercase).getD 1 '\x00' ≠ 'x' := by
    match c with
    | [] => show ([] : List Char).getD 1 '\x00' ≠ 'x'; decide
    | [b] => simpa [colonHex] using getD_one_hexPair_append uppercase b []
    | b :: b' :: c =>
      simpa [colonHex, List.intercalate_cons_cons] using getD_one_hexPair_append uppercase b _
  rw [chunkFromHex_eq_loop hx (length_sub_count_colonHex uppercase c)]
  simpa using fromHexLoop_colonHex uppercase 0 [] [] c

theorem chunkFromHex_prefixHex (c : List UInt8) : chunkFromHex ('0' :: 'x' :: chunkToHex c uppercase) = c := by
  rw [chunkFromHex_prefix_eq_loop (length_sub_count_chunkToHex uppercase c)]
  simpa using fromHexLoop_chunkToHex uppercase 0 [] [] c

end Hex

/-! ## 2. Base64 -/

/-- `b64digits`. -/
def b64digits : List Char :=
  ['A', 'B', 'C', 'D', 'E', 'F', 'G', 'H', 'I', 'J', 'K', 'L', 'M', 'N', 'O', 'P',
    'Q', 'R', 'S', 'T', 'U', 'V', 'W', 'X', 'Y', 'Z', 'a', 'b', 'c', 'd', 'e', 'f',
    'g', 'h', 'i', 'j', 'k', 'l', 'm', 'n', 'o', 'p', 'q', 'r', 's', 't', 'u', 'v',
    'w', 'x', 'y', 'z', '0', '1', '2', '3', '4', '5', '6', '7', '8', '9', '+', '/']

/-- `b64digits[x]`. -/
def b64 (x : UInt8) : Char := b64digits.getD x.toNat '\x00'

/-- `chunk_to_base64`: each group of three bytes as four digits of six bits; a last
group of one or two bytes ends the text with its digits and `=`. -/
def chunkToBase64 : List UInt8 → List Char
  | [] => []
  | [a] => [b64 (a >>> 2), b64 ((a &&& 0x03) <<< 4), '=', '=']
  | [a, b] => [b64 (a >>> 2), b64 (((a &&& 0x03) <<< 4) ||| (b >>> 4)), b64 ((b &&& 0x0F) <<< 2), '=']
  | a :: b :: c :: rest =>
    [b64 (a >>> 2), b64 (((a &&& 0x03) <<< 4) ||| (b >>> 4)), b64 (((b &&& 0x0F) <<< 2) ||| (c >>> 6)),
      b64 (c &&& 0x3F)] ++ chunkToBase64 rest

/-- `b642bin`: the value of a base64 digit of either alphabet, `0` for `=` and `-1` for
any other character. -/
def b642bin (b64 : Char) : ℤ :=
  if 'A' ≤ b64 ∧ b64 ≤ 'Z' then (b64.toNat : ℤ) - 'A'.toNat
  else if 'a' ≤ b64 ∧ b64 ≤ 'z' then ('Z'.toNat - 'A'.toNat + 1 : ℤ) + b64.toNat - 'a'.toNat
  else if '0' ≤ b64 ∧ b64 ≤ '9' then
    ('Z'.toNat - 'A'.toNat + 1 : ℤ) + ('z'.toNat - 'a'.toNat + 1) + b64.toNat - '0'.toNat
  else if b64 = '+' ∨ b64 = '-' then 62
  else if b64 = '/' ∨ b64 = '_' then 63
  else if b64 = '=' then 0
  else -1

/-- `byte[j] = b642bin(*pos++)`: the value as an `unsigned char`. -/
def b64Byte (c : Char) : UInt8 := UInt8.ofNat (b642bin c % 256).toNat

/-- `outlen` after one digit: a `=` takes one off while it is positive. -/
def padStep (outlen : ℕ) (c : Char) : ℕ := if c = '=' ∧ outlen > 0 then outlen - 1 else outlen

/-- The loop of `chunk_from_base64` over the `base64.len / 4` whole groups of four digits:
the bytes written to `buf`, and `outlen`. -/
def fromBase64Loop : List Char → ℕ → List UInt8 × ℕ
  | c0 :: c1 :: c2 :: c3 :: rest, outlen =>
    let outlen := padStep (padStep (padStep (padStep (outlen + 3) c0) c1) c2) c3
    let (b0, b1, b2, b3) := (b64Byte c0, b64Byte c1, b64Byte c2, b64Byte c3)
    let (buf, outlen) := fromBase64Loop rest outlen
    (((b0 <<< 2) ||| (b1 >>> 4)) :: ((b1 <<< 4) ||| (b2 >>> 2)) :: ((b2 <<< 6) ||| b3) :: buf, outlen)
  | _, outlen => ([], outlen)

/-- `chunk_from_base64`: the first `outlen` bytes of the buffer. -/
def chunkFromBase64 (base64 : List Char) : List UInt8 :=
  let (buf, outlen) := fromBase64Loop base64 0
  buf.take outlen

/-- Each digit of the table reads back as its index, and none is a `=`. -/
theorem b64Byte_b64digits : ∀ k < 64, b64Byte (b64digits.getD k '\x00') = UInt8.ofNat k ∧ b64digits.getD k '\x00' ≠ '=' := by
  decide

theorem b64Byte_b64 {x : UInt8} (hx : x.toNat < 64) : b64Byte (b64 x) = x ∧ b64 x ≠ '=' := by
  obtain ⟨h, hne⟩ := b64Byte_b64digits x.toNat hx
  exact ⟨by rw [b64, h, UInt8.ofNat_toNat], hne⟩

theorem b64Byte_pad : b64Byte '=' = 0 := by decide

/-- The four digits of a group of three bytes, as numbers: six bits each. -/
theorem toNat_digits (a b c : UInt8) :
    (a >>> 2).toNat = a.toNat / 4 ∧ (((a &&& 0x03) <<< 4) ||| (b >>> 4)).toNat = a.toNat % 4 * 16 + b.toNat / 16 ∧
      (((b &&& 0x0F) <<< 2) ||| (c >>> 6)).toNat = b.toNat % 16 * 4 + c.toNat / 64 ∧
      (c &&& 0x3F).toNat = c.toNat % 64 := by
  have ha := a.toNat_lt
  have hb4 : (b >>> 4).toNat = b.toNat / 2 ^ 4 := toNat_shiftRight_eq rfl (by decide) b
  have hc6 : (c >>> 6).toNat = c.toNat / 2 ^ 6 := toNat_shiftRight_eq rfl (by decide) c
  have hb := b.toNat_lt
  have hc := c.toNat_lt
  refine ⟨toNat_shiftRight_eq rfl (by decide) a, ?_, ?_, toNat_and_low (k := 6) rfl c⟩
  · rw [toNat_shiftLeft_or (k := 4) rfl (by decide) (by rw [hb4]; omega), toNat_and_low (k := 2) rfl, hb4]
    omega
  · rw [toNat_shiftLeft_or (k := 2) rfl (by decide) (by rw [hc6]; omega), toNat_and_low (k := 4) rfl, hc6]
    omega

/-- Four digits of six bits give back the three bytes they were cut from. -/
theorem bytes_of_digits {a b c x0 x1 x2 x3 : UInt8} (h0 : x0.toNat = a.toNat / 4)
    (h1 : x1.toNat = a.toNat % 4 * 16 + b.toNat / 16) (h2 : x2.toNat = b.toNat % 16 * 4 + c.toNat / 64)
    (h3 : x3.toNat = c.toNat % 64) :
    (x0 <<< 2) ||| (x1 >>> 4) = a ∧ (x1 <<< 4) ||| (x2 >>> 2) = b ∧ (x2 <<< 6) ||| x3 = c := by
  have ha := a.toNat_lt
  have hb := b.toNat_lt
  have hc := c.toNat_lt
  have hx1 : (x1 >>> 4).toNat = x1.toNat / 2 ^ 4 := toNat_shiftRight_eq rfl (by decide) x1
  have hx2 : (x2 >>> 2).toNat = x2.toNat / 2 ^ 2 := toNat_shiftRight_eq rfl (by decide) x2
  refine ⟨UInt8.toNat_inj.mp ?_, UInt8.toNat_inj.mp ?_, UInt8.toNat_inj.mp ?_⟩
  · rw [toNat_shiftLeft_or (k := 2) rfl (by decide) (by rw [hx1]; omega), hx1]
    omega
  · rw [toNat_shiftLeft_or (k := 4) rfl (by decide) (by rw [hx2]; omega), hx2]
    omega
  · rw [toNat_shiftLeft_or (k := 6) rfl (by decide) (by omega)]
    omega

/-- `chunk_from_base64` on the text of a chunk: the chunk's bytes, then bytes of the
padding that `outlen` does not count. -/
theorem fromBase64Loop_chunkToBase64 (outlen : ℕ) :
    ∀ c : List UInt8, ∃ junk, fromBase64Loop (chunkToBase64 c) outlen = (c ++ junk, outlen + c.length)
  | [] => ⟨[], by simp [chunkToBase64, fromBase64Loop]⟩
  | [a] => by
    -- the digits of the group `a, 0, 0`, and two `=` for the zero digits
    have ha := a.toNat_lt
    have h0 := (toNat_digits a 0 0).1
    have h1 : ((a &&& 0x03) <<< 4).toNat = a.toNat % 4 * 16 := by
      rw [toNat_shiftLeft_eq (k := 4) rfl (by decide), toNat_and_low (k := 2) rfl]
      omega
    have hd0 := b64Byte_b64 (x := a >>> 2) (by omega)
    have hd1 := b64Byte_b64 (x := (a &&& 0x03) <<< 4) (by omega)
    have h1' : ((a &&& 0x03) <<< 4).toNat = a.toNat % 4 * 16 + (0 : UInt8).toNat / 16 := by simp [h1]
    have hz2 : (0 : UInt8).toNat = (0 : UInt8).toNat % 16 * 4 + (0 : UInt8).toNat / 64 := rfl
    have hz3 : (0 : UInt8).toNat = (0 : UInt8).toNat % 64 := rfl
    obtain ⟨ha', -, -⟩ := bytes_of_digits h0 h1' hz2 hz3
    simp [chunkToBase64, fromBase64Loop, padStep, hd0, hd1, b64Byte_pad, ha']
  | [a, b] => by
    -- the digits of the group `a, b, 0`, and one `=` for the zero digit
    have hb := b.toNat_lt
    obtain ⟨h0, h1, -, -⟩ := toNat_digits a b 0
    have h2 : ((b &&& 0x0F) <<< 2).toNat = b.toNat % 16 * 4 := by
      rw [toNat_shiftLeft_eq (k := 2) rfl (by decide), toNat_and_low (k := 4) rfl]
      omega
    have hd0 := b64Byte_b64 (x := a >>> 2) (by have := a.toNat_lt; omega)
    have hd1 := b64Byte_b64 (x := ((a &&& 0x03) <<< 4) ||| (b >>> 4)) (by omega)
    have hd2 := b64Byte_b64 (x := (b &&& 0x0F) <<< 2) (by omega)
    have h2' : ((b &&& 0x0F) <<< 2).toNat = b.toNat % 16 * 4 + (0 : UInt8).toNat / 64 := by simp [h2]
    have hz3 : (0 : UInt8).toNat = (0 : UInt8).toNat % 64 := rfl
    obtain ⟨ha', hb', -⟩ := bytes_of_digits h0 h1 h2' hz3
    simp [chunkToBase64, fromBase64Loop, padStep, hd0, hd1, hd2, b64Byte_pad, ha', hb']
  | a :: b :: c :: rest => by
    obtain ⟨junk, hrest⟩ := fromBase64Loop_chunkToBase64 (outlen + 3) rest
    have ha := a.toNat_lt
    have hb := b.toNat_lt
    have hc := c.toNat_lt
    obtain ⟨h0, h1, h2, h3⟩ := toNat_digits a b c
    have hd0 := b64Byte_b64 (x := a >>> 2) (by omega)
    have hd1 := b64Byte_b64 (x := ((a &&& 0x03) <<< 4) ||| (b >>> 4)) (by omega)
    have hd2 := b64Byte_b64 (x := ((b &&& 0x0F) <<< 2) ||| (c >>> 6)) (by omega)
    have hd3 := b64Byte_b64 (x := c &&& 0x3F) (by omega)
    obtain ⟨ha, hb, hc⟩ := bytes_of_digits h0 h1 h2 h3
    refine ⟨junk, ?_⟩
    simp [chunkToBase64, fromBase64Loop, padStep, hd0, hd1, hd2, hd3, ha, hb, hc, hrest]
    omega

theorem chunkFromBase64_chunkToBase64 (c : List UInt8) : chunkFromBase64 (chunkToBase64 c) = c := by
  obtain ⟨junk, h⟩ := fromBase64Loop_chunkToBase64 0 c
  simp [chunkFromBase64, h]

end VpnClient.Utils
