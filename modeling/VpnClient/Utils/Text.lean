import Mathlib

/-!
# Tokens and numbers in C strings

`enumerator_create_token` of `libstrongswan/collections/enumerator.c` and the
`strtoul` of the C library, as `asn1_oid_from_string` reads a dotted OID with them. A C
string is the list of its characters before the terminating NUL.

The enumerator skips separators and trim characters before a token, so empty tokens
never appear, and reads a token in quotes up to the matching quote. On words that hold
no separator, trim character or quote, joined by separators, it gives back the words
(`tokens_join`). `strtoul` reads back every number printed in decimal
(`strtoul_toDigits`).
-/

namespace VpnClient.Utils

/-! ## `enumerator_create_token` -/

/-- A single quote, which starts a quoted token as a double quote does. -/
def singleQuote : Char := Char.ofNat 0x27

/-- The leading loop of `enumerate_token_enum`: trim characters and separators are
skipped, and after a trim character the separator check already looks at the next
character. -/
def skipLeading (sep trim : List Char) : List Char → List Char
  | [] => []
  | [c] => if c ∈ trim ∨ c ∈ sep then [] else [c]
  | c :: c' :: s =>
    if c ∈ trim then
      if c' ∈ sep then skipLeading sep trim s else skipLeading sep trim (c' :: s)
    else if c ∈ sep then skipLeading sep trim (c' :: s)
    else c :: c' :: s

/-- `enumerate_token_enum`: the next token and the rest of the string, `none` once no
token is left. A token in quotes runs to the matching quote. Any other runs to the
nearest separator, which is consumed, and loses its trailing trim characters; the last
one is not returned if nothing is left of it. -/
def nextToken (sep trim : List Char) (s : List Char) : Option (List Char × List Char) :=
  match skipLeading sep trim s with
  | [] => none
  | q :: t =>
    if (q = '"' ∨ q = singleQuote) ∧ q ∈ t then
      some (t.takeWhile (fun c => c != q), (t.dropWhile (fun c => c != q)).drop 1)
    else
      let token := ((q :: t).takeWhile (fun c => !sep.contains c)).rdropWhile trim.contains
      match (q :: t).dropWhile (fun c => !sep.contains c) with
      | [] => if token = [] then none else some (token, [])
      | _ :: rest => some (token, rest)

theorem length_skipLeading_le (sep trim : List Char) : ∀ s : List Char, (skipLeading sep trim s).length ≤ s.length
  | [] => le_rfl
  | [c] => by
    unfold skipLeading
    split <;> simp
  | c :: c' :: s => by
    have h1 := length_skipLeading_le sep trim s
    have h2 := length_skipLeading_le sep trim (c' :: s)
    simp only [List.length_cons] at h2
    unfold skipLeading
    split_ifs
    · simp only [List.length_cons]
      omega
    · simp only [List.length_cons]
      omega
    · simp only [List.length_cons]
      omega
    · exact le_rfl

/-- Every token consumes part of the string, so the enumeration ends. -/
theorem length_lt_of_nextToken {sep trim s token rest : List Char}
    (h : nextToken sep trim s = some (token, rest)) : rest.length < s.length := by
  have hskip := length_skipLeading_le sep trim s
  unfold nextToken at h
  split at h
  · cases h
  · next q t hst =>
    rw [hst, List.length_cons] at hskip
    split at h
    · -- the quoted token: the rest lies after the closing quote
      cases h
      have := (List.dropWhile_suffix (fun c => c != q) (l := t)).length_le
      simp only [List.length_drop]
      omega
    · dsimp only at h
      split at h
      · split at h
        · cases h
        · cases h
          simp only [List.length_nil]
          omega
      · next rest' hdrop =>
        cases h
        have := (List.dropWhile_suffix (fun c => !sep.contains c) (l := q :: t)).length_le
        rw [hdrop, List.length_cons, List.length_cons] at this
        omega

/-- The tokens `enumerator_create_token` enumerates, in order. -/
def tokens (sep trim : List Char) (s : List Char) : List (List Char) :=
  match _h : nextToken sep trim s with
  | none => []
  | some (token, rest) => token :: tokens sep trim rest
termination_by s.length
decreasing_by exact length_lt_of_nextToken _h

theorem tokens_of_nextToken_none {sep trim s : List Char} (h : nextToken sep trim s = none) :
    tokens sep trim s = [] := by
  rw [tokens]
  split <;> simp_all

theorem tokens_of_nextToken_some {sep trim s token rest : List Char}
    (h : nextToken sep trim s = some (token, rest)) : tokens sep trim s = token :: tokens sep trim rest := by
  rw [tokens]
  split <;> simp_all

/-- A word the enumerator reads as one token: not empty, and without separators, trim
characters or quotes. -/
def PlainWord (sep trim w : List Char) : Prop :=
  w ≠ [] ∧ ∀ c ∈ w, c ∉ sep ∧ c ∉ trim ∧ c ≠ '"' ∧ c ≠ singleQuote

section PlainWord

variable {sep trim w : List Char}

theorem skipLeading_of_plain {c : Char} (hs : c ∉ sep) (ht : c ∉ trim) (s : List Char) :
    skipLeading sep trim (c :: s) = c :: s := by
  cases s <;> simp [skipLeading, hs, ht]

/-- A plain word, then nothing or a separator: the word is the next token. -/
theorem nextToken_plain (hw : PlainWord sep trim w) {rest : List Char}
    (hrest : rest = [] ∨ ∃ s ∈ sep, ∃ r, rest = s :: r) :
    nextToken sep trim (w ++ rest) = some (w, rest.drop 1) := by
  obtain ⟨hne, hc⟩ := hw
  obtain ⟨q, t, rfl⟩ := List.exists_cons_of_ne_nil hne
  obtain ⟨hqs, hqt, hq1, hq2⟩ := hc q List.mem_cons_self
  have hall : ∀ c ∈ q :: t, (!sep.contains c) = true := fun c hc' => by simpa using (hc c hc').1
  have htake : (q :: t ++ rest).takeWhile (fun c => !sep.contains c) = q :: t := by
    rw [List.takeWhile_append_of_pos hall]
    rcases hrest with rfl | ⟨s, hs, r, rfl⟩
    · simp
    · simp [hs]
  have hdrop : (q :: t ++ rest).dropWhile (fun c => !sep.contains c) = rest := by
    rw [List.dropWhile_append_of_pos hall]
    rcases hrest with rfl | ⟨s, hs, r, rfl⟩
    · simp
    · simp [hs]
  -- no trailing trim character to cut: the last character of the word is plain
  have htrim : (q :: t).rdropWhile trim.contains = q :: t := by
    rw [List.rdropWhile_eq_self_iff]
    intro hl
    simpa using (hc _ (List.getLast_mem hl)).2.1
  unfold nextToken
  rw [List.cons_append, skipLeading_of_plain hqs hqt]
  dsimp only
  rw [if_neg (by simp [hq1, hq2]), ← List.cons_append, htake, htrim, hdrop]
  rcases hrest with rfl | ⟨s, hs, r, rfl⟩
  · simp
  · simp

theorem tokens_nil (sep trim : List Char) : tokens sep trim [] = [] :=
  tokens_of_nextToken_none (by simp [nextToken, skipLeading])

/-- **Joined words are enumerated back**: words that hold no separator, trim character
or quote, joined by a separator, are the tokens of the joined string. -/
theorem tokens_join {s : Char} (hs : s ∈ sep) :
    ∀ (w : List Char) (ws : List (List Char)), PlainWord sep trim w → (∀ v ∈ ws, PlainWord sep trim v) →
      tokens sep trim (w ++ ws.flatMap (s :: ·)) = w :: ws
  | w, [], hw, _ => by
    rw [List.flatMap_nil, tokens_of_nextToken_some (nextToken_plain hw (.inl rfl)), List.drop_nil, tokens_nil]
  | w, v :: vs, hw, hvs => by
    rw [List.flatMap_cons, List.cons_append, tokens_of_nextToken_some (nextToken_plain hw (.inr ⟨s, hs, _, rfl⟩)),
      List.drop_one, List.tail_cons, tokens_join hs v vs (hvs v List.mem_cons_self)
        (fun u hu => hvs u (List.mem_cons_of_mem v hu))]

end PlainWord

/-! ## `strtoul` -/

/-- The white space of C's `isspace`. -/
def isSpace (c : Char) : Bool :=
  c == ' ' || c == '\t' || c == '\n' || c == '\x0b' || c == '\x0c' || c == '\r'

/-- `ULONG_MAX` of a 64-bit `unsigned long`. -/
def ulongMax : ℕ := 2 ^ 64 - 1

/-- The sign `strtoul` takes before the digits. -/
def takeSign : List Char → Bool × List Char
  | '-' :: t => (true, t)
  | '+' :: t => (false, t)
  | t => (false, t)

/-- `strtoul(str, &end, 10)`: white space, a sign and the longest run of decimal digits.
Out of range the value is `ULONG_MAX`, and a minus sign negates it modulo `2 ^ 64`;
`none` is `end == str`, no digit read. -/
def strtoul (str : List Char) : Option ℕ :=
  let (neg, s) := takeSign (str.dropWhile isSpace)
  let digits := s.takeWhile Char.isDigit
  if digits = [] then none
  else
    let v := Nat.ofDigitChars 10 digits 0
    some (if v > ulongMax then ulongMax else if neg then (2 ^ 64 - v) % 2 ^ 64 else v)

theorem isSpace_of_isDigit {c : Char} (h : c.isDigit) : isSpace c = false := by
  simp only [Char.isDigit, Bool.and_eq_true, decide_eq_true_eq] at h
  have hne : ∀ d : Char, d.val < 48 → (c == d) = false := by
    intro d hd
    rw [beq_eq_false_iff_ne]
    rintro rfl
    exact absurd h.1 (by rw [UInt32.not_le]; exact hd)
  simp [isSpace, hne ' ' (by decide), hne '\t' (by decide), hne '\n' (by decide), hne '\x0b' (by decide),
    hne '\x0c' (by decide), hne '\r' (by decide)]

/-- A decimal digit is one of the code points 48 to 57. -/
theorem toNat_of_isDigit {c : Char} (h : c.isDigit) : 48 ≤ c.toNat ∧ c.toNat ≤ 57 := by
  simp only [Char.isDigit, Bool.and_eq_true, decide_eq_true_eq] at h
  exact ⟨UInt32.le_iff_toNat_le.mp h.1, UInt32.le_iff_toNat_le.mp h.2⟩

theorem isDigit_of_mem_toDigits {n : ℕ} {c : Char} (h : c ∈ Nat.toDigits 10 n) : c.isDigit :=
  Nat.isDigit_of_mem_toDigits (by decide) (by decide) h

/-- **`strtoul` reads a number printed in decimal.** -/
theorem strtoul_toDigits {n : ℕ} (h : n ≤ ulongMax) : strtoul (Nat.toDigits 10 n) = some n := by
  obtain ⟨d, ds, hd⟩ := List.exists_cons_of_ne_nil (Nat.toDigits_ne_nil (n := n) (b := 10))
  have hdigit : ∀ c ∈ Nat.toDigits 10 n, c.isDigit = true := fun c hc => isDigit_of_mem_toDigits hc
  have hd0 : d.isDigit = true := hdigit d (by rw [hd]; exact List.mem_cons_self)
  -- the first digit is neither white space nor a sign
  have hspace : (Nat.toDigits 10 n).dropWhile isSpace = Nat.toDigits 10 n := by
    rw [hd, List.dropWhile_cons_of_neg (by simp [isSpace_of_isDigit hd0])]
  have hsign : takeSign (Nat.toDigits 10 n) = (false, Nat.toDigits 10 n) := by
    rw [hd]
    unfold takeSign
    split
    · next t he => simp at he; rw [he.1] at hd0; exact absurd hd0 (by decide)
    · next t he => simp at he; rw [he.1] at hd0; exact absurd hd0 (by decide)
    · rfl
  have htake : (Nat.toDigits 10 n).takeWhile Char.isDigit = Nat.toDigits 10 n :=
    List.takeWhile_eq_self_iff.mpr hdigit
  simp only [strtoul, hspace, hsign, htake, Nat.ofDigitChars_ten_toDigits, if_neg Nat.toDigits_ne_nil,
    if_neg (Nat.not_lt.mpr h), Bool.false_eq_true, if_false]

/-! ## `sscanf` and `printf` of decimal numbers -/

/-- The digits of a `%d` conversion of `sscanf`: at most `width` characters, all decimal
digits, and at least one. -/
def scanDigits (width : ℕ) (s : List Char) : Option (ℤ × List Char) :=
  let digits := (s.take width).takeWhile Char.isDigit
  if digits = [] then none else some (Nat.ofDigitChars 10 digits 0, s.drop digits.length)

/-- A `%<width>d` conversion of `sscanf`: white space, which the width does not count, then
a sign and decimal digits, at most `width` characters of them. `none` is a matching
failure, also for a sign with no digit after it. -/
def scanInt (width : ℕ) (s : List Char) : Option (ℤ × List Char) :=
  match s.dropWhile isSpace with
  | '-' :: t => (scanDigits (width - 1) t).map fun r => (-r.1, r.2)
  | '+' :: t => scanDigits (width - 1) t
  | t => scanDigits width t

/-- `sscanf(str, "%<w₁>d%<w₂>d...")`: the values of the conversions up to the first that
fails. Their number is what `sscanf` returns, except that it returns `EOF` rather than 0
when the input ends before the first conversion; the callers only compare it with the
number of conversions. -/
def sscanf : List ℕ → List Char → List ℤ
  | [], _ => []
  | width :: widths, s =>
    match scanInt width s with
    | some (v, rest) => v :: sscanf widths rest
    | none => []

/-- `n` in decimal, with zeros before it up to `width` digits. -/
def padded (width n : ℕ) : List Char :=
  List.replicate (width - (Nat.toDigits 10 n).length) '0' ++ Nat.toDigits 10 n

/-- A `%0<width>d` conversion of `printf`: the sign, then the digits with zeros before them
up to `width` characters in all. -/
def printInt (width : ℕ) (v : ℤ) : List Char :=
  if v < 0 then '-' :: padded (width - 1) v.natAbs else padded width v.natAbs

/-- The characters of a chunk: C's `char` is a byte. -/
def charsOf (chunk : List UInt8) : List Char := chunk.map fun b => Char.ofNat b.toNat

/-- The bytes of a C string. -/
def bytesOf (s : List Char) : List UInt8 := s.map fun c => UInt8.ofNat c.toNat

theorem printInt_of_nonneg {v : ℤ} (h : 0 ≤ v) (width : ℕ) : printInt width v = padded width v.toNat := by
  rw [printInt, if_neg (Int.not_lt.mpr h)]
  congr 1
  omega

theorem isDigit_of_mem_padded {width n : ℕ} {c : Char} (h : c ∈ padded width n) : c.isDigit := by
  rcases List.mem_append.mp h with h | h
  · rw [List.eq_of_mem_replicate h]
    decide
  · exact isDigit_of_mem_toDigits h

theorem length_padded {width n : ℕ} (hw : 0 < width) (h : n < 10 ^ width) : (padded width n).length = width := by
  have := (Nat.length_toDigits_le_iff (by decide) hw).mpr h
  simp only [padded, List.length_append, List.length_replicate]
  omega

theorem ofDigitChars_padded (width n : ℕ) : Nat.ofDigitChars 10 (padded width n) 0 = n := by
  rw [padded, Nat.ofDigitChars_append, Nat.ofDigitChars_replicate_zero, Nat.mul_zero,
    Nat.ofDigitChars_ten_toDigits]

/-- **`%<width>d` reads back a number printed in `width` digits**, whatever follows it. -/
theorem scanInt_padded {width n : ℕ} (hw : 0 < width) (h : n < 10 ^ width) (rest : List Char) :
    scanInt width (padded width n ++ rest) = some ((n : ℤ), rest) := by
  have hlen := length_padded hw h
  obtain ⟨c, cs, hc⟩ := List.exists_cons_of_length_pos (by omega : 0 < (padded width n).length)
  have hdigit : c.isDigit := isDigit_of_mem_padded (hc ▸ List.mem_cons_self)
  -- the first character is a digit: no white space and no sign
  have hspace : (padded width n ++ rest).dropWhile isSpace = padded width n ++ rest := by
    rw [hc, List.cons_append, List.dropWhile_cons_of_neg (by simp [isSpace_of_isDigit hdigit])]
  have htake : ((padded width n ++ rest).take width).takeWhile Char.isDigit = padded width n := by
    rw [List.take_left' hlen, List.takeWhile_eq_self_iff]
    exact fun c hc => isDigit_of_mem_padded hc
  have hdigits : scanDigits width (padded width n ++ rest) = some ((n : ℤ), rest) := by
    rw [scanDigits, htake, if_neg (by rw [hc]; exact List.cons_ne_nil c cs), ofDigitChars_padded,
      List.drop_left]
  rw [scanInt, hspace]
  split
  · next t he => rw [hc, List.cons_append, List.cons.injEq] at he; exact absurd (he.1 ▸ hdigit) (by decide)
  · next t he => rw [hc, List.cons_append, List.cons.injEq] at he; exact absurd (he.1 ▸ hdigit) (by decide)
  · exact hdigits

theorem sscanf_padded {width n : ℕ} (hw : 0 < width) (h : n < 10 ^ width) (widths : List ℕ) (rest : List Char) :
    sscanf (width :: widths) (padded width n ++ rest) = (n : ℤ) :: sscanf widths rest := by
  rw [sscanf, scanInt_padded hw h]

/-- A string of bytes read back as characters. -/
theorem charsOf_bytesOf {s : List Char} (h : ∀ c ∈ s, c.toNat < 256) : charsOf (bytesOf s) = s := by
  rw [charsOf, bytesOf, List.map_map]
  conv_rhs => rw [← List.map_id' s]
  refine List.map_congr_left fun c hc => ?_
  simp only [Function.comp, UInt8.toNat_ofNat', Nat.mod_eq_of_lt (h c hc), Char.ofNat_toNat]

/-! ## `isprint` and `chunk_printable` -/

/-- `isprint` of the C locale. -/
def isPrint (c : UInt8) : Bool := 0x20 ≤ c && c ≤ 0x7e

/-- The copy `chunk_printable` writes to `sane`: every byte that is not printable
replaced by `replace`. -/
def chunkPrintable (chunk : List UInt8) (replace : UInt8) : List UInt8 :=
  chunk.map fun c => if isPrint c then c else replace

theorem chunkPrintable_of_isPrint {chunk : List UInt8} (h : ∀ c ∈ chunk, isPrint c = true)
    (replace : UInt8) : chunkPrintable chunk replace = chunk := by
  conv_rhs => rw [← List.map_id' chunk]
  exact List.map_congr_left fun c hc => if_pos (h c hc)

end VpnClient.Utils
