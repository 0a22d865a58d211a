import VpnClient.Lib.Bytes

/-!
# ASN.1 DER objects

`asn1_unwrap` of `libstrongswan/asn1/asn1.c`: the tag of the object at the start of a
blob, its contents and the bytes after it, for a length in one octet or in up to
`sizeof(size_t)` octets after a count octet. A blob too short for its length gives
`ASN1_INVALID`, here none.

`asn1_length` is the second decoder of the same header. It makes the same checks, so
it fails where `asn1_unwrap` fails and otherwise returns the length of the contents
`asn1_unwrap` cuts (`asn1Length_of_asn1Unwrap`). Its error value `ASN1_INVALID_LENGTH`
is a length as well, `0xffffffff`, so a blob that holds that many bytes of contents
reads as malformed (`asn1Length_invalid_of_unwrap`).

The builders write the DER length octets of X.690 for every length below `2 ^ 24`
(`asn1CodeLength_der`). `asn1_unwrap` reads every such header back
(`asn1Unwrap_der`), so a built object unwraps to its tag and contents, with the rest of
the blob left after it. `asn1_integer` and `asn1_integer_from_uint64` write a 64-bit
number that `asn1_parse_integer_uint64` reads back.
-/

namespace VpnClient.Identity

open VpnClient.Lib Bytes

/-- `ASN1_OID`. -/
def asn1Oid : UInt8 := 0x06

/-- `ASN1_UTF8STRING`. -/
def asn1Utf8string : UInt8 := 0x0C

/-- `ASN1_PRINTABLESTRING`. -/
def asn1Printablestring : UInt8 := 0x13

/-- `ASN1_IA5STRING`. -/
def asn1Ia5string : UInt8 := 0x16

/-- `ASN1_SEQUENCE`. -/
def asn1Sequence : UInt8 := 0x30

/-- `ASN1_SET`. -/
def asn1Set : UInt8 := 0x31

/-- `sizeof(res.len)`: a `size_t` of a 64-bit platform. -/
def sizeofSizeT : ℕ := 8

/-- The last step of `asn1_unwrap`: `len` bytes of contents, if the blob holds them. -/
def asn1Contents (type : UInt8) (len : ℕ) (blob : List UInt8) :
    Option (UInt8 × List UInt8 × List UInt8) :=
  if len > blob.length then none else some (type, blob.take len, blob.drop len)

/-- `asn1_unwrap`: the tag, the contents and the rest of the blob. -/
def asn1Unwrap : List UInt8 → Option (UInt8 × List UInt8 × List UInt8)
  | type :: len :: blob =>
    if len &&& 0x80 = 0 then asn1Contents type len.toNat blob
    else
      -- composite length: the number of length octets, then the length, big-endian
      let n := (len &&& 0x7f).toNat
      if n = 0 ∨ n > blob.length ∨ n > sizeofSizeT then none
      else asn1Contents type (value (blob.take n)) (blob.drop n)
  | _ => none

/-! ## The two length decoders -/

/-- `ASN1_INVALID_LENGTH`. -/
def asn1InvalidLength : ℕ := 0xffffffff

/-- `asn1_length`: the length of the object at the start of the blob, and the blob
after the tag and the length octets it read. A malformed header gives
`ASN1_INVALID_LENGTH` and leaves the blob where the check failed. -/
def asn1Length : List UInt8 → ℕ × List UInt8
  | _ :: n :: blob =>
    if n &&& 0x80 = 0 then
      -- single length octet
      (if n.toNat > blob.length then asn1InvalidLength else n.toNat, blob)
    else
      let n := (n &&& 0x7f).toNat
      if n = 0 ∨ n > blob.length then (asn1InvalidLength, blob)
      else if n > sizeofSizeT then (asn1InvalidLength, blob)
      else
        let len := value (blob.take n)
        (if len > (blob.drop n).length then asn1InvalidLength else len, blob.drop n)
  | blob => (asn1InvalidLength, blob)

theorem asn1Contents_eq_some {type t : UInt8} {len : ℕ} {blob inner rest : List UInt8} :
    asn1Contents type len blob = some (t, inner, rest) ↔
      len ≤ blob.length ∧ t = type ∧ inner = blob.take len ∧ rest = blob.drop len := by
  unfold asn1Contents
  split
  · simp only [reduceCtorEq, false_iff]
    omega
  · simp only [Option.some.injEq, Prod.mk.injEq]
    constructor
    · rintro ⟨rfl, rfl, rfl⟩
      exact ⟨by omega, rfl, rfl, rfl⟩
    · rintro ⟨-, rfl, rfl, rfl⟩
      exact ⟨rfl, rfl, rfl⟩

theorem asn1Contents_eq_none {type : UInt8} {len : ℕ} {blob : List UInt8} :
    asn1Contents type len blob = none ↔ len > blob.length := by
  unfold asn1Contents
  split <;> simp_all

/-- The contents and the rest are cut where the length says. -/
theorem asn1Contents_append (type : UInt8) (c r : List UInt8) :
    asn1Contents type c.length (c ++ r) = some (type, c, r) :=
  asn1Contents_eq_some.mpr ⟨by simp, rfl, by simp, by simp⟩

/-- What `asn1_length` reads when `asn1_unwrap` succeeds: the length of the contents,
with the blob left at them. -/
theorem asn1Length_of_asn1Unwrap {blob inner rest : List UInt8} {type : UInt8}
    (h : asn1Unwrap blob = some (type, inner, rest)) : asn1Length blob = (inner.length, inner ++ rest) := by
  match blob, h with
  | t :: n :: blob, h =>
    simp only [asn1Unwrap] at h
    simp only [asn1Length]
    by_cases hs : n &&& 0x80 = 0
    · -- single length octet: both read `n` and check it against the same blob
      rw [if_pos hs] at h ⊢
      obtain ⟨hle, -, rfl, rfl⟩ := asn1Contents_eq_some.mp h
      rw [if_neg (by omega), List.take_append_drop, List.length_take_of_le hle]
    · rw [if_neg hs] at h ⊢
      split at h
      · cases h
      · next hok =>
        -- composite length: the same octets are read, and the same check follows
        obtain ⟨hle, -, rfl, rfl⟩ := asn1Contents_eq_some.mp h
        have h1 : ¬((n &&& 0x7f).toNat = 0 ∨ (n &&& 0x7f).toNat > blob.length) := by omega
        have h2 : ¬(n &&& 0x7f).toNat > sizeofSizeT := by omega
        rw [if_neg h1, if_neg h2, if_neg (by omega), List.take_append_drop, List.length_take_of_le hle]

/-- Where `asn1_unwrap` fails, `asn1_length` fails. -/
theorem asn1Length_of_asn1Unwrap_none {blob : List UInt8} (h : asn1Unwrap blob = none) :
    (asn1Length blob).1 = asn1InvalidLength := by
  match blob, h with
  | [], _ => rfl
  | [_], _ => rfl
  | t :: n :: blob, h =>
    simp only [asn1Unwrap] at h
    simp only [asn1Length]
    by_cases hs : n &&& 0x80 = 0
    · rw [if_pos hs] at h ⊢
      rw [if_pos (asn1Contents_eq_none.mp h)]
    · rw [if_neg hs] at h ⊢
      split at h
      · next hbad =>
        -- the three header checks of `asn1_unwrap` are the two of `asn1_length`
        by_cases h1 : (n &&& 0x7f).toNat = 0 ∨ (n &&& 0x7f).toNat > blob.length
        · rw [if_pos h1]
        · have h2 : (n &&& 0x7f).toNat > sizeofSizeT := by omega
          rw [if_neg h1, if_pos h2]
      · next hok =>
        have h1 : ¬((n &&& 0x7f).toNat = 0 ∨ (n &&& 0x7f).toNat > blob.length) := by omega
        have h2 : ¬(n &&& 0x7f).toNat > sizeofSizeT := by omega
        rw [if_neg h1, if_neg h2, if_pos (asn1Contents_eq_none.mp h)]

/-- A blob with a four-octet length of `0xffffffff` and as many bytes of contents. -/
theorem asn1Unwrap_length_ffffffff (type : UInt8) (c : List UInt8) (hc : c.length = 0xffffffff) :
    asn1Unwrap ([type, 0x84, 0xff, 0xff, 0xff, 0xff] ++ c) = some (type, c, []) := by
  have hv : value [0xff, 0xff, 0xff, 0xff] = 0xffffffff := by decide
  have hn : ((0x84 : UInt8) &&& 0x7f).toNat = 4 := by decide
  have h := asn1Contents_append type c []
  rw [List.append_nil, hc] at h
  simp only [asn1Unwrap, List.cons_append, List.nil_append]
  rw [if_neg (by decide), hn, if_neg (by simp [sizeofSizeT, hc])]
  simpa only [List.take_succ_cons, List.take_zero, List.drop_succ_cons, List.drop_zero, hv] using h

/-- **The error value is a length.** A blob whose contents are `0xffffffff` bytes long
unwraps, and `asn1_length` then returns `ASN1_INVALID_LENGTH` for it: its caller cannot
tell that length from a malformed header. -/
theorem asn1Length_invalid_of_unwrap :
    asn1Unwrap ([0x04, 0x84, 0xff, 0xff, 0xff, 0xff] ++ List.replicate 0xffffffff 0) =
        some (0x04, List.replicate 0xffffffff 0, []) ∧
      (asn1Length ([0x04, 0x84, 0xff, 0xff, 0xff, 0xff] ++ List.replicate 0xffffffff 0)).1 = asn1InvalidLength := by
  have hu := asn1Unwrap_length_ffffffff 0x04 (List.replicate 0xffffffff 0) List.length_replicate
  refine ⟨hu, ?_⟩
  rw [asn1Length_of_asn1Unwrap hu, List.length_replicate]
  rfl

/-! ## Building objects -/

/-- `asn1_code_length`: the length octets of an object, for lengths below `2 ^ 24`;
the octets past the first are cut to bytes. -/
def asn1CodeLength (length : ℕ) : List UInt8 :=
  if length < 128 then [UInt8.ofNat length]
  else if length < 256 then [0x81, UInt8.ofNat length]
  else if length < 65536 then [0x82, UInt8.ofNat (length >>> 8), UInt8.ofNat (length &&& 0x00ff)]
  else
    [0x83, UInt8.ofNat (length >>> 16), UInt8.ofNat ((length >>> 8) &&& 0x00ff),
      UInt8.ofNat (length &&& 0x0000ff)]

/-- `asn1_build_object`: the tag and the length octets of an object with `datalen`
bytes of contents, which the caller writes after them. -/
def asn1BuildObject (type : UInt8) (datalen : ℕ) : List UInt8 := type :: asn1CodeLength datalen

/-- `asn1_simple_object`. -/
def asn1SimpleObject (tag : UInt8) (content : List UInt8) : List UInt8 :=
  asn1BuildObject tag content.length ++ content

/-- The DER length octets of X.690 (10.1, 8.1.3): one octet below 128; above, a count
octet `0x80 + k` and the length in `k` octets, the first of them not zero, so that no
shorter encoding exists. -/
def DerLengthOctets (length : ℕ) (code : List UInt8) : Prop :=
  (length < 128 ∧ code = [UInt8.ofNat length]) ∨
    (128 ≤ length ∧ ∃ bs : List UInt8, code = UInt8.ofNat (0x80 + bs.length) :: bs ∧ bs.length ≤ sizeofSizeT ∧
      value bs = length ∧ bs.head? ≠ some 0)

theorem ofNat_ne_zero {n : ℕ} (h : 0 < n % 256) : UInt8.ofNat n ≠ 0 := by
  intro h0
  have := congrArg UInt8.toNat h0
  rw [UInt8.toNat_ofNat'] at this
  simp only [UInt8.toNat_zero] at this
  omega

theorem toNat_ofNat_shiftRight_mod (length k : ℕ) :
    (UInt8.ofNat (length >>> k)).toNat = length / 2 ^ k % 256 := by
  rw [UInt8.toNat_ofNat', Nat.shiftRight_eq_div_pow]

theorem toNat_ofNat_and_ff (length : ℕ) : (UInt8.ofNat (length &&& 0x00ff)).toNat = length % 256 := by
  rw [UInt8.toNat_ofNat', show (0x00ff : ℕ) = 2 ^ 8 - 1 from rfl, Nat.and_two_pow_sub_one_eq_mod]
  omega

/-- `asn1_code_length` writes the DER length octets. -/
theorem asn1CodeLength_der {length : ℕ} (h : length < 2 ^ 24) :
    DerLengthOctets length (asn1CodeLength length) := by
  unfold asn1CodeLength DerLengthOctets
  by_cases h1 : length < 128
  · exact .inl ⟨h1, by rw [if_pos h1]⟩
  refine .inr ⟨by omega, ?_⟩
  rw [if_neg h1]
  by_cases h2 : length < 256
  · -- one octet of length
    rw [if_pos h2]
    refine ⟨[UInt8.ofNat length], rfl, by simp [sizeofSizeT], ?_, ?_⟩
    · simp only [value_cons, UInt8.toNat_ofNat', value_nil, List.length_nil]
      omega
    · simpa using ofNat_ne_zero (by omega)
  rw [if_neg h2]
  by_cases h3 : length < 65536
  · -- two octets
    rw [if_pos h3]
    refine ⟨[UInt8.ofNat (length >>> 8), UInt8.ofNat (length &&& 0x00ff)], rfl, by simp [sizeofSizeT], ?_, ?_⟩
    · simp only [value_cons, toNat_ofNat_shiftRight_mod, toNat_ofNat_and_ff, value_nil, List.length_cons,
        List.length_nil]
      omega
    · simpa using ofNat_ne_zero (by rw [Nat.shiftRight_eq_div_pow]; omega)
  · -- three octets
    rw [if_neg h3]
    refine ⟨[UInt8.ofNat (length >>> 16), UInt8.ofNat ((length >>> 8) &&& 0x00ff),
      UInt8.ofNat (length &&& 0x0000ff)], rfl, by simp [sizeofSizeT], ?_, ?_⟩
    · have hmid : (UInt8.ofNat ((length >>> 8) &&& 0x00ff)).toNat = length / 2 ^ 8 % 256 := by
        rw [toNat_ofNat_and_ff, Nat.shiftRight_eq_div_pow]
      simp only [value_cons, toNat_ofNat_shiftRight_mod, hmid, toNat_ofNat_and_ff, value_nil,
        List.length_cons, List.length_nil]
      omega
    · simpa using ofNat_ne_zero (by rw [Nat.shiftRight_eq_div_pow]; omega)

/-- `asn1_unwrap` reads DER length octets back: the contents are cut at the length they
encode, whatever follows them. -/
theorem asn1Unwrap_der {length : ℕ} {code : List UInt8} (hcode : DerLengthOctets length code)
    (type : UInt8) (blob : List UInt8) :
    asn1Unwrap (type :: (code ++ blob)) = asn1Contents type length blob := by
  rcases hcode with ⟨hlt, rfl⟩ | ⟨hge, bs, rfl, hk, hv, -⟩
  · -- the short form: one octet with its top bit clear
    have hn : (UInt8.ofNat length).toNat = length := by
      rw [UInt8.toNat_ofNat']
      omega
    simp only [List.cons_append, List.nil_append, asn1Unwrap]
    rw [if_pos ((Bits.and_0x80_eq_zero_iff _).mpr (by omega)), hn]
  · -- the long form: the count octet, then as many octets of the length
    have hk' : bs.length ≤ 8 := hk
    have hc : (UInt8.ofNat (0x80 + bs.length)).toNat = 128 + bs.length := by
      rw [UInt8.toNat_ofNat']
      omega
    have hn : (UInt8.ofNat (0x80 + bs.length) &&& 0x7f).toNat = bs.length := by
      rw [Bits.toNat_and_0x7f, hc]
      omega
    have hpos : 0 < bs.length := by
      rcases bs with _ | ⟨b, bs⟩
      · simp only [value_nil] at hv
        omega
      · simp
    have hcount : ¬(bs.length = 0 ∨ bs.length > (bs ++ blob).length ∨ bs.length > sizeofSizeT) := by
      simp only [List.length_append, sizeofSizeT]
      omega
    simp only [List.cons_append, asn1Unwrap]
    rw [if_neg (by rw [Bits.and_0x80_eq_zero_iff, hc]; omega), hn, if_neg hcount, List.take_left' rfl,
      List.drop_left' rfl, hv]

/-- **An object built is unwrapped**, with its tag, its contents and whatever follows it. -/
theorem asn1Unwrap_simpleObject (tag : UInt8) {content : List UInt8} (h : content.length < 2 ^ 24)
    (rest : List UInt8) : asn1Unwrap (asn1SimpleObject tag content ++ rest) = some (tag, content, rest) := by
  rw [asn1SimpleObject, asn1BuildObject, List.append_assoc, List.cons_append,
    asn1Unwrap_der (asn1CodeLength_der h), asn1Contents_append]

/-- `asn1_wrap`: an object around the chunks one after another. Whether each chunk is
copied, moved or cleared (`mode`) changes no byte. -/
def asn1Wrap (type : UInt8) (chunks : List (List UInt8)) : List UInt8 :=
  asn1BuildObject type (chunks.map List.length).sum ++ chunks.flatten

theorem asn1Wrap_eq (type : UInt8) (chunks : List (List UInt8)) :
    asn1Wrap type chunks = asn1SimpleObject type chunks.flatten := by
  rw [asn1Wrap, asn1SimpleObject, List.length_flatten]

theorem length_asn1CodeLength_le (length : ℕ) : (asn1CodeLength length).length ≤ 4 := by
  unfold asn1CodeLength
  split_ifs <;> simp

theorem length_asn1SimpleObject_le (tag : UInt8) (content : List UInt8) :
    (asn1SimpleObject tag content).length ≤ content.length + 5 := by
  have := length_asn1CodeLength_le content.length
  simp only [asn1SimpleObject, asn1BuildObject, List.length_append, List.length_cons]
  omega

/-- `printablestring_charset`, with the apostrophe given by its code. -/
def printablestringCharset : List Char :=
  "ABCDEFGHIJKLMNOPQRSTUVWXYZabcdefghijklmnopqrstuvwxyz0123456789 ".toList ++ [Char.ofNat 0x27] ++
    "()+,-./:=?".toList

/-- `asn1_is_printablestring`: every byte is in the charset, where `strchr` also finds
the terminating `NUL`. -/
def asn1IsPrintablestring (str : List UInt8) : Bool :=
  str.all fun c => c == 0 || printablestringCharset.contains (Char.ofNat c.toNat)

/-! ## Integers -/

/-- `ASN1_INTEGER`. -/
def asn1IntegerTag : UInt8 := 0x02

/-- `asn1_integer`: an INTEGER around contents read as a number without sign. A zero
octet goes in front where the first has its top bit set, and empty contents are the
number zero. Whether the contents are moved or copied (`mode`) changes no byte. -/
def asn1Integer (content : List UInt8) : List UInt8 :=
  -- make sure 0 is encoded properly
  let content := if content = [] then [0x00] else content
  -- ASN.1 integers must be positive numbers in two's complement
  let len := content.length + if content.headD 0 &&& 0x80 = 0 then 0 else 1
  asn1BuildObject asn1IntegerTag len ++ (if len > content.length then [0x00] else []) ++ content

/-- The contents `asn1_integer` writes: the same number, at most one octet longer, with
the top bit clear. -/
theorem asn1Integer_eq (content : List UInt8) :
    ∃ body, asn1Integer content = asn1SimpleObject asn1IntegerTag body ∧ value body = value content ∧
      body.length ≤ content.length + 1 ∧ body.headD 0 &&& 0x80 = 0 := by
  rcases content with _ | ⟨b, bs⟩
  · exact ⟨[0x00], rfl, rfl, by simp, by decide⟩
  · by_cases hb : b &&& 0x80 = 0
    · refine ⟨b :: bs, ?_, rfl, by simp, hb⟩
      simp [asn1Integer, asn1SimpleObject, hb]
    · -- the zero octet in front keeps the number and clears the top bit
      refine ⟨0x00 :: b :: bs, ?_, by simp, by simp, by simp⟩
      simp [asn1Integer, asn1SimpleObject, hb]

/-- The loop of `asn1_integer_from_uint64`: the octets of `val` put in front of `enc`
from the lowest up, until no bits are left. -/
def integerFromUint64Loop (val : UInt64) (enc : List UInt8) : List UInt8 :=
  if val = 0 then enc else integerFromUint64Loop (val >>> 8) ((val &&& 0xff).toUInt8 :: enc)
termination_by val.toNat
decreasing_by
  have hpos : 0 < val.toNat := by
    rw [Nat.pos_iff_ne_zero, ne_eq, ← UInt64.toNat_zero, UInt64.toNat_inj]
    assumption
  rw [UInt64.toNat_shiftRight, show (8 : UInt64).toNat % 64 = 8 from rfl, Nat.shiftRight_eq_div_pow]
  omega

/-- `asn1_integer_from_uint64`: the octets of `val`, big-endian and without leading
zeros; a single octet below `0x100`. -/
def asn1IntegerFromUint64 (val : UInt64) : List UInt8 :=
  if val < 0x100 then [val.toUInt8] else integerFromUint64Loop val []

theorem value_integerFromUint64Loop (val : UInt64) (enc : List UInt8) :
    value (integerFromUint64Loop val enc) = val.toNat * 256 ^ enc.length + value enc := by
  fun_induction integerFromUint64Loop val enc with
  | case1 enc =>
    simp
  | case2 val enc hne ih =>
    -- one turn puts the lowest octet in front and shifts it out of `val`
    have hlow : ((val &&& 0xff).toUInt8).toNat = val.toNat % 256 := by
      rw [UInt64.toNat_toUInt8, UInt64.toNat_and, show (0xff : UInt64).toNat = 2 ^ 8 - 1 from rfl,
        Nat.and_two_pow_sub_one_eq_mod]
      omega
    have hhigh : (val >>> 8).toNat = val.toNat / 256 := by
      rw [UInt64.toNat_shiftRight, show (8 : UInt64).toNat % 64 = 8 from rfl, Nat.shiftRight_eq_div_pow]
    rw [ih, hhigh, value_cons, hlow, List.length_cons, Nat.pow_succ]
    have := Nat.div_add_mod val.toNat 256
    calc val.toNat / 256 * (256 ^ enc.length * 256) + (val.toNat % 256 * 256 ^ enc.length + value enc)
        = (256 * (val.toNat / 256) + val.toNat % 256) * 256 ^ enc.length + value enc := by ring
      _ = val.toNat * 256 ^ enc.length + value enc := by rw [this]

theorem length_integerFromUint64Loop (val : UInt64) (enc : List UInt8) {k : ℕ} (h : val.toNat < 256 ^ k) :
    (integerFromUint64Loop val enc).length ≤ enc.length + k := by
  induction k generalizing val enc with
  | zero =>
    have : val = 0 := by
      rw [← UInt64.toNat_inj, UInt64.toNat_zero]
      simpa using h
    rw [integerFromUint64Loop, if_pos this]
    omega
  | succ k ih =>
    rw [integerFromUint64Loop]
    split
    · omega
    · have hhigh : (val >>> 8).toNat < 256 ^ k := by
        rw [UInt64.toNat_shiftRight, show (8 : UInt64).toNat % 64 = 8 from rfl, Nat.shiftRight_eq_div_pow,
          Nat.div_lt_iff_lt_mul (by decide)]
        simpa [Nat.pow_succ] using h
      have := ih (val >>> 8) ((val &&& 0xff).toUInt8 :: enc) hhigh
      simp only [List.length_cons] at this
      omega

theorem asn1IntegerFromUint64_spec (val : UInt64) :
    value (asn1IntegerFromUint64 val) = val.toNat ∧ (asn1IntegerFromUint64 val).length ≤ 8 := by
  unfold asn1IntegerFromUint64
  split
  · next hlt =>
    have : val.toNat < 256 := hlt
    simp only [value_cons, UInt64.toNat_toUInt8, value_nil, List.length_cons, List.length_nil]
    omega
  · exact ⟨by simp [value_integerFromUint64Loop],
      by simpa using length_integerFromUint64Loop val [] (k := 8) val.toNat_lt⟩

/-- `asn1_parse_integer_uint64`: the contents as a big-endian number; of more than eight
octets only the last eight count. -/
def asn1ParseIntegerUint64 (blob : List UInt8) : UInt64 :=
  blob.foldl (fun val b => (val <<< 8) ||| b.toUInt64) 0

theorem toNat_shiftLeft_or (val : UInt64) (b : UInt8) :
    ((val <<< 8) ||| b.toUInt64).toNat = (val.toNat * 256 + b.toNat) % 2 ^ 64 := by
  have hb := b.toNat_lt
  rw [UInt64.toNat_or, UInt64.toNat_shiftLeft, UInt8.toNat_toUInt64, show (8 : UInt64).toNat % 64 = 8 from rfl,
    Nat.shiftLeft_eq, show 2 ^ 64 = 2 ^ 8 * 2 ^ 56 from rfl, Nat.mul_comm, Nat.mul_mod_mul_left,
    ← Nat.two_pow_add_eq_or_of_lt hb]
  omega

theorem toNat_foldl_shiftLeft_or (blob : List UInt8) (acc : UInt64) :
    (blob.foldl (fun (val : UInt64) (b : UInt8) => (val <<< 8) ||| b.toUInt64) acc).toNat =
      (acc.toNat * 256 ^ blob.length + value blob) % 2 ^ 64 := by
  induction blob generalizing acc with
  | nil => simp [Nat.mod_eq_of_lt acc.toNat_lt]
  | cons b bs ih =>
    rw [List.foldl_cons, ih, toNat_shiftLeft_or, Nat.add_mod, Nat.mul_mod, Nat.mod_mod, ← Nat.mul_mod,
      ← Nat.add_mod, value_cons, List.length_cons, Nat.pow_succ]
    congr 1
    ring

theorem toNat_asn1ParseIntegerUint64 (blob : List UInt8) :
    (asn1ParseIntegerUint64 blob).toNat = value blob % 2 ^ 64 := by
  simp [asn1ParseIntegerUint64, toNat_foldl_shiftLeft_or]

/-- **A 64-bit number encoded as an INTEGER parses back.** -/
theorem asn1ParseIntegerUint64_asn1Integer (v : UInt64) :
    ∃ inner, asn1Unwrap (asn1Integer (asn1IntegerFromUint64 v)) = some (asn1IntegerTag, inner, []) ∧
      asn1ParseIntegerUint64 inner = v := by
  obtain ⟨hv, hlen⟩ := asn1IntegerFromUint64_spec v
  obtain ⟨body, heq, hbody, hblen, -⟩ := asn1Integer_eq (asn1IntegerFromUint64 v)
  refine ⟨body, ?_, ?_⟩
  · rw [heq, ← List.append_nil (asn1SimpleObject _ _), asn1Unwrap_simpleObject _ (by omega)]
  · rw [← UInt64.toNat_inj, toNat_asn1ParseIntegerUint64, hbody, hv, Nat.mod_eq_of_lt v.toNat_lt]

/-! ## The TLV laws -/

theorem asn1Length_simpleObject (tag : UInt8) {content : List UInt8} (h : content.length < 2 ^ 24)
    (rest : List UInt8) : asn1Length (asn1SimpleObject tag content ++ rest) = (content.length, content ++ rest) :=
  asn1Length_of_asn1Unwrap (asn1Unwrap_simpleObject tag h rest)

/-- What the object builders and the two decoders of `asn1.c` are for: an object built
from contents below `2 ^ 24` bytes carries the DER length octets and is unwrapped and
measured back, with the blob left at what follows; on every blob the two decoders agree,
`asn1_length` failing where `asn1_unwrap` does and otherwise returning the length of the
contents `asn1_unwrap` cuts; and a 64-bit number written as an INTEGER parses back. -/
theorem asn1Tlv_round_trip :
    (∀ (t : UInt8) (c r : List UInt8), c.length < 2 ^ 24 →
      asn1Unwrap (asn1SimpleObject t c ++ r) = some (t, c, r) ∧
        asn1Length (asn1SimpleObject t c ++ r) = (c.length, c ++ r) ∧
        ∃ code, DerLengthOctets c.length code ∧ asn1SimpleObject t c = t :: (code ++ c)) ∧
    (∀ blob : List UInt8,
      (asn1Unwrap blob = none → (asn1Length blob).1 = asn1InvalidLength) ∧
        ∀ t inner rest, asn1Unwrap blob = some (t, inner, rest) → (asn1Length blob).1 = inner.length) ∧
    (∀ v : UInt64, ∃ inner, asn1Unwrap (asn1Integer (asn1IntegerFromUint64 v)) = some (asn1IntegerTag, inner, []) ∧
      asn1ParseIntegerUint64 inner = v) := by
  refine ⟨fun t c r hc => ⟨asn1Unwrap_simpleObject t hc r, asn1Length_simpleObject t hc r, ?_⟩,
    fun blob => ⟨asn1Length_of_asn1Unwrap_none, fun t inner rest h => ?_⟩, asn1ParseIntegerUint64_asn1Integer⟩
  · exact ⟨asn1CodeLength c.length, asn1CodeLength_der hc, by simp [asn1SimpleObject, asn1BuildObject]⟩
  · rw [asn1Length_of_asn1Unwrap h]

theorem asn1Tlv_round_trip_300 :
    asn1Unwrap (asn1SimpleObject 0x04 (List.replicate 300 0x41) ++ [0x05, 0x00]) =
        some (0x04, List.replicate 300 0x41, [0x05, 0x00]) ∧
      asn1Length (asn1SimpleObject 0x04 (List.replicate 300 0x41) ++ [0x05, 0x00]) =
        (300, List.replicate 300 0x41 ++ [0x05, 0x00]) :=
  have h := asn1Tlv_round_trip.1 0x04 (List.replicate 300 0x41) [0x05, 0x00]
    (by rw [List.length_replicate]; decide)
  ⟨h.1, by rw [h.2.1, List.length_replicate]⟩

end VpnClient.Identity
