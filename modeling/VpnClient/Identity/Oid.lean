import VpnClient.Utils.Text
import VpnClient.Lib.Bits
import Mathlib.Tactic.IntervalCases

/-!
# OIDs as text and as DER

`asn1_oid_from_string` and `asn1_oid_to_string` of `libstrongswan/asn1/asn1.c`. The first
reads a dotted decimal OID with the token enumerator and `strtoul`, packs the first two
nodes into one byte, `40 * a + b`, and writes every later node in base 128, as many
groups as `bytes_required` counts. The second prints the first byte as `a.b` with
`a = byte / 40` and every node gathered from its groups as `.node`. Both work in a buffer
of 64 bytes, the text's terminating NUL included.

The groups the code writes are the subidentifier of X.690 (`subidentifier_eq_encodeNode`),
and the printer reads every subidentifier back (`oidToStringLoop_flatMap`). So a dotted
OID whose second node is below 40 comes back from DER as it was
(`asn1OidToString_asn1OidFromString`), and so does every DER OID from its text
(`asn1OidFromString_asn1OidToString`), as long as the DER fits 64 bytes and the text 63
characters. A second node of 40 or more is printed as part of the first
(`asn1OidToString_fromString_changes`).
-/

namespace VpnClient.Identity

open VpnClient.Utils VpnClient.Lib

/-! ## The code -/

/-- `bytes_required`: the number of seven-bit groups of a node of 32 bits. -/
def bytesRequired (val : UInt32) : ℕ :=
  ([28, 21, 14, 7] : List UInt32).foldl
    (fun required shift => if val >>> shift ≠ 0 then required + 1 else required) 1

/-- The groups of a node past the second as `asn1_oid_from_string` writes them: from bit
`7 * k` down with the continuation bit, then the lowest group without it. -/
def encodeNode (val : UInt32) : ℕ → List UInt8
  | 0 => [(val &&& 0x7f).toUInt8]
  | k + 1 => (0x80 ||| ((val >>> UInt32.ofNat (7 * (k + 1))) &&& 0x7f)).toUInt8 :: encodeNode val k

/-- `buf_len`, the size of the buffer of both conversions. -/
def oidBufLen : ℕ := 64

/-- The loop of `asn1_oid_from_string` over the tokens: `i` counts the tokens read,
`first` keeps the first node until the second is read, and `buf` holds what was written.
A token that is no number, or a node that would not fit the buffer, empties the result. -/
def oidFromStringLoop (i : ℕ) (first : UInt32) (buf : List UInt8) : List (List Char) → List UInt8
  | [] => buf
  | str :: rest =>
    -- `val` is a `u_int`: the `unsigned long` of `strtoul` cut to 32 bits
    let val := UInt32.ofNat ((strtoul str).getD 0)
    let req := bytesRequired val
    if strtoul str = none ∨ buf.length + req > oidBufLen then []
    else
      match i with
      | 0 => oidFromStringLoop 1 val buf rest
      | 1 => oidFromStringLoop 2 first (buf ++ [(first * 40 + val).toUInt8]) rest
      | i + 2 => oidFromStringLoop (i + 3) first (buf ++ encodeNode val (req - 1)) rest

/-- `asn1_oid_from_string`. -/
def asn1OidFromString (str : List Char) : List UInt8 :=
  oidFromStringLoop 0 0 [] (tokens ['.'] [] str)

/-- The loop of `asn1_oid_to_string` over the bytes after the first: `val` gathers the
seven-bit groups of a node, and a byte without the continuation bit prints it. `len` is
the room left in the buffer; `snprintf` fails where the text and its NUL do not fit. -/
def oidToStringLoop (len : ℕ) (buf : List Char) (val : UInt32) : List UInt8 → Option (List Char)
  | [] => if val = 0 then some buf else none
  | b :: oid =>
    let val := (val <<< 7) + (b &&& 0x7f).toUInt32
    if b < 128 then
      let written := '.' :: Nat.toDigits 10 val.toNat
      if written.length ≥ len then none
      else oidToStringLoop (len - written.length) (buf ++ written) 0 oid
    else oidToStringLoop len buf val oid

/-- `asn1_oid_to_string`, `none` standing for `NULL`. -/
def asn1OidToString : List UInt8 → Option (List Char)
  | [] => none
  | b :: oid =>
    let val := b.toNat / 40
    let written := Nat.toDigits 10 val ++ '.' :: Nat.toDigits 10 (b.toNat - val * 40)
    if written.length ≥ oidBufLen then none
    else oidToStringLoop (oidBufLen - written.length) written 0 oid

/-! ## Dotted text and DER contents -/

/-- The dotted decimal text of an OID: its first node, then each later one after a dot. -/
def dottedText (a : ℕ) (nodes : List ℕ) : List Char :=
  Nat.toDigits 10 a ++ nodes.flatMap fun n => '.' :: Nat.toDigits 10 n

/-- The seven-bit groups of `w`, most significant first and none of them a leading zero,
each with the continuation bit. -/
def highGroups (w : ℕ) : List UInt8 :=
  if w = 0 then [] else highGroups (w / 128) ++ [UInt8.ofNat (w % 128 + 128)]
termination_by w
decreasing_by omega

/-- The subidentifier of a node (X.690, 8.19.2): its groups in base 128, most significant
first and without a leading zero group, the continuation bit set on all but the last. -/
def subidentifier (v : ℕ) : List UInt8 := highGroups (v / 128) ++ [UInt8.ofNat (v % 128)]

/-- The DER contents of an OID whose first byte is `f`, `40 * a + b` for its first two
nodes, and whose later nodes are `nodes`. -/
def derOid (f : ℕ) (nodes : List ℕ) : List UInt8 := UInt8.ofNat f :: nodes.flatMap subidentifier

/-! ## Groups of seven bits -/

/-- The groups of `v` at bits `7 * k` down to `7`, each with the continuation bit. -/
def contGroups (v : ℕ) : ℕ → List UInt8
  | 0 => []
  | k + 1 => UInt8.ofNat (v / 128 ^ (k + 1) % 128 + 128) :: contGroups v k

@[simp] theorem length_contGroups (v : ℕ) : ∀ k, (contGroups v k).length = k
  | 0 => rfl
  | k + 1 => by rw [contGroups, List.length_cons, length_contGroups v k]

theorem le_toNat_of_mem_contGroups {v k : ℕ} {b : UInt8} (h : b ∈ contGroups v k) : 128 ≤ b.toNat := by
  induction k with
  | zero => simp [contGroups] at h
  | succ k ih =>
    rw [contGroups, List.mem_cons] at h
    rcases h with rfl | h
    · rw [UInt8.toNat_ofNat']
      omega
    · exact ih h

/-- The lowest of the groups comes off the end. -/
theorem contGroups_succ (v : ℕ) :
    ∀ k, contGroups v (k + 1) = contGroups (v / 128) k ++ [UInt8.ofNat (v / 128 % 128 + 128)]
  | 0 => by simp [contGroups]
  | k + 1 => by
    rw [contGroups, contGroups_succ v k, contGroups, Nat.div_div_eq_div_mul, ← Nat.pow_succ']
    rfl

/-- A node of `k + 1` groups has the `k` high groups `contGroups` writes. -/
theorem highGroups_eq_contGroups : ∀ {k v : ℕ}, v < 128 ^ (k + 1) → (k = 0 ∨ 128 ^ k ≤ v) →
    highGroups (v / 128) = contGroups v k
  | 0, v, hv, _ => by
    rw [Nat.div_eq_of_lt (by simpa using hv), highGroups, if_pos rfl, contGroups]
  | k + 1, v, hv, hlow => by
    have hk : 128 ^ (k + 1) ≤ v := by omega
    have hpos : 0 < 128 ^ k := Nat.pow_pos (by decide)
    -- one group fewer above the lowest: the induction is on the number of groups
    have hhigh : v / 128 < 128 ^ (k + 1) := by
      rw [Nat.div_lt_iff_lt_mul (by decide), ← Nat.pow_succ]
      exact hv
    have hlow' : 128 ^ k ≤ v / 128 := by
      rw [Nat.le_div_iff_mul_le (by decide), ← Nat.pow_succ]
      exact hk
    rw [highGroups, if_neg (by omega), highGroups_eq_contGroups hhigh (.inr hlow'), contGroups_succ]

theorem toNat_ofNat_of_lt {v : ℕ} (hv : v < 2 ^ 32) : (UInt32.ofNat v).toNat = v := by
  rw [UInt32.toNat_ofNat', Nat.mod_eq_of_lt hv]

/-- The group of `val` at bit `s`. -/
theorem toNat_shiftRight_and_0x7f {v s : ℕ} (hv : v < 2 ^ 32) (hs : s < 32) :
    ((UInt32.ofNat v >>> UInt32.ofNat s) &&& 0x7f).toNat = v / 2 ^ s % 128 := by
  rw [UInt32.toNat_and, UInt32.toNat_shiftRight, toNat_ofNat_of_lt hv, toNat_ofNat_of_lt (by omega),
    Nat.mod_eq_of_lt hs, Nat.shiftRight_eq_div_pow, show (0x7f : UInt32).toNat = 2 ^ 7 - 1 from rfl,
    Nat.and_two_pow_sub_one_eq_mod]

/-- Setting the continuation bit of a group adds `128`. -/
theorem or_0x80_eq_add {y : ℕ} (hy : y < 128) : 128 ||| y = 128 + y := by
  rw [show (128 : ℕ) = 2 ^ 7 * 1 from rfl, ← Nat.two_pow_add_eq_or_of_lt hy]

/-- What the loop of `asn1_oid_from_string` writes for `k` shifts. -/
theorem encodeNode_ofNat {v : ℕ} (hv : v < 2 ^ 32) :
    ∀ {k : ℕ}, 7 * k < 32 → encodeNode (UInt32.ofNat v) k = contGroups v k ++ [UInt8.ofNat (v % 128)]
  | 0, _ => by
    have hlow := toNat_shiftRight_and_0x7f hv (s := 0) (by decide)
    rw [show UInt32.ofNat 0 = 0 from rfl, UInt32.shiftRight_zero] at hlow
    rw [encodeNode, contGroups, List.nil_append]
    congr 1
    apply UInt8.toNat_inj.mp
    rw [UInt32.toNat_toUInt8, hlow, UInt8.toNat_ofNat']
    omega
  | k + 1, hk => by
    rw [encodeNode, encodeNode_ofNat hv (by omega), contGroups, List.cons_append]
    congr 1
    apply UInt8.toNat_inj.mp
    -- the group at bit `7 * (k + 1)`, with the continuation bit
    have hgroup := toNat_shiftRight_and_0x7f hv (s := 7 * (k + 1)) hk
    rw [Nat.pow_mul, show (2 : ℕ) ^ 7 = 128 from rfl] at hgroup
    rw [UInt32.toNat_toUInt8, UInt32.toNat_or, hgroup, show (0x80 : UInt32).toNat = 128 from rfl,
      or_0x80_eq_add (Nat.mod_lt _ (by decide)), UInt8.toNat_ofNat', Nat.add_comm]

theorem shiftRight_ne_zero_iff {v : ℕ} (hv : v < 2 ^ 32) {s : UInt32} (hs : s.toNat < 32) :
    UInt32.ofNat v >>> s ≠ 0 ↔ 2 ^ s.toNat ≤ v := by
  rw [ne_eq, ← UInt32.toNat_inj, UInt32.toNat_shiftRight, toNat_ofNat_of_lt hv, Nat.mod_eq_of_lt hs,
    Nat.shiftRight_eq_div_pow, UInt32.toNat_zero, Nat.div_eq_zero_iff]
  have := Nat.two_pow_pos s.toNat
  omega

/-- `bytes_required` counts the shifts at which bits are left. -/
theorem bytesRequired_ofNat {v : ℕ} (hv : v < 2 ^ 32) :
    bytesRequired (UInt32.ofNat v) =
      1 + (if 2 ^ 28 ≤ v then 1 else 0) + (if 2 ^ 21 ≤ v then 1 else 0) + (if 2 ^ 14 ≤ v then 1 else 0) +
        (if 2 ^ 7 ≤ v then 1 else 0) := by
  have h28 : UInt32.ofNat v >>> 28 ≠ 0 ↔ 2 ^ 28 ≤ v := shiftRight_ne_zero_iff hv (by decide)
  have h21 : UInt32.ofNat v >>> 21 ≠ 0 ↔ 2 ^ 21 ≤ v := shiftRight_ne_zero_iff hv (by decide)
  have h14 : UInt32.ofNat v >>> 14 ≠ 0 ↔ 2 ^ 14 ≤ v := shiftRight_ne_zero_iff hv (by decide)
  have h7 : UInt32.ofNat v >>> 7 ≠ 0 ↔ 2 ^ 7 ≤ v := shiftRight_ne_zero_iff hv (by decide)
  simp only [bytesRequired, List.foldl_cons, List.foldl_nil, h28, h21, h14, h7]
  split_ifs <;> omega

/-- `bytes_required` of a node of `k + 1` groups. -/
theorem bytesRequired_eq {v k : ℕ} (hv : v < 2 ^ 32) (hlt : v < 128 ^ (k + 1)) (hlow : k = 0 ∨ 128 ^ k ≤ v) :
    bytesRequired (UInt32.ofNat v) = k + 1 := by
  have hk : k ≤ 4 := by
    by_contra h
    have : 128 ^ 5 ≤ 128 ^ k := Nat.pow_le_pow_right (by decide) (by omega)
    omega
  rw [bytesRequired_ofNat hv]
  interval_cases k <;> norm_num at hlt hlow <;> split_ifs <;> omega

/-- Every node below `2 ^ 32` has between one and five groups. -/
theorem exists_groups {v : ℕ} (hv : v < 2 ^ 32) : ∃ k, 7 * k < 32 ∧ v < 128 ^ (k + 1) ∧ (k = 0 ∨ 128 ^ k ≤ v) := by
  by_cases h1 : v < 128
  · exact ⟨0, by decide, by simpa using h1, .inl rfl⟩
  by_cases h2 : v < 128 ^ 2
  · exact ⟨1, by decide, h2, .inr (by simpa using h1)⟩
  by_cases h3 : v < 128 ^ 3
  · exact ⟨2, by decide, h3, .inr (by omega)⟩
  by_cases h4 : v < 128 ^ 4
  · exact ⟨3, by decide, h4, .inr (by omega)⟩
  · exact ⟨4, by decide, by norm_num; omega, .inr (by omega)⟩

/-- **The code writes the subidentifier**: `bytes_required` counts its groups, and the
loop writes them. -/
theorem subidentifier_eq_encodeNode {v : ℕ} (hv : v < 2 ^ 32) :
    subidentifier v = encodeNode (UInt32.ofNat v) (bytesRequired (UInt32.ofNat v) - 1) := by
  obtain ⟨k, hk, hlt, hlow⟩ := exists_groups hv
  rw [bytesRequired_eq hv hlt hlow, Nat.add_sub_cancel, encodeNode_ofNat hv hk, subidentifier,
    highGroups_eq_contGroups hlt hlow]

theorem length_subidentifier {v : ℕ} (hv : v < 2 ^ 32) :
    (subidentifier v).length = bytesRequired (UInt32.ofNat v) := by
  obtain ⟨k, -, hlt, hlow⟩ := exists_groups hv
  rw [subidentifier, highGroups_eq_contGroups hlt hlow, bytesRequired_eq hv hlt hlow, List.length_append,
    length_contGroups, List.length_singleton]

/-! ## Printing -/

/-- A continuation byte only gathers its group. -/
theorem oidToStringLoop_cont {len : ℕ} {buf : List Char} (oid : List UInt8) :
    ∀ {cs : List UInt8} (val : UInt32), (∀ b ∈ cs, 128 ≤ b.toNat) →
      oidToStringLoop len buf val (cs ++ oid) =
        oidToStringLoop len buf (cs.foldl (fun (val : UInt32) (b : UInt8) => (val <<< 7) + (b &&& 0x7f).toUInt32) val)
          oid
  | [], _, _ => rfl
  | b :: cs, val, h => by
    have hb : ¬b < 128 := by
      rw [UInt8.lt_iff_toNat_lt]
      have := h b List.mem_cons_self
      simpa using this
    rw [List.cons_append, oidToStringLoop]
    dsimp only
    rw [if_neg hb, List.foldl_cons, oidToStringLoop_cont oid _ (fun c hc => h c (List.mem_cons_of_mem b hc))]

/-- Gathering a group, on numbers. -/
theorem toNat_gather (val : UInt32) (b : UInt8) :
    ((val <<< 7) + (b &&& 0x7f).toUInt32).toNat = (val.toNat * 128 + b.toNat % 128) % 2 ^ 32 := by
  rw [UInt32.toNat_add, UInt32.toNat_shiftLeft, UInt8.toNat_toUInt32, Bits.toNat_and_0x7f,
    show (7 : UInt32).toNat % 32 = 7 from rfl, Nat.shiftLeft_eq]
  omega

/-- The high groups of a node gather to the node without its lowest group. -/
theorem foldl_gather_contGroups : ∀ (k : ℕ) {v : ℕ}, v < 2 ^ 32 →
    (contGroups v k).foldl (fun (val : UInt32) (b : UInt8) => (val <<< 7) + (b &&& 0x7f).toUInt32) 0 =
      UInt32.ofNat (v / 128 % 128 ^ k)
  | 0, v, _ => by
    rw [Nat.pow_zero, Nat.mod_one]
    rfl
  | k + 1, v, hv => by
    -- the groups of `v / 128`, then its lowest group
    have hw : v / 128 < 2 ^ 32 := by omega
    have hsplit : v / 128 % 128 ^ (k + 1) = v / 128 % 128 + 128 * (v / 128 / 128 % 128 ^ k) := by
      rw [Nat.pow_succ', Nat.mod_mul]
    have hle : v / 128 % 128 ^ (k + 1) ≤ v / 128 := Nat.mod_le _ _
    have hle' : v / 128 / 128 % 128 ^ k ≤ v / 128 / 128 := Nat.mod_le _ _
    rw [contGroups_succ, List.foldl_append, foldl_gather_contGroups k hw, List.foldl_cons, List.foldl_nil]
    apply UInt32.toNat_inj.mp
    rw [toNat_gather, toNat_ofNat_of_lt (by omega), toNat_ofNat_of_lt (by omega), UInt8.toNat_ofNat']
    omega

/-- The subidentifier of a node prints the node. -/
theorem oidToStringLoop_subidentifier {v : ℕ} (hv : v < 2 ^ 32) (len : ℕ) (buf : List Char) (oid : List UInt8) :
    oidToStringLoop len buf 0 (subidentifier v ++ oid) =
      if ('.' :: Nat.toDigits 10 v).length ≥ len then none
      else oidToStringLoop (len - ('.' :: Nat.toDigits 10 v).length) (buf ++ '.' :: Nat.toDigits 10 v) 0 oid := by
  obtain ⟨k, -, hlt, hlow⟩ := exists_groups hv
  have hlast : UInt8.ofNat (v % 128) < 128 := by
    rw [UInt8.lt_iff_toNat_lt, UInt8.toNat_ofNat']
    simp
    omega
  -- the high groups gather to `v / 128`, and the lowest completes `v`
  have hval : ((UInt32.ofNat (v / 128 % 128 ^ k) <<< 7) + (UInt8.ofNat (v % 128) &&& 0x7f).toUInt32).toNat = v := by
    have hdiv : v / 128 < 128 ^ k := by
      rw [Nat.div_lt_iff_lt_mul (by decide), ← Nat.pow_succ]
      exact hlt
    rw [toNat_gather, Nat.mod_eq_of_lt hdiv, toNat_ofNat_of_lt (by omega), UInt8.toNat_ofNat']
    omega
  rw [subidentifier, highGroups_eq_contGroups hlt hlow, List.append_assoc,
    oidToStringLoop_cont _ 0 (fun b hb => le_toNat_of_mem_contGroups hb), foldl_gather_contGroups k hv,
    List.singleton_append, oidToStringLoop]
  dsimp only
  rw [if_pos hlast, hval]

/-- **The subidentifiers of the nodes print the nodes**, while the text fits. -/
theorem oidToStringLoop_flatMap : ∀ {nodes : List ℕ} {len : ℕ} (buf : List Char), (∀ n ∈ nodes, n < 2 ^ 32) →
    (nodes.flatMap fun n => '.' :: Nat.toDigits 10 n).length < len →
    oidToStringLoop len buf 0 (nodes.flatMap subidentifier) = some (buf ++ nodes.flatMap fun n => '.' :: Nat.toDigits 10 n)
  | [], _, buf, _, _ => by simp [oidToStringLoop]
  | n :: nodes, len, buf, hn, hlen => by
    rw [List.flatMap_cons, List.flatMap_cons, List.length_append] at *
    rw [oidToStringLoop_subidentifier (hn n List.mem_cons_self), if_neg (by omega),
      oidToStringLoop_flatMap _ (fun m hm => hn m (List.mem_cons_of_mem n hm)) (by omega), List.append_assoc]

/-- `asn1_oid_to_string` prints DER contents as the first two nodes the first byte packs
and the later nodes, while the text fits the buffer. -/
theorem asn1OidToString_derOid {f : ℕ} (hf : f < 256) {nodes : List ℕ} (hn : ∀ n ∈ nodes, n < 2 ^ 32)
    (htext : (dottedText (f / 40) (f % 40 :: nodes)).length < oidBufLen) :
    asn1OidToString (derOid f nodes) = some (dottedText (f / 40) (f % 40 :: nodes)) := by
  have hb : (UInt8.ofNat f).toNat = f := by
    rw [UInt8.toNat_ofNat']
    omega
  have hsub : f - f / 40 * 40 = f % 40 := by omega
  rw [dottedText, List.flatMap_cons, ← List.append_assoc, List.length_append] at htext
  rw [derOid, asn1OidToString]
  rw [hb, hsub, if_neg (by omega), oidToStringLoop_flatMap _ hn (by omega), dottedText, List.flatMap_cons,
    List.append_assoc]

/-! ## Reading -/

/-- A decimal number is one token of a dotted OID. -/
theorem plainWord_toDigits (n : ℕ) : PlainWord ['.'] [] (Nat.toDigits 10 n) := by
  refine ⟨Nat.toDigits_ne_nil, fun c hc => ?_⟩
  have hd := isDigit_of_mem_toDigits hc
  refine ⟨?_, List.not_mem_nil, ?_, ?_⟩
  · rw [List.mem_singleton]
    rintro rfl
    exact absurd hd (by decide)
  · rintro rfl
    exact absurd hd (by decide)
  · rintro rfl
    exact absurd hd (by decide)

/-- The tokens of a dotted OID are the decimals of its nodes. -/
theorem tokens_dottedText (a : ℕ) (nodes : List ℕ) :
    tokens ['.'] [] (dottedText a nodes) = (a :: nodes).map (Nat.toDigits 10) := by
  rw [dottedText, ← List.flatMap_map (fun n => Nat.toDigits 10 n) (fun w => '.' :: w),
    tokens_join (List.mem_singleton_self '.') _ _ (plainWord_toDigits a)]
  · rfl
  · intro w hw
    obtain ⟨n, -, rfl⟩ := List.mem_map.mp hw
    exact plainWord_toDigits n

theorem bytesRequired_le (val : UInt32) : bytesRequired val ≤ 5 := by
  simp only [bytesRequired, List.foldl_cons, List.foldl_nil]
  split_ifs <;> omega

theorem strtoul_toDigits_of_lt {n : ℕ} (h : n < 2 ^ 32) : strtoul (Nat.toDigits 10 n) = some n :=
  strtoul_toDigits (by unfold ulongMax; omega)

/-- **The nodes past the second are written as their subidentifiers**, while they fit. -/
theorem oidFromStringLoop_nodes (first : UInt32) : ∀ {nodes : List ℕ} (i : ℕ) (buf : List UInt8),
    (∀ n ∈ nodes, n < 2 ^ 32) → buf.length + (nodes.flatMap subidentifier).length ≤ oidBufLen →
    oidFromStringLoop (i + 2) first buf (nodes.map (Nat.toDigits 10)) = buf ++ nodes.flatMap subidentifier
  | [], _, buf, _, _ => by simp [oidFromStringLoop]
  | n :: nodes, i, buf, hn, hlen => by
    have hn0 := hn n List.mem_cons_self
    rw [List.flatMap_cons, List.length_append, length_subidentifier hn0] at hlen
    rw [List.map_cons, oidFromStringLoop]
    rw [strtoul_toDigits_of_lt hn0, Option.getD_some, if_neg (by simp; omega),
      ← subidentifier_eq_encodeNode hn0, oidFromStringLoop_nodes first (i + 1) _ (fun m hm => hn m (List.mem_cons_of_mem n hm)),
      List.flatMap_cons, List.append_assoc]
    rw [List.length_append, length_subidentifier hn0]
    omega

/-- `asn1_oid_from_string` writes the DER contents of a dotted OID that fit the buffer. -/
theorem asn1OidFromString_dottedText {a b : ℕ} (ha : a ≤ ulongMax) (hb : b ≤ ulongMax) {nodes : List ℕ}
    (hn : ∀ n ∈ nodes, n < 2 ^ 32) (hlen : (derOid (40 * a + b) nodes).length ≤ oidBufLen) :
    asn1OidFromString (dottedText a (b :: nodes)) = derOid (40 * a + b) nodes := by
  -- the first two nodes make one byte, cut to eight bits as `40 * a + b` is
  have hfirst : (UInt32.ofNat a * 40 + UInt32.ofNat b).toUInt8 = UInt8.ofNat (40 * a + b) := by
    apply UInt8.toNat_inj.mp
    rw [UInt32.toNat_toUInt8, UInt32.toNat_add, UInt32.toNat_mul, UInt32.toNat_ofNat', UInt32.toNat_ofNat',
      UInt8.toNat_ofNat', show (40 : UInt32).toNat = 40 from rfl]
    omega
  rw [derOid, List.length_cons] at hlen
  rw [asn1OidFromString, tokens_dottedText, List.map_cons, List.map_cons, oidFromStringLoop]
  rw [strtoul_toDigits ha, Option.getD_some, if_neg (by have := bytesRequired_le (UInt32.ofNat a); simp [oidBufLen]; omega),
    oidFromStringLoop]
  rw [strtoul_toDigits hb, Option.getD_some, if_neg (by have := bytesRequired_le (UInt32.ofNat b); simp [oidBufLen]; omega),
    hfirst, oidFromStringLoop_nodes _ 0 _ hn (by rw [List.nil_append, List.length_singleton]; omega), derOid,
    List.nil_append, List.singleton_append]

/-! ## The round trips -/

/-- DER contents are what the loop of `asn1_oid_from_string` writes for each node. -/
theorem derOid_eq_encodeNode (f : ℕ) {nodes : List ℕ} (hn : ∀ n ∈ nodes, n < 2 ^ 32) :
    derOid f nodes =
      UInt8.ofNat f :: nodes.flatMap fun n => encodeNode (UInt32.ofNat n) (bytesRequired (UInt32.ofNat n) - 1) := by
  rw [derOid, List.flatMap_congr (fun n hn' => subidentifier_eq_encodeNode (hn n hn'))]

/-- The length of DER contents, as `bytes_required` counts it. -/
theorem length_derOid (f : ℕ) : ∀ {nodes : List ℕ}, (∀ n ∈ nodes, n < 2 ^ 32) →
    (derOid f nodes).length = 1 + (nodes.map fun n => bytesRequired (UInt32.ofNat n)).sum
  | [], _ => rfl
  | n :: nodes, hn => by
    have ih := @length_derOid f nodes (fun m hm => hn m (List.mem_cons_of_mem n hm))
    simp only [derOid, List.length_cons, List.flatMap_cons, List.length_append] at ih ⊢
    rw [length_subidentifier (hn n List.mem_cons_self), List.map_cons, List.sum_cons]
    omega

/-- **Text to DER and back**: a dotted OID whose second node is below 40 is printed back
as it was, when its DER fits 64 bytes and its text 63 characters. -/
theorem asn1OidToString_asn1OidFromString {a b : ℕ} (ha : a ≤ 2) (hb : b < 40) {nodes : List ℕ}
    (hn : ∀ n ∈ nodes, n < 2 ^ 32) (hder : (derOid (40 * a + b) nodes).length ≤ oidBufLen)
    (htext : (dottedText a (b :: nodes)).length < oidBufLen) :
    asn1OidToString (asn1OidFromString (dottedText a (b :: nodes))) = some (dottedText a (b :: nodes)) := by
  have hdiv : (40 * a + b) / 40 = a := by omega
  have hmod : (40 * a + b) % 40 = b := by omega
  rw [asn1OidFromString_dottedText (by unfold ulongMax; omega) (by unfold ulongMax; omega) hn hder,
    asn1OidToString_derOid (by omega) hn (by rw [hdiv, hmod]; exact htext), hdiv, hmod]

/-- **DER to text and back**: DER contents with a first byte below 128 are read back from
their text, when they fit 64 bytes and the text 63 characters. -/
theorem asn1OidFromString_asn1OidToString {f : ℕ} (hf : f < 128) {nodes : List ℕ} (hn : ∀ n ∈ nodes, n < 2 ^ 32)
    (hder : (derOid f nodes).length ≤ oidBufLen) (htext : (dottedText (f / 40) (f % 40 :: nodes)).length < oidBufLen) :
    asn1OidToString (derOid f nodes) = some (dottedText (f / 40) (f % 40 :: nodes)) ∧
      asn1OidFromString (dottedText (f / 40) (f % 40 :: nodes)) = derOid f nodes := by
  have hf' : 40 * (f / 40) + f % 40 = f := Nat.div_add_mod f 40
  refine ⟨asn1OidToString_derOid (by omega) hn htext, ?_⟩
  rw [asn1OidFromString_dottedText (by unfold ulongMax; omega) (by unfold ulongMax; omega) hn (by rw [hf']; exact hder), hf']

/-- What the two conversions are for: a dotted OID in canonical decimal, with first node
at most 2, second node below 40 and later nodes below `2 ^ 32`, whose DER fits 64 bytes and
whose text fits 63 characters, is printed back as it was from the DER it is read as; and
DER contents with a first byte below 128 and subidentifiers of nodes below `2 ^ 32`, within
the same bounds, are read back from the text they are printed as. -/
theorem oid_text_der_round_trip :
    (∀ (a b : ℕ) (nodes : List ℕ), a ≤ 2 → b < 40 → (∀ n ∈ nodes, n < 2 ^ 32) →
      (derOid (40 * a + b) nodes).length ≤ 64 → (dottedText a (b :: nodes)).length ≤ 63 →
      asn1OidToString (asn1OidFromString (dottedText a (b :: nodes))) = some (dottedText a (b :: nodes))) ∧
    (∀ (f : ℕ) (nodes : List ℕ), f < 128 → (∀ n ∈ nodes, n < 2 ^ 32) →
      (derOid f nodes).length ≤ 64 → (dottedText (f / 40) (f % 40 :: nodes)).length ≤ 63 →
      ∃ s, asn1OidToString (derOid f nodes) = some s ∧ asn1OidFromString s = derOid f nodes) := by
  refine ⟨fun a b nodes ha hb hn hder htext => ?_, fun f nodes hf hn hder htext => ?_⟩
  · exact asn1OidToString_asn1OidFromString ha hb hn hder (by unfold oidBufLen; omega)
  · obtain ⟨hto, hfrom⟩ := asn1OidFromString_asn1OidToString hf hn hder (by unfold oidBufLen; omega)
    exact ⟨_, hto, hfrom⟩

theorem oid_text_der_round_trip_rsa :
    asn1OidToString (asn1OidFromString (dottedText 1 [2, 840, 113549])) = some (dottedText 1 [2, 840, 113549]) ∧
      ∃ s, asn1OidToString (derOid 43 [6, 1, 4, 1, 36906]) = some s ∧
        asn1OidFromString s = derOid 43 [6, 1, 4, 1, 36906] :=
  ⟨oid_text_der_round_trip.1 1 2 [840, 113549] (by decide) (by decide) (by simp)
      (by rw [length_derOid _ (by simp)]; decide) (by decide),
    oid_text_der_round_trip.2 43 [6, 1, 4, 1, 36906] (by decide) (by simp)
      (by rw [length_derOid _ (by simp)]; decide) (by decide)⟩

/-- **Where the round trip fails.** A second node of 40 or more is printed as part of the
first: `0.45` comes back as `1.5`. And a text of 64 characters does not fit the buffer
with its NUL, so it is not printed at all. -/
theorem asn1OidToString_fromString_changes :
    asn1OidToString (asn1OidFromString (dottedText 0 [45])) = some (dottedText 1 [5]) ∧
      dottedText 0 [45] ≠ dottedText 1 [5] ∧
      (dottedText 0 (10 :: List.replicate 30 0)).length = 64 ∧
      asn1OidToString (asn1OidFromString (dottedText 0 (10 :: List.replicate 30 0))) = none := by
  refine ⟨?_, by decide, by decide, ?_⟩
  · rw [asn1OidFromString_dottedText (by decide) (by decide) (by simp) (by decide)]
    decide
  · rw [asn1OidFromString_dottedText (by decide) (by decide) (by simp)
      (by rw [length_derOid _ (by simp)]; decide)]
    rw [derOid_eq_encodeNode _ (by simp)]
    decide

end VpnClient.Identity
