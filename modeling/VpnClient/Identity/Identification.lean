import VpnClient.Identity.Asn1
import VpnClient.Lib.SipHash

/-!
# Identities, their equality and their hash

`identification_t` (`libstrongswan/utils/identification.c`): a type and an encoding.
`identification_create` picks the functions by type: FQDN and RFC 822 identities are
equal up to the case of ASCII letters (`equals_strcasecmp`), DNs when `compare_dn`
finds their RDNs equal one by one, where `rdn_equals` ignores case for
PrintableString values and for IA5String values of an emailAddress; every other type
compares encodings byte for byte. The hash, `chunk_hash_inc` (SipHash-2-4 under the
process's key `hash_key`, with the previous hash as a first block), reads the type and
the encoding, or for a DN the OIDs and values of its RDNs, as bytes: it never ignores
case.

So equal identities may hash apart (`hash_ne_of_equals`): hash tables keyed by
identities, as `duplicheck_listener` keeps them, treat `example.com` and `EXAMPLE.com`
as one key in `equals` but look them up in different buckets. Where equality is byte
equality the hash agrees with it (`hash_eq_of_equalsBinary`), and so it does for FQDN
and RFC 822 identities written in lower case (`hash_eq_of_equalsStrcasecmp`).
-/

namespace VpnClient.Identity

open VpnClient.Lib SipHash

/-! ## 1. Hashing chunks -/

/-- `chunk_mac_inc`: SipHash-2-4 of a chunk, with `m` absorbed first unless it is `0`. -/
def chunkMacInc (chunk key : List UInt8) (m : UInt64) : UInt64 :=
  let s := sipInit key
  let s := if m ≠ 0 then sipcompress s m else s
  sipFinalize (sipAbsorb s chunk)

/-- `chunk_hash_inc`: the MAC under the hash key, with the previous hash in both halves
of the first block, cut to 32 bits. -/
def chunkHashInc (key chunk : List UInt8) (hash : UInt32) : UInt32 :=
  (chunkMacInc chunk key ((hash.toUInt64 <<< 32) ||| hash.toUInt64)).toUInt32

/-- `hash_key` before `chunk_hash_seed` fills it: sixteen zero bytes. -/
def hashKeyUnseeded : List UInt8 := List.replicate 16 0

/-! ## 2. Identities -/

/-- `id_type_t`. -/
inductive IdType
  | idAny
  | idIpv4Addr
  | idFqdn
  | idRfc822Addr
  | idIpv4AddrSubnet
  | idIpv6Addr
  | idIpv6AddrSubnet
  | idIpv4AddrRange
  | idIpv6AddrRange
  | idDerAsn1Dn
  | idDerAsn1Gn
  | idKeyId
  | idDerAsn1GnUri
  deriving DecidableEq, Repr

/-- The value of an `id_type_t`. -/
def IdType.code : IdType → UInt32
  | idAny => 0
  | idIpv4Addr => 1
  | idFqdn => 2
  | idRfc822Addr => 3
  | idIpv4AddrSubnet => 4
  | idIpv6Addr => 5
  | idIpv6AddrSubnet => 6
  | idIpv4AddrRange => 7
  | idIpv6AddrRange => 8
  | idDerAsn1Dn => 9
  | idDerAsn1Gn => 10
  | idKeyId => 11
  | idDerAsn1GnUri => 201

/-- `chunk_from_thing(this->type)`: the four bytes of the enum, little-endian. -/
def IdType.bytes (t : IdType) : List UInt8 :=
  [t.code.toUInt8, (t.code >>> 8).toUInt8, (t.code >>> 16).toUInt8, (t.code >>> 24).toUInt8]

/-- `private_identification_t`. -/
structure Identification where
  type : IdType
  encoded : List UInt8
  deriving DecidableEq, Repr

/-! ## 3. The RDNs of a DN -/

/-- An RDN as `rdn_enumerate` returns it, with whether its value ends where the DN
ends (`data.ptr + data.len == dn.ptr + dn.len`). An empty value that ends its SEQUENCE
has a `NULL` pointer, since `chunk_skip` answers `chunk_empty` when it skips to the end of
a chunk, and so ends no DN. -/
structure Rdn where
  oid : List UInt8
  type : UInt8
  data : List UInt8
  atEnd : Bool
  deriving DecidableEq, Repr

/-- The first test of `rdn_enumerate`: with no SEQUENCE left in the current SET, the
next SET. -/
def nextSet (sets seqs : List UInt8) : Option (List UInt8 × List UInt8) :=
  if seqs.isEmpty then
    match asn1Unwrap sets with
    | some (t, inner, rest) => if t = asn1Set then some (rest, inner) else none
    | none => none
  else some (sets, seqs)

/-- `rdn_enumerate`: a SEQUENCE holding an OID and a value, and the enumerator's
`sets` and `seqs` after it; `trailing` is what follows the DN's SEQUENCE. -/
def rdnEnumerate (trailing sets seqs : List UInt8) : Option (Rdn × List UInt8 × List UInt8) :=
  match nextSet sets seqs with
  | none => none
  | some (sets, seqs) =>
    match asn1Unwrap seqs with
    | some (t, rdn, seqs) =>
      if t ≠ asn1Sequence then none
      else
        match asn1Unwrap rdn with
        | some (t', oid, rdn) =>
          if t' ≠ asn1Oid then none
          else
            match asn1Unwrap rdn with
            | some (type, data, rdn) =>
              -- a `NULL` pointer for an empty value that ends the SEQUENCE, whose end is no address
              some (⟨oid, type, data,
                !data.isEmpty && rdn.isEmpty && seqs.isEmpty && sets.isEmpty && trailing.isEmpty⟩, sets, seqs)
            | none => none
        | none => none
    | none => none

/-- The RDNs the enumerator returns before it first answers `FALSE`, within `fuel`
calls. -/
def rdnsLoop (trailing : List UInt8) : ℕ → List UInt8 → List UInt8 → List Rdn
  | 0, _, _ => []
  | fuel + 1, sets, seqs =>
    match rdnEnumerate trailing sets seqs with
    | some (rdn, sets, seqs) => rdn :: rdnsLoop trailing fuel sets seqs
    | none => []

/-- `create_rdn_enumerator` run to its end: the RDNs of the SEQUENCE at the start of
the DN. Each RDN takes at least six bytes, so the DN's length bounds the calls. -/
def rdns (dn : List UInt8) : List Rdn :=
  match asn1Unwrap dn with
  | some (t, sets, trailing) => if t = asn1Sequence then rdnsLoop trailing dn.length sets [] else []
  | none => []

/-- An RDN whose value ends the DN leaves no SET and no SEQUENCE to the enumerator. -/
theorem rdnEnumerate_atEnd {trailing sets seqs sets' seqs' : List UInt8} {r : Rdn}
    (h : rdnEnumerate trailing sets seqs = some (r, sets', seqs')) (hr : r.atEnd = true) :
    sets' = [] ∧ seqs' = [] := by
  unfold rdnEnumerate at h
  -- every branch but the one that reads an OID and a value answers none
  repeat' split at h
  all_goals try cases h
  simp only [Bool.and_eq_true, List.isEmpty_iff] at hr
  exact ⟨hr.1.2, hr.1.1.2⟩

/-- Only the last RDN the enumerator returns can end the DN. -/
theorem rdnsLoop_dropLast_atEnd (trailing : List UInt8) : ∀ (fuel : ℕ) (sets seqs : List UInt8),
    ∀ r ∈ (rdnsLoop trailing fuel sets seqs).dropLast, r.atEnd = false
  | 0, _, _ => by simp [rdnsLoop]
  | fuel + 1, sets, seqs => by
    unfold rdnsLoop
    split
    · next r sets' seqs' h =>
      intro r' hr'
      cases hrest : rdnsLoop trailing fuel sets' seqs' with
      | nil => simp [hrest] at hr'
      | cons r₁ rs =>
        rw [hrest, List.dropLast_cons_of_ne_nil (List.cons_ne_nil _ _), List.mem_cons] at hr'
        rcases hr' with rfl | hr'
        · -- an RDN that ends the DN leaves nothing to enumerate
          cases hend : r'.atEnd
          · rfl
          · obtain ⟨rfl, rfl⟩ := rdnEnumerate_atEnd h hend
            cases fuel <;> simp [rdnsLoop, rdnEnumerate, nextSet, asn1Unwrap] at hrest
        · exact rdnsLoop_dropLast_atEnd trailing fuel sets' seqs' r' (hrest ▸ hr')
    · simp

theorem rdns_dropLast_atEnd (dn : List UInt8) : ∀ r ∈ (rdns dn).dropLast, r.atEnd = false := by
  unfold rdns
  split
  · split
    · exact rdnsLoop_dropLast_atEnd _ _ _ _
    · simp
  · simp

/-- An RDN that ends the DN has a value: an empty one there has a `NULL` pointer. -/
theorem rdnEnumerate_data_of_atEnd {trailing sets seqs sets' seqs' : List UInt8} {r : Rdn}
    (h : rdnEnumerate trailing sets seqs = some (r, sets', seqs')) (hr : r.atEnd = true) : r.data ≠ [] := by
  unfold rdnEnumerate at h
  repeat' split at h
  all_goals try cases h
  simp only [Bool.and_eq_true, Bool.not_eq_eq_eq_not, Bool.not_true, List.isEmpty_eq_false_iff] at hr
  exact hr.1.1.1.1

theorem rdnsLoop_data_of_atEnd (trailing : List UInt8) : ∀ (fuel : ℕ) (sets seqs : List UInt8),
    ∀ r ∈ rdnsLoop trailing fuel sets seqs, r.atEnd = true → r.data ≠ []
  | 0, _, _ => by simp [rdnsLoop]
  | fuel + 1, sets, seqs => by
    unfold rdnsLoop
    split
    · next r sets' seqs' h =>
      intro r' hr'
      rcases List.mem_cons.mp hr' with rfl | hr'
      · exact rdnEnumerate_data_of_atEnd h
      · exact rdnsLoop_data_of_atEnd trailing fuel sets' seqs' r' hr'
    · simp

theorem rdns_data_of_atEnd (dn : List UInt8) : ∀ r ∈ rdns dn, r.atEnd = true → r.data ≠ [] := by
  unfold rdns
  split
  · split
    · exact rdnsLoop_data_of_atEnd _ _ _ _
    · simp
  · simp

/-- `is_valid_dn`: the enumerator returns an RDN whose value ends the DN before it stops. -/
def isValidDn (dn : List UInt8) : Bool := (rdns dn).any (·.atEnd)

/-- A DN is valid when its last RDN ends it. That RDN then has a value: a DN whose last
value is empty is no valid DN. -/
theorem isValidDn_iff (dn : List UInt8) :
    isValidDn dn = true ↔ ∃ r, (rdns dn).getLast? = some r ∧ r.atEnd = true ∧ r.data ≠ [] := by
  unfold isValidDn
  rw [List.any_eq_true]
  constructor
  · rintro ⟨r, hr, hend⟩
    have hne := List.ne_nil_of_mem hr
    have hdata := rdns_data_of_atEnd dn r hr hend
    -- only the last RDN can end the DN
    have hlast : r ∉ (rdns dn).dropLast := fun hd => by
      rw [rdns_dropLast_atEnd dn r hd] at hend
      cases hend
    rw [← List.dropLast_append_getLast hne, List.mem_append, List.mem_singleton] at hr
    rcases hr with hr | rfl
    · exact absurd hr hlast
    · exact ⟨_, List.getLast?_eq_some_getLast hne, hend, hdata⟩
  · rintro ⟨r, hr, hend, -⟩
    exact ⟨r, List.mem_of_getLast? hr, hend⟩

/-! ## 4. Equality -/

/-- `tolower` of the C locale. -/
def toLower (c : UInt8) : UInt8 := if 0x41 ≤ c ∧ c ≤ 0x5a then c + 0x20 else c

/-- `strncasecmp(a, b, n) == 0`: the first `n` bytes agree up to case, or up to a
`NUL` in both. The callers compare `n` bytes of chunks of length `n`. -/
def strncaseeq : ℕ → List UInt8 → List UInt8 → Bool
  | n + 1, c₁ :: s₁, c₂ :: s₂ => toLower c₁ == toLower c₂ && (c₁ == 0 || strncaseeq n s₁ s₂)
  | _, _, _ => true

/-- `memeq(a, b, n)`. -/
def memeq (a b : List UInt8) (n : ℕ) : Bool := a.take n == b.take n

/-- The OIDs `asn1_known_oid` names `OID_EMAIL_ADDRESS`: those that run through
`1.2.840.113549.1.9.1`, a leaf of the OID table. -/
def isEmailAddressOid (oid : List UInt8) : Bool :=
  [0x2A, 0x86, 0x48, 0x86, 0xF7, 0x0D, 0x01, 0x09, 0x01].isPrefixOf oid

/-- `rdn_equals`: PrintableString values, and IA5String values of an emailAddress,
compared without case; everything else byte for byte. -/
def rdnEquals (oid : List UInt8) (aType : UInt8) (a : List UInt8) (bType : UInt8)
    (b : List UInt8) : Bool :=
  if aType = bType ∧ (aType = asn1Printablestring ∨ (aType = asn1Ia5string ∧ isEmailAddressOid oid))
  then strncaseeq a.length a b
  else memeq a b a.length

/-- `is_wildcard`: the value `*`. -/
def isWildcard (data : List UInt8) : Bool := data == [0x2A]

/-- The loop of `compare_dn` over the RDNs of both DNs, with the `finished` flag of the
previous round and the wildcard count. -/
def compareDnLoop (withWc : Bool) : List Rdn → List Rdn → Bool → ℕ → Bool × ℕ
  | [], [], finished, wc => (finished, wc)
  | [], _ :: _, _, wc => (false, wc)
  | _ :: _, [], _, wc => (false, wc)
  | t :: ts, o :: os, _, wc =>
    if t.oid ≠ o.oid then (false, wc)
    else if withWc ∧ isWildcard o.data then compareDnLoop withWc ts os (t.atEnd && o.atEnd) (wc + 1)
    else if t.data.length ≠ o.data.length then (false, wc)
    else if ¬ rdnEquals t.oid t.type t.data o.type o.data then (false, wc)
    else compareDnLoop withWc ts os (t.atEnd && o.atEnd) wc

/-- `compare_dn`: for equality without `wc`, with wildcards counted in `wc`
otherwise. -/
def compareDn (t o : List UInt8) (withWc : Bool) : Bool × ℕ :=
  if ¬ withWc ∧ t.length ≠ o.length then (false, 0)
  else if t = o then (true, 0)
  else compareDnLoop withWc (rdns t) (rdns o) false 0

/-- `equals_binary`. -/
def equalsBinary (a b : Identification) : Bool :=
  a.type = b.type ∧ (a.type = .idAny ∨ a.encoded = b.encoded)

/-- `equals_strcasecmp`: one type, one length, no `NUL` in either, and equal up to
case. -/
def equalsStrcasecmp (a b : Identification) : Bool :=
  a.type = b.type ∧ a.encoded.length = b.encoded.length ∧ 0 ∉ a.encoded ∧ 0 ∉ b.encoded ∧
    strncaseeq a.encoded.length a.encoded b.encoded

/-- `equals_dn`: `compare_dn` without wildcards; it does not look at the other type. -/
def equalsDn (a b : Identification) : Bool := (compareDn a.encoded b.encoded false).1

/-! ## 5. Hashes -/

/-- `hash_binary`: the type, then the encoding unless the type is `ID_ANY`. -/
def hashBinary (key : List UInt8) (a : Identification) (inc : UInt32) : UInt32 :=
  let hash := chunkHashInc key a.type.bytes inc
  if a.type ≠ .idAny then chunkHashInc key a.encoded hash else hash

/-- `hash_dn`: the type, then the OID and the value of each RDN. -/
def hashDn (key : List UInt8) (a : Identification) (inc : UInt32) : UInt32 :=
  (rdns a.encoded).foldl (fun hash rdn => chunkHashInc key rdn.data (chunkHashInc key rdn.oid hash))
    (chunkHashInc key a.type.bytes inc)

/-- `equals`, as `identification_create` installs it for the type. -/
def Identification.equals (a b : Identification) : Bool :=
  match a.type with
  | .idFqdn | .idRfc822Addr => equalsStrcasecmp a b
  | .idDerAsn1Dn => equalsDn a b
  | _ => equalsBinary a b

/-- `hash`, as `identification_create` installs it for the type, under the hash key. -/
def Identification.hash (key : List UInt8) (a : Identification) (inc : UInt32) : UInt32 :=
  match a.type with
  | .idDerAsn1Dn => hashDn key a inc
  | _ => hashBinary key a inc

/-! ## 6. Where the hash agrees with equality -/

section Agree

variable (key : List UInt8) {a b : Identification} (inc : UInt32)

/-- Where equality is byte equality, equal identities hash alike: `ID_ANY` hashes
only its type, every other type its type and its encoding. -/
theorem hash_eq_of_equalsBinary (hbin : a.type ≠ .idFqdn ∧ a.type ≠ .idRfc822Addr ∧ a.type ≠ .idDerAsn1Dn)
    (h : a.equals b = true) : a.hash key inc = b.hash key inc := by
  obtain ⟨hf, hr, hd⟩ := hbin
  have hbin' : equalsBinary a b = true := by
    unfold Identification.equals at h
    split at h <;> simp_all
  simp only [equalsBinary, Bool.decide_and, Bool.decide_or, Bool.and_eq_true, Bool.or_eq_true,
    decide_eq_true_eq] at hbin'
  obtain ⟨htype, hany | henc⟩ := hbin'
  · -- `ID_ANY` hashes its type only
    have hb : b.type = .idAny := htype ▸ hany
    simp [Identification.hash, hashBinary, hany, hb]
  · -- the encodings agree, so the identities do
    rw [show b = ⟨a.type, a.encoded⟩ by rw [htype, henc]]

/-- A byte that `tolower` leaves as it is. -/
def IsLower (c : UInt8) : Prop := toLower c = c

/-- Strings without `NUL` and without upper-case letters that agree up to case are
equal. -/
theorem eq_of_strncaseeq : ∀ {s₁ s₂ : List UInt8}, s₁.length = s₂.length →
    (∀ c ∈ s₁, IsLower c) → (∀ c ∈ s₂, IsLower c) → 0 ∉ s₁ →
    strncaseeq s₁.length s₁ s₂ = true → s₁ = s₂
  | [], [], _, _, _, _, _ => rfl
  | c₁ :: s₁, c₂ :: s₂, hlen, hl₁, hl₂, hz, h => by
    simp only [strncaseeq, List.length_cons, Bool.and_eq_true, beq_iff_eq, Bool.or_eq_true] at h
    obtain ⟨hc, hz' | hs⟩ := h
    · exact absurd (hz' ▸ List.mem_cons_self) hz
    · have hc' : c₁ = c₂ := by
        rw [← hl₁ c₁ List.mem_cons_self, ← hl₂ c₂ List.mem_cons_self]
        exact hc
      rw [hc', eq_of_strncaseeq (by simpa using hlen) (fun c hc => hl₁ c (List.mem_cons_of_mem _ hc))
        (fun c hc => hl₂ c (List.mem_cons_of_mem _ hc)) (fun h => hz (List.mem_cons_of_mem _ h)) hs]

/-- FQDN and RFC 822 identities written in lower case hash alike when they are equal:
equality up to case is then byte equality. -/
theorem hash_eq_of_equalsStrcasecmp (hstr : a.type = .idFqdn ∨ a.type = .idRfc822Addr)
    (hla : ∀ c ∈ a.encoded, IsLower c) (hlb : ∀ c ∈ b.encoded, IsLower c)
    (h : a.equals b = true) : a.hash key inc = b.hash key inc := by
  have hstr' : equalsStrcasecmp a b = true := by
    unfold Identification.equals at h
    rcases hstr with hs | hs <;> rw [hs] at h <;> exact h
  simp only [equalsStrcasecmp, Bool.decide_and, Bool.and_eq_true, decide_eq_true_eq] at hstr'
  obtain ⟨htype, hlen, hza, -, heq⟩ := hstr'
  have henc := eq_of_strncaseeq hlen hla hlb hza heq
  rw [show b = a by cases a; cases b; simp_all]

end Agree

/-- **Equal identities may hash apart.** Under the key `hash_key` holds before it is
seeded, the FQDNs `A` and `a` are equal and have different hashes, and so have the DNs
`CN=A` and `CN=a` with PrintableString values. -/
theorem hash_ne_of_equals :
    Identification.equals ⟨.idFqdn, [0x41]⟩ ⟨.idFqdn, [0x61]⟩ = true ∧
      Identification.hash hashKeyUnseeded ⟨.idFqdn, [0x41]⟩ 0 ≠
        Identification.hash hashKeyUnseeded ⟨.idFqdn, [0x61]⟩ 0 ∧
      Identification.equals
        ⟨.idDerAsn1Dn, [0x30, 0x0C, 0x31, 0x0A, 0x30, 0x08, 0x06, 0x03, 0x55, 0x04, 0x03, 0x13, 0x01, 0x41]⟩
        ⟨.idDerAsn1Dn, [0x30, 0x0C, 0x31, 0x0A, 0x30, 0x08, 0x06, 0x03, 0x55, 0x04, 0x03, 0x13, 0x01, 0x61]⟩ =
        true ∧
      Identification.hash hashKeyUnseeded
        ⟨.idDerAsn1Dn, [0x30, 0x0C, 0x31, 0x0A, 0x30, 0x08, 0x06, 0x03, 0x55, 0x04, 0x03, 0x13, 0x01, 0x41]⟩ 0 ≠
        Identification.hash hashKeyUnseeded
          ⟨.idDerAsn1Dn, [0x30, 0x0C, 0x31, 0x0A, 0x30, 0x08, 0x06, 0x03, 0x55, 0x04, 0x03, 0x13, 0x01, 0x61]⟩ 0 := by
  decide +kernel

end VpnClient.Identity
