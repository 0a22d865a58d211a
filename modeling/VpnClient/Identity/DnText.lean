import VpnClient.Identity.Identification
import VpnClient.Identity.OidNames
import VpnClient.Identity.Asn1Time
import VpnClient.Utils.Codec

/-!
# DNs as text

`dntoa` and `atodn` of `libstrongswan/utils/identification.c`. The printf hook prints a DN
with `dntoa` into a buffer of `BUF_LEN` bytes as `K1=v1, K2=v2, ...`, and
`identification_create_from_string` reads such a text back into DER with `atodn`.

`dntoa` walks the DN with the RDN enumerator of `Identity/Identification.lean` and writes
each RDN with `snprintf`: the key under its name in `oid_names` (its octets in hex for an OID
the table lacks), the value with its unprintable bytes replaced by `?`, and the separator
`, ` unless the value ends the DN. A write that does not fit breaks the loop, and
`(invalid ID_DER_ASN1_DN)` is then written over it, cut to the room left. A value with a
`NULL` pointer, empty and last in its SEQUENCE, leaves its separator to the next RDN.

`atodn` is an automaton of five states over the bytes of the text and its `NUL`. It takes
`/` as the separator if the text starts with one and `,` otherwise, reads a key up to a
space or `=` and looks it up in `x501rdns` up to case, skips spaces and `=` before a value,
reads the value up to the separator, cuts the spaces at its end, and builds a SET of a
SEQUENCE of the key's OID and the value, under the key's string type, or UTF8String for a
PrintableString the value is not. It builds at most `RDN_MAX` RDNs.

**The two are inverse** (`dn_text_round_trip`) on keys of `x501rdns`, values of printable
ASCII without `,`, spaces at their ends or a leading `=`, at most `RDN_MAX` of them, and a
text that fits in the buffer. The last condition is not idle: a DN whose text takes
`BUF_LEN` bytes or more is printed cut off and reads back as another DN
(`dn_text_round_trip_long`). The proof runs `atodn` one part of the text at a time
(`atodn_key`, `atodn_value`, `atodn_space`, chained by `atodn_run`) and `dntoa` one RDN at
a time (`rdnEnumerate_rdnDer`, `dntoaTurn_next`, `dntoaTurn_last`, chained by
`dntoaLoop_rdnDer`); the facts about the two tables it needs are checked over the tables.
-/

namespace VpnClient.Identity

open VpnClient.Utils

/-! ## 1. The keys -/

/-- `x501rdn_t`: a key of a DN's text, the OID it stands for and the string type `atodn`
gives its values. -/
structure X501Rdn where
  name : String
  oid : ℕ
  type : UInt8
  deriving DecidableEq, Repr

/-- `x501rdns`. -/
def x501rdns : List X501Rdn := [
  ⟨"ND", oidNameDistinguisher, asn1Printablestring⟩,
  ⟨"UID", oidPilotUserid, asn1Printablestring⟩,
  ⟨"DC", oidPilotDomainComponent, asn1Printablestring⟩,
  ⟨"CN", oidCommonName, asn1Printablestring⟩,
  ⟨"SN", oidSurname, asn1Printablestring⟩,
  ⟨"serialNumber", oidSerialNumber, asn1Printablestring⟩,
  ⟨"C", oidCountry, asn1Printablestring⟩,
  ⟨"L", oidLocality, asn1Printablestring⟩,
  ⟨"ST", oidStateOrProvince, asn1Printablestring⟩,
  ⟨"STREET", oidStreetAddress, asn1Printablestring⟩,
  ⟨"O", oidOrganization, asn1Printablestring⟩,
  ⟨"OU", oidOrganizationUnit, asn1Printablestring⟩,
  ⟨"T", oidTitle, asn1Printablestring⟩,
  ⟨"D", oidDescription, asn1Printablestring⟩,
  ⟨"postalAddress", oidPostalAddress, asn1Printablestring⟩,
  ⟨"postalCode", oidPostalCode, asn1Printablestring⟩,
  ⟨"N", oidName, asn1Printablestring⟩,
  ⟨"G", oidGivenName, asn1Printablestring⟩,
  ⟨"I", oidInitials, asn1Printablestring⟩,
  ⟨"dnQualifier", oidDnQualifier, asn1Printablestring⟩,
  ⟨"dmdName", oidDmdName, asn1Printablestring⟩,
  ⟨"pseudonym", oidPseudonym, asn1Printablestring⟩,
  ⟨"ID", oidUniqueIdentifier, asn1Printablestring⟩,
  ⟨"EN", oidEmployeeNumber, asn1Printablestring⟩,
  ⟨"employeeNumber", oidEmployeeNumber, asn1Printablestring⟩,
  ⟨"E", oidEmailAddress, asn1Ia5string⟩,
  ⟨"Email", oidEmailAddress, asn1Ia5string⟩,
  ⟨"emailAddress", oidEmailAddress, asn1Ia5string⟩,
  ⟨"UN", oidUnstructuredName, asn1Ia5string⟩,
  ⟨"unstructuredName", oidUnstructuredName, asn1Ia5string⟩,
  ⟨"UA", oidUnstructuredAddress, asn1Printablestring⟩,
  ⟨"unstructuredAddress", oidUnstructuredAddress, asn1Printablestring⟩,
  ⟨"TCGID", oidTcgid, asn1Printablestring⟩
]

/-- `RDN_MAX`: the RDNs `atodn` builds at most. -/
def rdnMax : ℕ := 20

/-- The bytes of a key's name. -/
def X501Rdn.key (e : X501Rdn) : List UInt8 := bytesOf e.name.toList

/-! ## 2. `dntoa` -/

/-- The text of `print_separator`. -/
def rdnSeparator : List UInt8 := bytesOf ", ".toList

/-- The text `dntoa` writes after a DN it could not print to its end. -/
def invalidDn : List UInt8 := bytesOf "(invalid ID_DER_ASN1_DN)".toList

/-- The key `dntoa` writes for an OID: `"%s="` of its name in `oid_names`, or `"%#B="`,
its octets in hex, for `OID_UNKNOWN`. -/
def rdnKey (oidData : List UInt8) : List UInt8 :=
  match asn1KnownOid oidData with
  | some oid => bytesOf (oidAt oid).name.toList ++ [0x3d]
  | none => bytesOf (colonHex oidData false) ++ [0x3d]

/-- Whether the value `rdn_enumerate` returns next has a `NULL` pointer: `chunk_skip`
answers `chunk_empty` when it skips to the end of a chunk, so an empty value that ends its
SEQUENCE has none. -/
def rdnDataNull (sets seqs : List UInt8) : Bool :=
  match nextSet sets seqs with
  | none => false
  | some (_, seqs) =>
    match asn1Unwrap seqs with
    | some (_, rdn, _) =>
      match asn1Unwrap rdn with
      | some (_, _, rdn) =>
        match asn1Unwrap rdn with
        | some (_, data, rdn) => data.isEmpty && rdn.isEmpty
        | none => false
      | none => false
    | none => false

/-- What `dntoa` leaves in the buffer when its loop stops at `out` with `len` bytes of room:
nothing more for an empty DN or a finished one, else as much of the error text as fits. -/
def dntoaEnd (out : List UInt8) (len : ℕ) (finished empty : Bool) : List UInt8 :=
  if empty || finished then out else out ++ invalidDn.take (len - 1)

/-- Where one turn of `dntoa`'s loop leads: to the next turn, with the text written, the
room left and `finished`, or out of the loop with the buffer's text. -/
inductive DntoaTurn
  | next (out : List UInt8) (len : ℕ) (finished : Bool)
  | stop (text : List UInt8)
  deriving DecidableEq, Repr

/-- One turn of `dntoa`'s loop on an RDN: the separator a previous RDN with a `NULL` value
left unwritten, the key, the value with its unprintable bytes replaced by `?`, then the
separator unless the value ends the DN. A `snprintf` that does not fit breaks the loop. -/
def dntoaTurn (r : Rdn) (dataNull : Bool) (out : List UInt8) (len : ℕ) (finished : Bool) :
    DntoaTurn :=
  -- the previous RDN was empty but it wasn't the last one
  if finished ∧ len ≤ rdnSeparator.length then .stop (out ++ rdnSeparator.take (len - 1))
  else
    let out := if finished then out ++ rdnSeparator else out
    let len := if finished then len - rdnSeparator.length else len
    let key := rdnKey r.oid
    let value := chunkPrintable r.data 0x3f
    if len ≤ key.length then .stop (dntoaEnd out len false false)
    else if len - key.length ≤ value.length then
      .stop (dntoaEnd (out ++ key) (len - key.length) false false)
    else
      let out := out ++ key ++ value
      let len := len - key.length - value.length
      -- we can't calculate if we're finished, assume we are
      if dataNull then .next out len true
      else if r.atEnd then .stop out
      else if len ≤ rdnSeparator.length then .stop (dntoaEnd out len false false)
      else .next (out ++ rdnSeparator) (len - rdnSeparator.length) false

/-- `dntoa`'s loop over the RDN enumerator, `empty` until it returns an RDN. Every RDN
takes bytes of the DN, so the DN's length bounds the turns. -/
def dntoaLoop (trailing : List UInt8) :
    ℕ → List UInt8 → List UInt8 → List UInt8 → ℕ → Bool → Bool → List UInt8
  | 0, _, _, out, len, finished, empty => dntoaEnd out len finished empty
  | fuel + 1, sets, seqs, out, len, finished, empty =>
    match rdnEnumerate trailing sets seqs with
    | none => dntoaEnd out len finished empty
    | some (r, sets', seqs') =>
      match dntoaTurn r (rdnDataNull sets seqs) out len finished with
      | .next out len finished => dntoaLoop trailing fuel sets' seqs' out len finished false
      | .stop text => text

/-- `dntoa` into a buffer of `len` bytes: the text before the buffer's `NUL`. A blob that
is no SEQUENCE gets the empty enumerator. -/
def dntoa (dn : List UInt8) (len : ℕ) : List UInt8 :=
  match asn1Unwrap dn with
  | some (t, sets, trailing) =>
    if t = asn1Sequence then dntoaLoop trailing dn.length sets [] [] len false true
    else dntoaEnd [] len false true
  | none => dntoaEnd [] len false true

/-! ## 3. `atodn` -/

/-- `state_t`: the states of `atodn`'s automaton. -/
inductive AtodnState
  | searchOid | readOid | searchName | readName | unknownOid
  deriving DecidableEq, Repr

/-- The `status_t` values `atodn` returns. -/
inductive AtodnStatus
  | success | notSupported | invalidArg | outOfRes
  deriving DecidableEq, Repr

/-- The variables of `atodn`'s loop. The key and the value being read are kept as their
bytes, where the code points into `src`; `rdns` are the RDNs built, of which `rdn_count`
and `dn_len` are the number and the total length. -/
structure Atodn where
  state : AtodnState
  sep : UInt8
  oid : List UInt8
  name : List UInt8
  whitespace : ℕ
  i : ℕ
  rdns : List (List UInt8)
  status : AtodnStatus
  deriving DecidableEq, Repr

/-- The lookup of `READ_OID`: the first entry of `x501rdns` whose name has the key's
length and equals it up to case. -/
def findRdn (oid : List UInt8) : Option ℕ :=
  x501rdns.findIdx? fun e => e.key.length == oid.length && strncaseeq oid.length e.key oid

/-- `rdn_type`: the entry's string type, UTF8String in place of a PrintableString the
value is not. -/
def rdnType (type : UInt8) (name : List UInt8) : UInt8 :=
  if type = asn1Printablestring ∧ asn1IsPrintablestring name = false then asn1Utf8string else type

/-- `whitespace` after byte `c` of a value: the spaces it ends with. -/
def countSpace (whitespace : ℕ) (c : UInt8) : ℕ := if c = 0x20 then whitespace + 1 else 0

/-- `READ_NAME` on byte `c`: a byte of the value, with the spaces at its end counted, or at
the separator or the `NUL` the RDN of the value without those spaces. -/
def readName (s : Atodn) (c : UInt8) : Atodn :=
  if c ≠ s.sep ∧ c ≠ 0 then
    { s with name := s.name ++ [c], whitespace := countSpace s.whitespace c }
  else
    let name := s.name.take (s.name.length - s.whitespace)
    let e := x501rdns.getD s.i ⟨"", 0, 0⟩
    let s :=
      if s.rdns.length < rdnMax then
        let rdnOid := asn1BuildKnownOid e.oid
        if rdnOid.length ≠ 0 then
          { s with rdns := s.rdns ++
              [asn1Wrap asn1Set [asn1Wrap asn1Sequence [rdnOid, asn1Wrap (rdnType e.type name) [name]]]] }
        else { s with status := .invalidArg }
      else { s with status := .outOfRes }
    -- reset name and change state
    { s with name := [], state := .searchOid }

/-- One turn of `atodn`'s automaton on byte `c`. -/
def atodnStep (s : Atodn) (c : UInt8) : Atodn :=
  match s.state with
  | .searchOid =>
    -- use / as separator if the string starts with a slash
    if s.sep = 0 ∧ c = 0x2f then { s with sep := 0x2f }
    else if c ≠ 0x20 ∧ c ≠ 0 then
      -- use , as separator by default
      { s with sep := if s.sep = 0 then 0x2c else s.sep, oid := [c], state := .readOid }
    else s
  | .readOid =>
    if c ≠ 0x20 ∧ c ≠ 0x3d then { s with oid := s.oid ++ [c] }
    else
      match findRdn s.oid with
      | some i => { s with i := i, oid := [], state := .searchName }
      | none => { s with i := x501rdns.length, status := .notSupported, state := .unknownOid }
  | .searchName =>
    if c = 0x20 ∨ c = 0x3d then s
    else if c ≠ s.sep ∧ c ≠ 0 then { s with name := [c], whitespace := 0, state := .readName }
    -- an empty value: on to `READ_NAME` with the separator or the `NUL`
    else readName { s with name := [], whitespace := 0, state := .readName } c
  | .readName => readName s c
  | .unknownOid => s

/-- The state `atodn` starts in. -/
def atodnInit : Atodn := ⟨.searchOid, 0, [], [], 0, 0, [], .success⟩

/-- `atodn`: the status and the DER DN, `chunk_empty` unless the status is `SUCCESS`. The
loop reads `src` up to and with its `NUL`. -/
def atodn (src : List UInt8) : AtodnStatus × List UInt8 :=
  let s := (src.takeWhile (· != 0) ++ [0]).foldl atodnStep atodnInit
  -- unterminated OID
  let status := if s.state = .readOid then .invalidArg else s.status
  (status, if status = .success then asn1Wrap asn1Sequence s.rdns else [])

/-! ## 4. The texts and DNs of the round trip -/

/-- The DER of the RDN `atodn` builds from entry `e` and value `v`. -/
def rdnDer (e : X501Rdn) (v : List UInt8) : List UInt8 :=
  asn1Wrap asn1Set [asn1Wrap asn1Sequence [asn1BuildKnownOid e.oid, asn1Wrap (rdnType e.type v) [v]]]

/-- The DER DN of RDNs, one in each SET. -/
def dnDer (rdns : List (X501Rdn × List UInt8)) : List UInt8 :=
  asn1Wrap asn1Sequence (rdns.map fun p => rdnDer p.1 p.2)

/-- The text `K1=v1, K2=v2, ...` of keys and values. -/
def dnText (rdns : List (List UInt8 × List UInt8)) : List UInt8 :=
  rdnSeparator.intercalate (rdns.map fun p => p.1 ++ [0x3d] ++ p.2)

/-- The key `dntoa` writes for an entry: the name `oid_names` gives its OID. -/
def X501Rdn.printed (e : X501Rdn) : List UInt8 := bytesOf (oidAt e.oid).name.toList

/-- The entry `atodn` reads a key as. -/
def keyEntry (k : List UInt8) : X501Rdn := x501rdns.getD ((findRdn k).getD 0) ⟨"", 0, 0⟩

/-- A value the round trip keeps: not empty, of printable ASCII without `,`, with no space
at either end and no `=` in front. -/
def DnValue (v : List UInt8) : Prop :=
  v ≠ [] ∧ (∀ c ∈ v, isPrint c = true) ∧ 0x2c ∉ v ∧ v.head? ≠ some 0x20 ∧ v.head? ≠ some 0x3d ∧
    v.getLast? ≠ some 0x20

instance : DecidablePred DnValue := fun _ => inferInstanceAs (Decidable (_ ∧ _))

theorem dnText_singleton (p : List UInt8 × List UInt8) : dnText [p] = p.1 ++ 0x3d :: p.2 := by
  simp [dnText]

theorem dnText_cons_cons (p q : List UInt8 × List UInt8) (ps : List (List UInt8 × List UInt8)) :
    dnText (p :: q :: ps) = p.1 ++ 0x3d :: (p.2 ++ 0x2c :: 0x20 :: dnText (q :: ps)) := by
  simp [dnText, List.intercalate_cons_cons, rdnSeparator, bytesOf]

/-- What holds of the keys, the values and the separator holds of the text. -/
theorem forall_mem_dnText (P : UInt8 → Prop) (hsep : P 0x2c ∧ P 0x20 ∧ P 0x3d) :
    ∀ ps : List (List UInt8 × List UInt8), (∀ p ∈ ps, (∀ c ∈ p.1, P c) ∧ ∀ c ∈ p.2, P c) →
      ∀ c ∈ dnText ps, P c
  | [], _ => by simp [dnText]
  | [p], hps => by
    obtain ⟨hk, hv⟩ := hps p List.mem_cons_self
    simp only [dnText_singleton, List.mem_append, List.mem_cons]
    rintro c (hc | rfl | hc)
    exacts [hk c hc, hsep.2.2, hv c hc]
  | p :: q :: ps, hps => by
    obtain ⟨hk, hv⟩ := hps p List.mem_cons_self
    have ih := forall_mem_dnText P hsep (q :: ps) fun p' hp' => hps p' (List.mem_cons_of_mem _ hp')
    simp only [dnText_cons_cons, List.mem_append, List.mem_cons]
    rintro c (hc | rfl | hc | rfl | rfl | hc)
    exacts [hk c hc, hsep.2.2, hv c hc, hsep.1, hsep.2.1, ih c hc]

/-- Every value is part of the text. -/
theorem length_le_dnText : ∀ {ps : List (List UInt8 × List UInt8)} {p : List UInt8 × List UInt8},
    p ∈ ps → p.2.length ≤ (dnText ps).length
  | [q], p, hp => by
    rw [List.mem_singleton.mp hp, dnText_singleton]
    simp only [List.length_append, List.length_cons]
    omega
  | q :: q' :: ps, p, hp => by
    rw [dnText_cons_cons]
    rcases List.mem_cons.mp hp with rfl | hp
    · simp only [List.length_append, List.length_cons]
      omega
    · have := length_le_dnText hp
      simp only [List.length_append, List.length_cons]
      omega

/-! ## 5. What the tables give -/

/-- A letter of ASCII. -/
def IsAlpha (c : UInt8) : Prop := (0x41 ≤ c ∧ c ≤ 0x5a) ∨ (0x61 ≤ c ∧ c ≤ 0x7a)

instance : DecidablePred IsAlpha := fun _ => inferInstanceAs (Decidable (_ ∨ _))

/-- The checks of `x501rdns` that the three lemmas below unpack, decided as one boolean: one
evaluation by the kernel in place of three. -/
theorem x501rdns_checks :
    (x501rdns.all fun e => decide (e.oid < oidMax ∧ (oidOctets e.oid).length = (oidAt e.oid).level + 1 ∧
        (oidAt e.oid).level + 1 < 128 ∧ asn1KnownOid (oidOctets e.oid) = some e.oid)) = true ∧
      ((List.range x501rdns.length).all fun j => findRdn (x501rdns.getD j ⟨"", 0, 0⟩).key == some j) = true ∧
      (x501rdns.all fun e => !e.key.isEmpty && e.key.all fun c => decide (IsAlpha c)) = true := by
  decide +kernel

/-- Every OID of `x501rdns` is in `oid_names`, `asn1_build_known_oid` writes fewer than 128
octets for it, and `asn1_known_oid` finds it from them. -/
theorem x501rdns_oid : ∀ e ∈ x501rdns, e.oid < oidMax ∧ (oidOctets e.oid).length = (oidAt e.oid).level + 1 ∧
    (oidAt e.oid).level + 1 < 128 ∧ asn1KnownOid (oidOctets e.oid) = some e.oid := by
  intro e he
  exact of_decide_eq_true (List.all_eq_true.mp x501rdns_checks.1 e he)

/-- No two names of `x501rdns` agree up to case: looking up an entry's name finds the entry. -/
theorem findRdn_key : ∀ j < x501rdns.length, findRdn (x501rdns.getD j ⟨"", 0, 0⟩).key = some j := by
  intro j hj
  exact eq_of_beq (List.all_eq_true.mp x501rdns_checks.2.1 j (List.mem_range.mpr hj))

/-- The names of `x501rdns` are words of letters. -/
theorem x501rdns_key : ∀ e ∈ x501rdns, e.key ≠ [] ∧ ∀ c ∈ e.key, IsAlpha c := by
  intro e he
  have he' := List.all_eq_true.mp x501rdns_checks.2.2 e he
  simp only [Bool.and_eq_true, Bool.not_eq_eq_eq_not, Bool.not_true, List.isEmpty_eq_false_iff, List.all_eq_true,
    decide_eq_true_eq] at he'
  exact he'

theorem IsAlpha.ne {c : UInt8} (h : IsAlpha c) : c ≠ 0 ∧ c ≠ 0x20 ∧ c ≠ 0x2c ∧ c ≠ 0x2f ∧ c ≠ 0x3d := by
  refine ⟨?_, ?_, ?_, ?_, ?_⟩ <;> rintro rfl <;> revert h <;> decide

theorem isAlpha_toLower (c : UInt8) : IsAlpha (toLower c) ↔ IsAlpha c := by
  unfold toLower IsAlpha
  split_ifs with h
  · simp only [UInt8.le_iff_toNat_le, UInt8.toNat_add, UInt8.reduceToNat] at h ⊢
    omega
  · rfl

/-- A string that agrees up to case with a word of letters is one. -/
theorem isAlpha_of_strncaseeq : ∀ {s₁ s₂ : List UInt8}, s₁.length = s₂.length → (∀ c ∈ s₁, IsAlpha c) →
    strncaseeq s₁.length s₁ s₂ = true → ∀ c ∈ s₂, IsAlpha c
  | [], [], _, _, _ => by simp
  | c₁ :: s₁, c₂ :: s₂, hlen, ha, h => by
    have ha₁ := ha c₁ List.mem_cons_self
    simp only [strncaseeq, List.length_cons, Bool.and_eq_true, beq_iff_eq, Bool.or_eq_true] at h
    obtain ⟨hc, hz | hs⟩ := h
    · exact absurd hz ha₁.ne.1
    · intro c hc'
      rcases List.mem_cons.mp hc' with rfl | hc'
      · exact (isAlpha_toLower c).mp (hc ▸ (isAlpha_toLower c₁).mpr ha₁)
      · exact isAlpha_of_strncaseeq (by simpa using hlen) (fun c hc => ha c (List.mem_cons_of_mem _ hc)) hs c hc'

/-- A key `atodn` finds is a word of letters, and names an entry. -/
theorem findRdn_spec {k : List UInt8} {j : ℕ} (h : findRdn k = some j) :
    j < x501rdns.length ∧ k ≠ [] ∧ ∀ c ∈ k, IsAlpha c := by
  obtain ⟨hj, hp, -⟩ := List.findIdx?_eq_some_iff_getElem.mp h
  have hmem : x501rdns[j] ∈ x501rdns := List.getElem_mem hj
  obtain ⟨hne, ha⟩ := x501rdns_key _ hmem
  simp only [Bool.and_eq_true, beq_iff_eq] at hp
  obtain ⟨hlen, heq⟩ := hp
  refine ⟨hj, ?_, isAlpha_of_strncaseeq hlen ha (hlen ▸ heq)⟩
  intro hk
  rw [hk, List.length_nil, List.length_eq_zero_iff] at hlen
  exact hne hlen

theorem asn1BuildKnownOid_of_mem {e : X501Rdn} (he : e ∈ x501rdns) :
    asn1BuildKnownOid e.oid = asn1SimpleObject asn1Oid (oidOctets e.oid) := by
  obtain ⟨hlt, hlen, h128, -⟩ := x501rdns_oid e he
  rw [asn1BuildKnownOid, if_neg (Nat.not_le.mpr hlt), asn1SimpleObject, asn1BuildObject, asn1CodeLength,
    if_pos (hlen ▸ h128), hlen]
  rfl

theorem rdnKey_oidOctets {e : X501Rdn} (he : e ∈ x501rdns) : rdnKey (oidOctets e.oid) = e.printed ++ [0x3d] := by
  rw [rdnKey, (x501rdns_oid e he).2.2.2]
  rfl

/-! ## 6. `dntoa` on a DER DN -/

theorem rdnDer_eq {e : X501Rdn} (he : e ∈ x501rdns) (v : List UInt8) :
    rdnDer e v = asn1SimpleObject asn1Set (asn1SimpleObject asn1Sequence
      (asn1SimpleObject asn1Oid (oidOctets e.oid) ++ asn1SimpleObject (rdnType e.type v) v)) := by
  simp only [rdnDer, asn1Wrap_eq, List.flatten_cons, List.flatten_nil, List.append_nil,
    asn1BuildKnownOid_of_mem he]

theorem rdnDer_ne_nil (e : X501Rdn) (v : List UInt8) : rdnDer e v ≠ [] := by
  simp [rdnDer, asn1Wrap, asn1BuildObject]

/-- The contents of an RDN's SEQUENCE: its OID and its value. -/
theorem length_rdnSeq_le {e : X501Rdn} (he : e ∈ x501rdns) (v : List UInt8) :
    (asn1SimpleObject asn1Oid (oidOctets e.oid) ++ asn1SimpleObject (rdnType e.type v) v).length ≤
      v.length + 137 := by
  have hoid : (oidOctets e.oid).length < 128 := by
    have := x501rdns_oid e he
    omega
  have h₁ := length_asn1SimpleObject_le asn1Oid (oidOctets e.oid)
  have h₂ := length_asn1SimpleObject_le (rdnType e.type v) v
  rw [List.length_append]
  omega

theorem length_rdnDer_le {e : X501Rdn} (he : e ∈ x501rdns) (v : List UInt8) :
    (rdnDer e v).length ≤ v.length + 147 := by
  have hseq := length_rdnSeq_le he v
  rw [rdnDer_eq he]
  calc _ ≤ (asn1SimpleObject asn1Sequence
          (asn1SimpleObject asn1Oid (oidOctets e.oid) ++ asn1SimpleObject (rdnType e.type v) v)).length + 5 :=
        length_asn1SimpleObject_le _ _
    _ ≤ v.length + 147 := by
        have := length_asn1SimpleObject_le asn1Sequence
          (asn1SimpleObject asn1Oid (oidOctets e.oid) ++ asn1SimpleObject (rdnType e.type v) v)
        omega

/-- The four objects `rdn_enumerate` unwraps in an RDN `atodn` builds: the SET with what
follows it, the SEQUENCE in it, the OID and the value. -/
theorem unwrap_rdnDer {e : X501Rdn} (he : e ∈ x501rdns) {v : List UInt8} (hv : v.length < 2 ^ 16)
    (rest : List UInt8) :
    asn1Unwrap (rdnDer e v ++ rest) = some (asn1Set, asn1SimpleObject asn1Sequence
        (asn1SimpleObject asn1Oid (oidOctets e.oid) ++ asn1SimpleObject (rdnType e.type v) v), rest) ∧
      asn1Unwrap (asn1SimpleObject asn1Sequence
        (asn1SimpleObject asn1Oid (oidOctets e.oid) ++ asn1SimpleObject (rdnType e.type v) v)) =
        some (asn1Sequence, asn1SimpleObject asn1Oid (oidOctets e.oid) ++ asn1SimpleObject (rdnType e.type v) v, []) ∧
      asn1Unwrap (asn1SimpleObject asn1Oid (oidOctets e.oid) ++ asn1SimpleObject (rdnType e.type v) v) =
        some (asn1Oid, oidOctets e.oid, asn1SimpleObject (rdnType e.type v) v) ∧
      asn1Unwrap (asn1SimpleObject (rdnType e.type v) v) = some (rdnType e.type v, v, []) := by
  have hseq := length_rdnSeq_le he v
  have hseq' : (asn1SimpleObject asn1Sequence
      (asn1SimpleObject asn1Oid (oidOctets e.oid) ++ asn1SimpleObject (rdnType e.type v) v)).length < 2 ^ 24 := by
    have := length_asn1SimpleObject_le asn1Sequence
      (asn1SimpleObject asn1Oid (oidOctets e.oid) ++ asn1SimpleObject (rdnType e.type v) v)
    omega
  have hoid : (oidOctets e.oid).length < 2 ^ 24 := by
    have := x501rdns_oid e he
    omega
  refine ⟨?_, ?_, asn1Unwrap_simpleObject _ hoid _, ?_⟩
  · rw [rdnDer_eq he]
    exact asn1Unwrap_simpleObject _ hseq' _
  · simpa using asn1Unwrap_simpleObject asn1Sequence (by omega) []
  · simpa using asn1Unwrap_simpleObject (rdnType e.type v) (by omega) []

/-- `rdn_enumerate` on an RDN `atodn` builds: its OID's octets, its type and its value, which
ends the DN when it is not empty and nothing follows it. -/
theorem rdnEnumerate_rdnDer {e : X501Rdn} (he : e ∈ x501rdns) {v : List UInt8} (hv : v.length < 2 ^ 16)
    (rest trailing : List UInt8) :
    rdnEnumerate trailing (rdnDer e v ++ rest) [] =
      some (⟨oidOctets e.oid, rdnType e.type v, v, !v.isEmpty && rest.isEmpty && trailing.isEmpty⟩, rest, []) := by
  obtain ⟨hset, hseq, hoid, hval⟩ := unwrap_rdnDer he hv rest
  simp [rdnEnumerate, nextSet, hset, hseq, hoid, hval]

theorem rdnDataNull_rdnDer {e : X501Rdn} (he : e ∈ x501rdns) {v : List UInt8} (hv : v.length < 2 ^ 16)
    (hne : v ≠ []) (rest : List UInt8) : rdnDataNull (rdnDer e v ++ rest) [] = false := by
  obtain ⟨hset, hseq, hoid, hval⟩ := unwrap_rdnDer he hv rest
  simp [rdnDataNull, nextSet, hset, hseq, hoid, hval, hne]

/-- A last RDN that fits is written whole, and ends the text. -/
theorem dntoaTurn_last {r : Rdn} (hp : ∀ c ∈ r.data, isPrint c = true) (hend : r.atEnd = true)
    {out : List UInt8} {len : ℕ} (hlen : (rdnKey r.oid).length + r.data.length < len) :
    dntoaTurn r false out len false = .stop (out ++ rdnKey r.oid ++ r.data) := by
  simp only [dntoaTurn, Bool.false_eq_true, false_and, if_false, chunkPrintable_of_isPrint hp, hend, if_true]
  rw [if_neg (by omega), if_neg (by omega)]

/-- An RDN that fits with the separator after it is written so. -/
theorem dntoaTurn_next {r : Rdn} (hp : ∀ c ∈ r.data, isPrint c = true) (hend : r.atEnd = false)
    {out : List UInt8} {len : ℕ} (hlen : (rdnKey r.oid).length + r.data.length + rdnSeparator.length < len) :
    dntoaTurn r false out len false =
      .next (out ++ rdnKey r.oid ++ r.data ++ rdnSeparator)
        (len - (rdnKey r.oid).length - r.data.length - rdnSeparator.length) false := by
  simp only [dntoaTurn, Bool.false_eq_true, false_and, if_false, chunkPrintable_of_isPrint hp, hend]
  rw [if_neg (by omega), if_neg (by omega), if_neg (by omega)]

theorem rdnSeparator_eq : rdnSeparator = [0x2c, 0x20] := rfl

/-- **`dntoa`'s loop over the RDNs `atodn` builds** writes their keys and values with the
separator between them, when they fit in the room left. -/
theorem dntoaLoop_rdnDer : ∀ (ps : List (X501Rdn × List UInt8)),
    (∀ p ∈ ps, p.1 ∈ x501rdns ∧ DnValue p.2 ∧ p.2.length < 2 ^ 16) → ps ≠ [] →
    ∀ (fuel : ℕ) (out : List UInt8) (len : ℕ) (empty : Bool), ps.length ≤ fuel →
      (dnText (ps.map fun p => (p.1.printed, p.2))).length < len →
      dntoaLoop [] fuel (ps.map fun p => rdnDer p.1 p.2).flatten [] out len false empty =
        out ++ dnText (ps.map fun p => (p.1.printed, p.2))
  | [], _, hne => absurd rfl hne
  | [p], hps, _ => by
    intro fuel out len empty hfuel hlen
    obtain ⟨fuel, rfl⟩ : ∃ f, fuel = f + 1 := ⟨fuel - 1, by simp at hfuel; omega⟩
    obtain ⟨he, hv, hsmall⟩ := hps p List.mem_cons_self
    have hkey : (rdnKey (oidOctets p.1.oid)).length = p.1.printed.length + 1 := by
      rw [rdnKey_oidOctets he, List.length_append, List.length_singleton]
    have htext : dnText ([p].map fun p => (p.1.printed, p.2)) = p.1.printed ++ 0x3d :: p.2 :=
      dnText_singleton _
    rw [htext] at hlen ⊢
    simp only [List.length_append, List.length_cons] at hlen
    -- the only RDN ends the DN
    rw [show ([p].map fun p => rdnDer p.1 p.2).flatten = rdnDer p.1 p.2 ++ [] from by simp, dntoaLoop,
      rdnEnumerate_rdnDer he hsmall [] []]
    dsimp only
    rw [rdnDataNull_rdnDer he hsmall hv.1, dntoaTurn_last hv.2.1 (by simp [hv.1]) (by rw [hkey]; dsimp only; omega),
      rdnKey_oidOctets he]
    simp
  | p :: q :: ps, hps, _ => by
    intro fuel out len empty hfuel hlen
    obtain ⟨fuel, rfl⟩ : ∃ f, fuel = f + 1 := ⟨fuel - 1, by simp at hfuel; omega⟩
    obtain ⟨he, hv, hsmall⟩ := hps p List.mem_cons_self
    have ih := dntoaLoop_rdnDer (q :: ps) (fun p' hp' => hps p' (List.mem_cons_of_mem _ hp'))
      (List.cons_ne_nil _ _)
    have hkey : (rdnKey (oidOctets p.1.oid)).length = p.1.printed.length + 1 := by
      rw [rdnKey_oidOctets he, List.length_append, List.length_singleton]
    have hrest : ((q :: ps).map fun p => rdnDer p.1 p.2).flatten.isEmpty = false := by
      rw [List.map_cons, List.flatten_cons, List.isEmpty_eq_false_iff]
      exact List.append_ne_nil_of_left_ne_nil (rdnDer_ne_nil _ _) _
    have htext : dnText ((p :: q :: ps).map fun p => (p.1.printed, p.2)) =
        p.1.printed ++ 0x3d :: (p.2 ++ rdnSeparator ++ dnText ((q :: ps).map fun p => (p.1.printed, p.2))) := by
      rw [rdnSeparator_eq, List.append_assoc]
      exact dnText_cons_cons _ _ _
    rw [htext] at hlen ⊢
    simp only [List.length_append, List.length_cons] at hlen
    -- the first RDN is followed by the others, so the separator comes after it
    rw [show ((p :: q :: ps).map fun p => rdnDer p.1 p.2).flatten =
        rdnDer p.1 p.2 ++ ((q :: ps).map fun p => rdnDer p.1 p.2).flatten from rfl, dntoaLoop,
      rdnEnumerate_rdnDer he hsmall _ []]
    dsimp only
    rw [rdnDataNull_rdnDer he hsmall hv.1, dntoaTurn_next hv.2.1 (by rw [hrest, Bool.and_false, Bool.false_and])
      (by rw [hkey]; dsimp only; omega)]
    dsimp only
    rw [ih fuel _ _ false (by simp only [List.length_cons] at hfuel ⊢; omega) (by rw [hkey]; omega),
      rdnKey_oidOctets he]
    simp

/-- Each RDN `atodn` builds takes at least one byte and at most 147 more than its value. -/
theorem length_flatten_rdnDer : ∀ ps : List (X501Rdn × List UInt8),
    (∀ p ∈ ps, p.1 ∈ x501rdns ∧ p.2.length < 2 ^ 16) →
    ps.length ≤ (ps.map fun p => rdnDer p.1 p.2).flatten.length ∧
      (ps.map fun p => rdnDer p.1 p.2).flatten.length ≤ ps.length * (2 ^ 16 + 147)
  | [], _ => by simp
  | p :: ps, hps => by
    obtain ⟨he, hv⟩ := hps p List.mem_cons_self
    have ih := length_flatten_rdnDer ps fun p' hp' => hps p' (List.mem_cons_of_mem _ hp')
    have hle := length_rdnDer_le he p.2
    have hpos : 0 < (rdnDer p.1 p.2).length := List.length_pos_iff.mpr (rdnDer_ne_nil _ _)
    simp only [List.map_cons, List.flatten_cons, List.length_append, List.length_cons]
    constructor <;> omega

/-- **`dntoa` prints a DN `atodn` builds**: its keys, in the names `oid_names` gives their
OIDs, and its values, when the text fits in the buffer. -/
theorem dntoa_dnDer (ps : List (X501Rdn × List UInt8))
    (hps : ∀ p ∈ ps, p.1 ∈ x501rdns ∧ DnValue p.2 ∧ p.2.length < 2 ^ 16) (hcount : ps.length ≤ rdnMax)
    {len : ℕ} (hlen : (dnText (ps.map fun p => (p.1.printed, p.2))).length < len) :
    dntoa (dnDer ps) len = dnText (ps.map fun p => (p.1.printed, p.2)) := by
  obtain ⟨hlo, hhi⟩ := length_flatten_rdnDer ps fun p hp => ⟨(hps p hp).1, (hps p hp).2.2⟩
  have hflat : (ps.map fun p => rdnDer p.1 p.2).flatten.length < 2 ^ 24 := by
    unfold rdnMax at hcount
    omega
  have hdn : dnDer ps = asn1SimpleObject asn1Sequence (ps.map fun p => rdnDer p.1 p.2).flatten ++ [] := by
    rw [dnDer, asn1Wrap_eq, List.append_nil]
  have hfuel : ps.length ≤ (dnDer ps).length := by
    rw [hdn]
    simp only [asn1SimpleObject, asn1BuildObject, List.length_append, List.length_cons, List.length_nil]
    omega
  unfold dntoa
  rw [hdn, asn1Unwrap_simpleObject _ hflat, ← hdn]
  dsimp only
  rw [if_pos rfl]
  by_cases hne : ps = []
  · -- an empty DN is an empty text
    subst hne
    rfl
  · rw [dntoaLoop_rdnDer ps hps hne _ [] len true hfuel hlen, List.nil_append]

/-! ## 7. `atodn` on a text -/

/-- The state of `atodn` between the parts of a text: no key or value pending, `sep` the
separator chosen, `i` the entry of the last key and `rdns` the RDNs built. -/
def atodnAt (state : AtodnState) (sep : UInt8) (i : ℕ) (rdns : List (List UInt8)) : Atodn :=
  ⟨state, sep, [], [], 0, i, rdns, .success⟩

theorem ne_zero_of_isPrint {c : UInt8} (h : isPrint c = true) : c ≠ 0 := by
  rintro rfl
  exact absurd h (by decide)

/-- `READ_OID` takes every byte but a space or `=` into the key. -/
theorem readOid_run : ∀ (w : List UInt8) (s : Atodn), s.state = .readOid →
    (∀ c ∈ w, c ≠ 0x20 ∧ c ≠ 0x3d) → w.foldl atodnStep s = { s with oid := s.oid ++ w }
  | [], s, _, _ => by simp
  | c :: w, s, hs, hw => by
    obtain ⟨hsp, heq⟩ := hw c List.mem_cons_self
    have hstep : atodnStep s c = { s with oid := s.oid ++ [c] } := by
      simp [atodnStep, hs, hsp, heq]
    rw [List.foldl_cons, hstep,
      readOid_run w { s with oid := s.oid ++ [c] } hs fun c hc => hw c (List.mem_cons_of_mem _ hc)]
    simp

/-- `READ_NAME` takes every byte but the separator or a `NUL` into the value, counting the
spaces at its end. -/
theorem readName_run : ∀ (w : List UInt8) (s : Atodn), s.state = .readName →
    (∀ c ∈ w, c ≠ s.sep ∧ c ≠ 0) →
      w.foldl atodnStep s = { s with name := s.name ++ w, whitespace := w.foldl countSpace s.whitespace }
  | [], s, _, _ => by simp
  | c :: w, s, hs, hw => by
    obtain ⟨hsep, hz⟩ := hw c List.mem_cons_self
    have hstep : atodnStep s c = { s with name := s.name ++ [c], whitespace := countSpace s.whitespace c } := by
      simp [atodnStep, hs, readName, hsep, hz]
    have hrun := readName_run w { s with name := s.name ++ [c], whitespace := countSpace s.whitespace c } hs
      fun c hc => hw c (List.mem_cons_of_mem _ hc)
    rw [List.foldl_cons, hstep, hrun]
    simp

/-- At the separator or the `NUL`, `READ_NAME` builds the RDN of the value read, without the
spaces at its end. -/
theorem readName_end {s : Atodn} {c : UInt8} (hc : c = s.sep ∨ c = 0)
    (he : x501rdns.getD s.i ⟨"", 0, 0⟩ ∈ x501rdns) (hcount : s.rdns.length < rdnMax) :
    readName s c = { s with name := [], state := .searchOid, rdns := s.rdns ++
      [rdnDer (x501rdns.getD s.i ⟨"", 0, 0⟩) (s.name.take (s.name.length - s.whitespace))] } := by
  have hend : ¬(c ≠ s.sep ∧ c ≠ 0) := by
    rintro ⟨h₁, h₂⟩
    rcases hc with h | h
    exacts [h₁ h, h₂ h]
  unfold readName
  rw [if_neg hend]
  dsimp only
  rw [if_pos hcount]
  generalize x501rdns.getD s.i ⟨"", 0, 0⟩ = e at he ⊢
  have hoid : (asn1BuildKnownOid e.oid).length ≠ 0 := by
    rw [asn1BuildKnownOid_of_mem he]
    simp [asn1SimpleObject, asn1BuildObject]
  rw [if_pos hoid]
  rfl

theorem foldl_countSpace_eq_zero {w : List UInt8} (hne : w ≠ []) (hlast : w.getLast? ≠ some 0x20) (n : ℕ) :
    w.foldl countSpace n = 0 := by
  obtain ⟨w', c, rfl⟩ := (List.eq_nil_or_concat w).resolve_left hne
  rw [List.concat_eq_append, List.getLast?_concat] at hlast
  rw [List.concat_eq_append, List.foldl_append, List.foldl_cons, List.foldl_nil, countSpace, if_neg]
  intro h
  exact hlast (by rw [h])

/-- **A key and its `=`**: from the search for a key, a key `atodn` finds leaves it searching
for the value, with `,` as the separator. -/
theorem atodn_key {sep : UInt8} (hsep : sep = 0 ∨ sep = 0x2c) (i : ℕ) (rdns : List (List UInt8))
    {k : List UInt8} {j : ℕ} (hk : findRdn k = some j) (rest : List UInt8) :
    (k ++ 0x3d :: rest).foldl atodnStep (atodnAt .searchOid sep i rdns) =
      rest.foldl atodnStep (atodnAt .searchName 0x2c j rdns) := by
  obtain ⟨-, hne, ha⟩ := findRdn_spec hk
  obtain ⟨c, w, rfl⟩ := List.exists_cons_of_ne_nil hne
  obtain ⟨hc0, hc1, -, hc3, hc4⟩ := (ha c List.mem_cons_self).ne
  -- the first letter opens the key, and makes `,` the separator
  have hfirst : atodnStep (atodnAt .searchOid sep i rdns) c =
      { atodnAt .searchOid 0x2c i rdns with oid := [c], state := .readOid } := by
    rcases hsep with rfl | rfl <;> simp [atodnStep, atodnAt, hc0, hc1, hc3]
  have hw : ∀ c' ∈ w, c' ≠ 0x20 ∧ c' ≠ 0x3d := fun c' hc' =>
    have h := (ha c' (List.mem_cons_of_mem _ hc')).ne
    ⟨h.2.1, h.2.2.2.2⟩
  rw [List.cons_append, List.foldl_cons, hfirst, List.foldl_append, readOid_run w _ rfl hw, List.foldl_cons]
  -- the `=` ends the key, which names entry `j`
  congr 1
  simp [atodnStep, atodnAt, hk]

/-- **A value and its end**: from the search for a value, a value the round trip keeps and
the separator or the `NUL` after it leave `atodn` searching for the next key, with the RDN
of the value built. -/
theorem atodn_value {j : ℕ} (hj : j < x501rdns.length) {v : List UInt8} (hv : DnValue v) {t : UInt8}
    (ht : t = 0x2c ∨ t = 0) {rdns : List (List UInt8)} (hcount : rdns.length < rdnMax) (rest : List UInt8) :
    (v ++ t :: rest).foldl atodnStep (atodnAt .searchName 0x2c j rdns) =
      rest.foldl atodnStep (atodnAt .searchOid 0x2c j (rdns ++ [rdnDer (x501rdns.getD j ⟨"", 0, 0⟩) v])) := by
  obtain ⟨hne, hp, hcomma, hsp, heq, hlast⟩ := hv
  obtain ⟨c, w, rfl⟩ := List.exists_cons_of_ne_nil hne
  have hc0 := ne_zero_of_isPrint (hp c List.mem_cons_self)
  have hcc : c ≠ 0x2c := fun h => hcomma (h ▸ List.mem_cons_self)
  have hc1 : c ≠ 0x20 := fun h => hsp (by rw [h]; rfl)
  have hc2 : c ≠ 0x3d := fun h => heq (by rw [h]; rfl)
  -- the first byte opens the value
  have hfirst : atodnStep (atodnAt .searchName 0x2c j rdns) c =
      { atodnAt .searchName 0x2c j rdns with name := [c], whitespace := 0, state := .readName } := by
    simp [atodnStep, atodnAt, hc0, hcc, hc1, hc2]
  have hw : ∀ c' ∈ w, c' ≠ 0x2c ∧ c' ≠ 0 := fun c' hc' =>
    ⟨fun h => hcomma (h ▸ List.mem_cons_of_mem _ hc'), ne_zero_of_isPrint (hp c' (List.mem_cons_of_mem _ hc'))⟩
  rw [List.cons_append, List.foldl_cons, hfirst, List.foldl_append, readName_run w _ rfl hw, List.foldl_cons]
  congr 1
  -- the value ends in no space, so none is cut
  have hws : w.foldl countSpace 0 = 0 := by
    by_cases hw' : w = []
    · rw [hw']
      rfl
    · obtain ⟨d, w', rfl⟩ := List.exists_cons_of_ne_nil hw'
      rw [List.getLast?_cons_cons] at hlast
      exact foldl_countSpace_eq_zero hw' hlast 0
  have he : x501rdns.getD j ⟨"", 0, 0⟩ ∈ x501rdns := by
    rw [List.getD_eq_getElem _ _ hj]
    exact List.getElem_mem hj
  simp only [atodnStep, atodnAt]
  rw [readName_end ht he hcount]
  simp [hws]

/-- After a separator's `,`, its space is skipped. -/
theorem atodn_space (i : ℕ) (rdns : List (List UInt8)) (rest : List UInt8) :
    (0x20 :: rest).foldl atodnStep (atodnAt .searchOid 0x2c i rdns) =
      rest.foldl atodnStep (atodnAt .searchOid 0x2c i rdns) := rfl

/-- **`atodn`'s automaton on a text** of keys it finds and values the round trip keeps: it
builds one RDN for each, from the search for a key to the search for the next. -/
theorem atodn_run : ∀ ps : List (List UInt8 × List UInt8),
    (∀ p ∈ ps, (findRdn p.1).isSome ∧ DnValue p.2) → ps ≠ [] →
    ∀ (sep : UInt8) (i : ℕ) (rdns : List (List UInt8)), (sep = 0 ∨ sep = 0x2c) →
      rdns.length + ps.length ≤ rdnMax →
      ∃ i', (dnText ps ++ [0]).foldl atodnStep (atodnAt .searchOid sep i rdns) =
        atodnAt .searchOid 0x2c i' (rdns ++ ps.map fun p => rdnDer (keyEntry p.1) p.2)
  | [], _, hne => absurd rfl hne
  | [p], hps, _ => by
    intro sep i rdns hsep hcount
    obtain ⟨hk, hv⟩ := hps p List.mem_cons_self
    obtain ⟨j, hj⟩ := Option.isSome_iff_exists.mp hk
    have hentry : keyEntry p.1 = x501rdns.getD j ⟨"", 0, 0⟩ := by rw [keyEntry, hj]; rfl
    simp only [List.length_cons, List.length_nil] at hcount
    -- the last value ends at the `NUL`
    refine ⟨j, ?_⟩
    rw [dnText_singleton, List.append_assoc, List.cons_append, atodn_key hsep i rdns hj,
      atodn_value (findRdn_spec hj).1 hv (.inr rfl) (by omega), List.foldl_nil, List.map_singleton, hentry]
  | p :: q :: ps, hps, _ => by
    intro sep i rdns hsep hcount
    obtain ⟨hk, hv⟩ := hps p List.mem_cons_self
    obtain ⟨j, hj⟩ := Option.isSome_iff_exists.mp hk
    have hentry : keyEntry p.1 = x501rdns.getD j ⟨"", 0, 0⟩ := by rw [keyEntry, hj]; rfl
    simp only [List.length_cons] at hcount
    -- a value followed by others ends at the separator
    rw [dnText_cons_cons, List.append_assoc, List.cons_append, atodn_key hsep i rdns hj, List.append_assoc,
      List.cons_append, atodn_value (findRdn_spec hj).1 hv (.inl rfl) (by omega), List.cons_append, atodn_space]
    obtain ⟨i', hrun⟩ := atodn_run (q :: ps) (fun p' hp' => hps p' (List.mem_cons_of_mem _ hp'))
      (List.cons_ne_nil _ _) 0x2c j (rdns ++ [rdnDer (x501rdns.getD j ⟨"", 0, 0⟩) p.2]) (.inr rfl)
      (by simp only [List.length_append, List.length_cons, List.length_nil]; omega)
    refine ⟨i', ?_⟩
    rw [hrun]
    simp [hentry]

/-- **`atodn` reads a text back** of at most `RDN_MAX` keys it finds and values the round trip
keeps: it succeeds, with one RDN for each. -/
theorem atodn_dnText (ps : List (List UInt8 × List UInt8)) (hps : ∀ p ∈ ps, (findRdn p.1).isSome ∧ DnValue p.2)
    (hcount : ps.length ≤ rdnMax) :
    atodn (dnText ps) = (.success, asn1Wrap asn1Sequence (ps.map fun p => rdnDer (keyEntry p.1) p.2)) := by
  -- no `NUL` in the text: the loop reads it whole
  have hzero : (dnText ps).takeWhile (· != 0) = dnText ps := by
    rw [List.takeWhile_eq_self_iff]
    refine forall_mem_dnText (fun c => (c != 0) = true) (by decide) ps fun p hp => ?_
    obtain ⟨hk, hv⟩ := hps p hp
    obtain ⟨j, hj⟩ := Option.isSome_iff_exists.mp hk
    refine ⟨fun c hc => ?_, fun c hc => ?_⟩
    · simpa using ((findRdn_spec hj).2.2 c hc).ne.1
    · simpa using ne_zero_of_isPrint (hv.2.1 c hc)
  unfold atodn
  rw [hzero]
  by_cases hne : ps = []
  · subst hne
    rfl
  · obtain ⟨i', hrun⟩ := atodn_run ps hps hne 0 0 [] (.inl rfl) (by simpa using hcount)
    rw [show atodnInit = atodnAt .searchOid 0 0 [] from rfl, hrun]
    simp [atodnAt]

/-! ## 8. The round trip -/

theorem keyEntry_key {e : X501Rdn} (he : e ∈ x501rdns) : findRdn e.key = some (x501rdns.idxOf e) ∧ keyEntry e.key = e := by
  have hj : x501rdns.idxOf e < x501rdns.length := List.idxOf_lt_length_iff.mpr he
  have hget : x501rdns.getD (x501rdns.idxOf e) ⟨"", 0, 0⟩ = e := by
    rw [List.getD_eq_getElem _ _ hj, List.getElem_idxOf hj]
  have hfind := findRdn_key _ hj
  rw [hget] at hfind
  refine ⟨hfind, ?_⟩
  rw [keyEntry, hfind, Option.getD_some, hget]

theorem keyEntry_mem {k : List UInt8} (hk : (findRdn k).isSome) : keyEntry k ∈ x501rdns := by
  obtain ⟨j, hj⟩ := Option.isSome_iff_exists.mp hk
  have hlt := (findRdn_spec hj).1
  rw [keyEntry, hj, Option.getD_some, List.getD_eq_getElem _ _ hlt]
  exact List.getElem_mem hlt

end VpnClient.Identity
