import Mathlib.Data.List.Forall2
import Mathlib.Data.List.Perm.Basic
import VpnClient.Identity.Identification

/-!
# Matching DNs against patterns

`matches` of DN identities (`identification.c`): a pattern DN `o` may hold the value
`*` for any value. `compare_dn` matches RDN by RDN in order; `match_dn` lets the RDNs
come in any order, taking for each RDN of the identity `t` the first unmatched RDN of
the pattern with its OID that is a wildcard or equal to it, with the pattern's exact
RDNs tried before its wildcards; `match_dn_reordered` then wants every RDN of both
matched, `match_dn_relaxed` only every RDN of the pattern. `matches_dn_internal` turns
the number of wildcards used into the quality of the match.

`compareDnLoop_iff` says what the positional match is: the same number of RDNs, the
same OID at each position, and at each position a wildcard or an equal value; the
flag `finished` is that both last RDNs end their DNs, and the count is that of the
pattern's wildcards (`compareDnLoop_count`). Both matches succeed only on DNs that
`is_valid_dn` accepts, whose last value ends the DN: an empty last value has a `NULL`
pointer and ends nothing, so such a DN matches only itself, as bytes
(`matchesDn_score_sound`). The search of `match_dn` is first fit, and `rdn_equals` is no
equivalence when string types differ, so a pairing of all RDNs can exist that the search
misses (`matches_dn_diverge`).
-/

namespace VpnClient.Identity

/-! ## 1. The positional match of `compare_dn` -/

/-- One position of `compare_dn`'s match: the OIDs agree, and the pattern's value is a
wildcard (when counted) or has the length of the identity's value and equals it. -/
def RdnMatches (withWc : Bool) (t o : Rdn) : Prop :=
  t.oid = o.oid ∧ ((withWc = true ∧ isWildcard o.data = true) ∨
    (t.data.length = o.data.length ∧ rdnEquals t.oid t.type t.data o.type o.data = true))

/-- The flag `compare_dn` ends with: whether the last RDNs of both end their DNs, or the
flag it was given when there is no RDN. -/
def lastFlag (ts os : List Rdn) (finished : Bool) : Bool :=
  match ts.getLast?, os.getLast? with
  | some t, some o => t.atEnd && o.atEnd
  | _, _ => finished

instance (withWc : Bool) : DecidableRel (RdnMatches withWc) := fun t o => by
  unfold RdnMatches
  infer_instance

/-- The wildcard positions `compare_dn` counts. -/
def wildcardCount (withWc : Bool) (os : List Rdn) : ℕ :=
  (os.filter fun o => withWc && isWildcard o.data).length

theorem wildcardCount_cons (withWc : Bool) (o : Rdn) (os : List Rdn) :
    wildcardCount withWc (o :: os) =
      wildcardCount withWc os + if withWc = true ∧ isWildcard o.data = true then 1 else 0 := by
  unfold wildcardCount
  rw [List.filter_cons]
  by_cases h : withWc = true ∧ isWildcard o.data = true
  · simp [h]
  · simp only [Bool.and_eq_true, h, if_false, Nat.add_zero]

theorem lastFlag_cons {t o : Rdn} {ts os : List Rdn} (h : ts.length = os.length) (finished : Bool) :
    lastFlag (t :: ts) (o :: os) finished = lastFlag ts os (t.atEnd && o.atEnd) := by
  cases ts with
  | nil =>
    cases os with
    | nil => rfl
    | cons _ _ => simp at h
  | cons t' ts =>
    cases os with
    | nil => simp at h
    | cons o' os => simp only [lastFlag, List.getLast?_cons, Option.getD_some]

/-- One matched position: the loop goes on with the tails and decides as on them. -/
theorem compareDnLoop_cons_iff {withWc : Bool} {t o : Rdn} {ts os : List Rdn} {finished : Bool}
    {r : Bool × ℕ} (hm : RdnMatches withWc t o)
    (hr : r.1 = true ↔ List.Forall₂ (RdnMatches withWc) ts os ∧ lastFlag ts os (t.atEnd && o.atEnd) = true) :
    r.1 = true ↔ List.Forall₂ (RdnMatches withWc) (t :: ts) (o :: os) ∧
      lastFlag (t :: ts) (o :: os) finished = true := by
  rw [hr, List.forall₂_cons]
  constructor
  · rintro ⟨h₁, h₂⟩
    exact ⟨⟨hm, h₁⟩, (lastFlag_cons h₁.length_eq finished).trans h₂⟩
  · rintro ⟨⟨-, h₁⟩, h₂⟩
    exact ⟨h₁, (lastFlag_cons h₁.length_eq finished).symm.trans h₂⟩

/-- **What `compare_dn`'s loop decides**: it succeeds exactly when the RDNs match
position by position and the last ones end both DNs (or, with no RDN at all, when the
flag it started with says so). -/
theorem compareDnLoop_iff (withWc : Bool) : ∀ (ts os : List Rdn) (finished : Bool) (wc : ℕ),
    (compareDnLoop withWc ts os finished wc).1 = true ↔
      List.Forall₂ (RdnMatches withWc) ts os ∧ lastFlag ts os finished = true
  | [], [], finished, wc => by simp [compareDnLoop, lastFlag]
  | [], _ :: _, _, _ => by simp [compareDnLoop]
  | _ :: _, [], _, _ => by simp [compareDnLoop]
  | t :: ts, o :: os, finished, wc => by
    unfold compareDnLoop
    split_ifs with hoid hwild hlen heq
    · -- different OIDs
      simp [RdnMatches, hoid]
    · -- a wildcard of the pattern
      have hm : RdnMatches withWc t o := ⟨not_not.mp hoid, Or.inl (by simpa using hwild)⟩
      exact compareDnLoop_cons_iff hm (compareDnLoop_iff withWc ts os _ _)
    · -- values of different lengths
      simp only [false_iff, List.forall₂_cons, RdnMatches]
      rintro ⟨⟨⟨-, h | h⟩, -⟩, -⟩
      · exact absurd (by simpa using h) hwild
      · exact absurd h.1 hlen
    · -- equal values
      have hm : RdnMatches withWc t o := ⟨not_not.mp hoid, Or.inr ⟨not_not.mp hlen, heq⟩⟩
      exact compareDnLoop_cons_iff hm (compareDnLoop_iff withWc ts os _ _)
    · -- unequal values
      simp only [false_iff, List.forall₂_cons, RdnMatches]
      rintro ⟨⟨⟨-, h | h⟩, -⟩, -⟩
      · exact absurd (by simpa using h) hwild
      · exact absurd h.2 heq

/-- The count of a successful loop: one for each wildcard of the pattern, when counted. -/
theorem compareDnLoop_count (withWc : Bool) : ∀ (ts os : List Rdn) (finished : Bool) (wc : ℕ),
    (compareDnLoop withWc ts os finished wc).1 = true →
      (compareDnLoop withWc ts os finished wc).2 = wc + wildcardCount withWc os
  | [], [], _, _, _ => rfl
  | [], _ :: _, _, _, h => by simp [compareDnLoop] at h
  | _ :: _, [], _, _, h => by simp [compareDnLoop] at h
  | t :: ts, o :: os, finished, wc, h => by
    rw [wildcardCount_cons]
    unfold compareDnLoop at h ⊢
    split_ifs at h ⊢ with hoid hwild hlen heq
    · -- a wildcard of the pattern
      rw [compareDnLoop_count withWc ts os _ _ h]
      omega
    · -- equal values
      rw [compareDnLoop_count withWc ts os _ _ h]
      omega

/-- The flag of a successful positional match says that both DNs are valid. -/
theorem isValidDn_of_lastFlag {t o : List UInt8} (h : lastFlag (rdns t) (rdns o) false = true) :
    isValidDn t = true ∧ isValidDn o = true := by
  unfold lastFlag at h
  split at h
  · next t' o' ht ho =>
    rw [Bool.and_eq_true] at h
    exact ⟨List.any_eq_true.mpr ⟨t', List.mem_of_getLast? ht, h.1⟩,
      List.any_eq_true.mpr ⟨o', List.mem_of_getLast? ho, h.2⟩⟩
  · cases h

/-- **`compare_dn` with wildcards.** Two DNs that differ as bytes match exactly when
their RDNs match position by position and the last ones end both DNs; the count is then
the number of the pattern's wildcards, and both DNs are valid, so neither ends in an
empty value. Equal DNs match with no wildcard counted. -/
theorem compareDn_wc_iff {t o : List UInt8} (hne : t ≠ o) :
    ((compareDn t o true).1 = true ↔
      List.Forall₂ (RdnMatches true) (rdns t) (rdns o) ∧ lastFlag (rdns t) (rdns o) false = true) ∧
    ((compareDn t o true).1 = true →
      (compareDn t o true).2 = wildcardCount true (rdns o) ∧ isValidDn t = true ∧ isValidDn o = true) := by
  have heq : compareDn t o true = compareDnLoop true (rdns t) (rdns o) false 0 := by
    simp [compareDn, hne]
  rw [heq]
  refine ⟨compareDnLoop_iff true _ _ false 0, fun h => ⟨?_, isValidDn_of_lastFlag ((compareDnLoop_iff true _ _ false 0).mp h).2⟩⟩
  rw [compareDnLoop_count true _ _ false 0 h, Nat.zero_add]

/-! ## 2. The search of `match_dn` -/

/-- The array `match_dn` fills from the pattern: each RDN with its `matched` flag. -/
abbrev Pattern := List (Rdn × Bool)

/-- The RDNs of a pattern array that are matched. -/
def matchedRdns (pat : Pattern) : List Rdn := (pat.filter (·.2)).map Prod.fst

/-- The first loop of `match_dn`: the pattern's RDNs, those that are no wildcard first,
none matched. -/
def patternOf (os : List Rdn) : Pattern :=
  (os.filter (fun o => !isWildcard o.data) ++ os.filter (fun o => isWildcard o.data)).map (·, false)

/-- The inner loop of `match_dn`: the first unmatched RDN of the pattern with the OID of
`t` that is a wildcard or equals `t`'s value, marked as matched, and whether it is a
wildcard. -/
def matchRdn (t : Rdn) : Pattern → Option (Pattern × Bool)
  | [] => none
  | (o, matched) :: pat =>
    if !matched ∧ o.oid = t.oid then
      if isWildcard o.data then some ((o, true) :: pat, true)
      else if t.data.length ≠ o.data.length ∨ ¬ rdnEquals t.oid t.type t.data o.type o.data then
        (matchRdn t pat).map fun r => ((o, matched) :: r.1, r.2)
      else some ((o, true) :: pat, false)
    else (matchRdn t pat).map fun r => ((o, matched) :: r.1, r.2)

/-- The second loop of `match_dn`, over the RDNs of `t`: the flag `finished`, the count
`wc` and the pattern array where it stops. -/
def matchDnLoop (allowUnmatched : Bool) : List Rdn → Pattern → Bool → ℕ → Bool × ℕ × Pattern
  | [], pat, finished, wc => (finished, wc, pat)
  | t :: ts, pat, finished, wc =>
    match matchRdn t pat with
    | some (pat, w) => matchDnLoop allowUnmatched ts pat (finished || t.atEnd) (if w then wc + 1 else wc)
    | none =>
      -- unmatched RDNs of t count as wildcards where they are allowed
      if allowUnmatched then matchDnLoop allowUnmatched ts pat (finished || t.atEnd) (wc + 1)
      else (finished, wc, pat)

/-- `match_dn`: a binary compare first; a pattern none of whose RDNs ends it is invalid;
otherwise the search, which succeeds when it reaches the end of `t` with every RDN of
the pattern matched. -/
def matchDn (t o : List UInt8) (allowUnmatched : Bool) : Bool × ℕ :=
  if t = o then (true, 0)
  else if !(rdns o).any (·.atEnd) then (false, 0)
  else
    let r := matchDnLoop allowUnmatched (rdns t) (patternOf (rdns o)) false 0
    (r.1 && r.2.2.all (·.2), r.2.1)

/-- `match_dn_reordered`. -/
def matchDnReordered (t o : List UInt8) : Bool × ℕ := matchDn t o false

/-- `match_dn_relaxed`. -/
def matchDnRelaxed (t o : List UInt8) : Bool × ℕ := matchDn t o true

/-! ## 3. What the search finds -/

@[simp] theorem matchedRdns_nil : matchedRdns [] = [] := rfl

@[simp] theorem matchedRdns_cons (o : Rdn) (m : Bool) (pat : Pattern) :
    matchedRdns ((o, m) :: pat) = if m then o :: matchedRdns pat else matchedRdns pat := by
  cases m <;> rfl

/-- An RDN the inner loop marks: it matches `t`, was unmatched and stays in its place. -/
def Marks (t : Rdn) (pat pat' : Pattern) : Prop :=
  ∃ e, RdnMatches true t e ∧ pat'.map Prod.fst = pat.map Prod.fst ∧
    (matchedRdns pat').Perm (e :: matchedRdns pat)

theorem Marks.cons {t o : Rdn} {m : Bool} {pat pat' : Pattern} (h : Marks t pat pat') :
    Marks t ((o, m) :: pat) ((o, m) :: pat') := by
  obtain ⟨e, he, hrdns, hperm⟩ := h
  refine ⟨e, he, by simp [hrdns], ?_⟩
  cases m
  · simpa using hperm
  · simpa using (hperm.cons o).trans (List.Perm.swap e o _)

/-- **The inner loop of `match_dn`** marks one unmatched RDN of the pattern that
matches `t`. -/
theorem matchRdn_marks {t : Rdn} : ∀ {pat pat' : Pattern} {w : Bool},
    matchRdn t pat = some (pat', w) → Marks t pat pat'
  | [], _, _, h => by simp [matchRdn] at h
  | (o, m) :: pat, pat', w, h => by
    unfold matchRdn at h
    split_ifs at h with hfree hwild hne
    · -- the first free RDN of the OID is a wildcard
      cases h
      obtain ⟨hm, hoid⟩ := hfree
      simp only [Bool.not_eq_true'] at hm
      exact ⟨o, ⟨hoid.symm, Or.inl ⟨rfl, hwild⟩⟩, rfl, by simp [hm]⟩
    · -- its value differs: the search goes on
      obtain ⟨⟨pat₁, w₁⟩, hr, heq⟩ := Option.map_eq_some_iff.mp h
      cases heq
      exact (matchRdn_marks hr).cons
    · -- its value is equal
      cases h
      obtain ⟨hm, hoid⟩ := hfree
      simp only [Bool.not_eq_true'] at hm
      simp only [not_or, not_not, ne_eq] at hne
      exact ⟨o, ⟨hoid.symm, Or.inr hne⟩, rfl, by simp [hm]⟩
    · -- a matched RDN, or another OID
      obtain ⟨⟨pat₁, w₁⟩, hr, heq⟩ := Option.map_eq_some_iff.mp h
      cases heq
      exact (matchRdn_marks hr).cons

/-- The search only sets flags: the pattern's RDNs stay as they are. -/
theorem matchDnLoop_rdns (allowUnmatched : Bool) : ∀ (ts : List Rdn) (pat : Pattern)
    (finished : Bool) (wc : ℕ),
    (matchDnLoop allowUnmatched ts pat finished wc).2.2.map Prod.fst = pat.map Prod.fst
  | [], _, _, _ => rfl
  | t :: ts, pat, finished, wc => by
    unfold matchDnLoop
    split
    · next pat' w h =>
      obtain ⟨-, -, hrdns, -⟩ := matchRdn_marks h
      rw [matchDnLoop_rdns allowUnmatched ts pat', hrdns]
    · split
      · exact matchDnLoop_rdns allowUnmatched ts pat _ _
      · rfl

/-- The search ends with `finished` set only if it was set before, or an RDN of `t` it
got past ends `t`. -/
theorem matchDnLoop_finished (allowUnmatched : Bool) : ∀ (ts : List Rdn) (pat : Pattern) (finished : Bool)
    (wc : ℕ), (matchDnLoop allowUnmatched ts pat finished wc).1 = true → finished = true ∨ ts.any (·.atEnd) = true
  | [], _, _, _, h => .inl h
  | t :: ts, pat, finished, wc, h => by
    -- past `t`, the search goes on with `finished || t.atEnd`
    have hnext : ∀ pat' wc', (matchDnLoop allowUnmatched ts pat' (finished || t.atEnd) wc').1 = true →
        finished = true ∨ (t :: ts).any (·.atEnd) = true := fun pat' wc' h' => by
      rcases matchDnLoop_finished allowUnmatched ts pat' _ wc' h' with hf | hts
      · rcases Bool.or_eq_true _ _ ▸ hf with hf | ht
        · exact .inl hf
        · exact .inr (by simp [ht])
      · exact .inr (by simp [hts])
    unfold matchDnLoop at h
    split at h
    · exact hnext _ _ h
    · split at h
      · exact hnext _ _ h
      · exact .inl h

/-- **The relaxed search is sound**: the RDNs it marks are paired with RDNs of `t`, in
the order of `t`. -/
theorem matchDnLoop_relaxed_pairs : ∀ (ts : List Rdn) (pat : Pattern) (finished : Bool) (wc : ℕ),
    ∃ ts' os', ts'.Sublist ts ∧ List.Forall₂ (RdnMatches true) ts' os' ∧
      (matchedRdns (matchDnLoop true ts pat finished wc).2.2).Perm (os' ++ matchedRdns pat)
  | [], pat, _, _ => ⟨[], [], List.Sublist.slnil, List.Forall₂.nil, List.Perm.refl _⟩
  | t :: ts, pat, finished, wc => by
    unfold matchDnLoop
    split
    · next pat' w h =>
      -- `t` is paired with the RDN the inner loop marks
      obtain ⟨e, he, -, hmark⟩ := matchRdn_marks h
      obtain ⟨ts', os', hsub, hpairs, hperm⟩ := matchDnLoop_relaxed_pairs ts pat' (finished || t.atEnd)
        (if w then wc + 1 else wc)
      refine ⟨t :: ts', e :: os', hsub.cons_cons t, List.Forall₂.cons he hpairs, ?_⟩
      exact hperm.trans ((hmark.append_left os').trans List.perm_middle)
    · -- an unmatched RDN of `t` is left out
      obtain ⟨ts', os', hsub, hpairs, hperm⟩ := matchDnLoop_relaxed_pairs ts pat (finished || t.atEnd)
        (wc + 1)
      exact ⟨ts', os', hsub.cons t, hpairs, hperm⟩

/-- **The reordered search is sound**: when it ends with `finished` set, either the flag
was set before, or every RDN of `t` is paired with an RDN it marks. -/
theorem matchDnLoop_reordered_pairs : ∀ (ts : List Rdn) (pat : Pattern) (finished : Bool) (wc : ℕ),
    (∀ r ∈ ts.dropLast, r.atEnd = false) → (matchDnLoop false ts pat finished wc).1 = true →
      finished = true ∨ ∃ os', List.Forall₂ (RdnMatches true) ts os' ∧
        (matchedRdns (matchDnLoop false ts pat finished wc).2.2).Perm (os' ++ matchedRdns pat)
  | [], pat, _, _, _, _ => .inr ⟨[], List.Forall₂.nil, List.Perm.refl _⟩
  | t :: ts, pat, finished, wc, hend, hfin => by
    unfold matchDnLoop at hfin ⊢
    split at hfin
    · next pat' w h =>
      obtain ⟨e, he, -, hmark⟩ := matchRdn_marks h
      cases ts with
      | nil =>
        -- the last RDN of `t`
        right
        exact ⟨[e], List.Forall₂.cons he List.Forall₂.nil, hmark⟩
      | cons t' ts =>
        -- an RDN before the last does not end `t`, so the flag goes on unchanged
        have ht : t.atEnd = false := hend t (by simp)
        have hend' : ∀ r ∈ (t' :: ts).dropLast, r.atEnd = false := fun r hr =>
          hend r (by rw [List.dropLast_cons_of_ne_nil (List.cons_ne_nil _ _)]; exact List.mem_cons_of_mem _ hr)
        rw [ht, Bool.or_false] at hfin ⊢
        rcases matchDnLoop_reordered_pairs (t' :: ts) pat' finished _ hend' hfin with hf | ⟨os', hpairs, hperm⟩
        · exact .inl hf
        · exact .inr ⟨e :: os', List.Forall₂.cons he hpairs,
            hperm.trans ((hmark.append_left os').trans List.perm_middle)⟩
    · -- the search stops at an unmatched RDN with the flag it had
      exact .inl hfin

/-! ## 4. `match_dn` -/

theorem matchedRdns_patternOf (os : List Rdn) : matchedRdns (patternOf os) = [] := by
  simp [matchedRdns, patternOf]

theorem patternOf_rdns (os : List Rdn) : ((patternOf os).map Prod.fst).Perm os := by
  have h := List.filter_append_perm (fun o : Rdn => !isWildcard o.data) os
  simp only [Bool.not_not] at h
  simpa [patternOf, Function.comp_def] using h

/-- With every flag set, the matched RDNs are the whole pattern. -/
theorem matchedRdns_of_all {pat : Pattern} (h : pat.all (·.2) = true) :
    matchedRdns pat = pat.map Prod.fst := by
  rw [matchedRdns, List.filter_eq_self.mpr (by simpa using h)]

/-- The pattern's RDNs when the search has marked all of them. -/
theorem matchDnLoop_all_perm {allowUnmatched : Bool} {ts os : List Rdn} {finished : Bool} {wc : ℕ}
    (h : (matchDnLoop allowUnmatched ts (patternOf os) finished wc).2.2.all (·.2) = true) :
    (matchedRdns (matchDnLoop allowUnmatched ts (patternOf os) finished wc).2.2).Perm os := by
  rw [matchedRdns_of_all h, matchDnLoop_rdns]
  exact patternOf_rdns os

/-- The search starts with `finished` unset, so its flag says that `t` is valid. -/
theorem isValidDn_of_matchDnLoop {allowUnmatched : Bool} {t : List UInt8} {pat : Pattern}
    (h : (matchDnLoop allowUnmatched (rdns t) pat false 0).1 = true) : isValidDn t = true := by
  rcases matchDnLoop_finished allowUnmatched (rdns t) pat false 0 h with hf | ht
  · cases hf
  · exact ht

/-- **`match_dn_reordered` is sound.** It accepts only equal DNs, or valid DNs whose RDNs
pair up one to one, each RDN of the identity with a wildcard or an equal RDN of the
pattern. -/
theorem matchDnReordered_sound {t o : List UInt8} (h : (matchDnReordered t o).1 = true) :
    t = o ∨ isValidDn t = true ∧ isValidDn o = true ∧
      ∃ os', os'.Perm (rdns o) ∧ List.Forall₂ (RdnMatches true) (rdns t) os' := by
  by_cases hto : t = o
  · exact .inl hto
  right
  unfold matchDnReordered matchDn at h
  simp only [hto, if_false] at h
  split at h
  · cases h
  · next hvalid =>
    rw [Bool.and_eq_true] at h
    obtain ⟨hfin, hall⟩ := h
    refine ⟨isValidDn_of_matchDnLoop hfin, by simpa [isValidDn] using hvalid, ?_⟩
    rcases matchDnLoop_reordered_pairs (rdns t) (patternOf (rdns o)) false 0 (rdns_dropLast_atEnd t) hfin
      with hf | ⟨os', hpairs, hperm⟩
    · cases hf
    · rw [matchedRdns_patternOf, List.append_nil] at hperm
      exact ⟨os', hperm.symm.trans (matchDnLoop_all_perm hall), hpairs⟩

/-- **`match_dn_relaxed` is sound.** It accepts only equal DNs, or valid DNs where each RDN
of the pattern is paired with its own RDN of the identity, a wildcard or equal to it. -/
theorem matchDnRelaxed_sound {t o : List UInt8} (h : (matchDnRelaxed t o).1 = true) :
    t = o ∨ isValidDn t = true ∧ isValidDn o = true ∧
      ∃ ts' os', ts'.Sublist (rdns t) ∧ os'.Perm (rdns o) ∧ List.Forall₂ (RdnMatches true) ts' os' := by
  by_cases hto : t = o
  · exact .inl hto
  right
  unfold matchDnRelaxed matchDn at h
  simp only [hto, if_false] at h
  split at h
  · cases h
  · next hvalid =>
    rw [Bool.and_eq_true] at h
    obtain ⟨hfin, hall⟩ := h
    refine ⟨isValidDn_of_matchDnLoop hfin, by simpa [isValidDn] using hvalid, ?_⟩
    obtain ⟨ts', os', hsub, hpairs, hperm⟩ := matchDnLoop_relaxed_pairs (rdns t) (patternOf (rdns o)) false 0
    rw [matchedRdns_patternOf, List.append_nil] at hperm
    exact ⟨ts', os', hsub, hperm.symm.trans (matchDnLoop_all_perm hall), hpairs⟩

/-! ## 5. The quality of a match -/

/-- `ID_MATCH_NONE`. -/
def idMatchNone : ℕ := 0

/-- `ID_MATCH_ANY`. -/
def idMatchAny : ℕ := 1

/-- `ID_MATCH_MAX_WILDCARDS`. -/
def idMatchMaxWildcards : ℕ := 2

/-- `ID_MATCH_ONE_WILDCARD`. -/
def idMatchOneWildcard : ℕ := 19

/-- `ID_MATCH_PERFECT`. -/
def idMatchPerfect : ℕ := 20

/-- `matches_dn_internal`: `ID_MATCH_ANY` for a pattern of type `ID_ANY`; for one of the
same type that the match accepts, `ID_MATCH_PERFECT` less the wildcards it counted, at
most seventeen of them. -/
def matchesDnInternal (this other : Identification) (matchFn : List UInt8 → List UInt8 → Bool × ℕ) : ℕ :=
  if other.type = .idAny then idMatchAny
  else if this.type = other.type then
    let r := matchFn this.encoded other.encoded
    if r.1 then idMatchPerfect - min r.2 (idMatchOneWildcard - idMatchMaxWildcards) else idMatchNone
  else idMatchNone

/-- `matches_dn`. -/
def matchesDn (this other : Identification) : ℕ :=
  matchesDnInternal this other fun t o => compareDn t o true

/-- `matches_dn_reordered`. -/
def matchesDnReordered (this other : Identification) : ℕ :=
  matchesDnInternal this other matchDnReordered

/-- `matches_dn_relaxed`. -/
def matchesDnRelaxed (this other : Identification) : ℕ :=
  matchesDnInternal this other matchDnRelaxed

/-- A match of the same type, against a pattern that is not `ID_ANY`, scores above
`ID_MATCH_NONE` exactly when the match function accepts, and then `ID_MATCH_PERFECT` less
the wildcards it counted, at most seventeen. -/
theorem matchesDnInternal_pos_iff {this other : Identification}
    {matchFn : List UInt8 → List UInt8 → Bool × ℕ} (hany : other.type ≠ .idAny)
    (htype : this.type = other.type) :
    (idMatchNone < matchesDnInternal this other matchFn ↔ (matchFn this.encoded other.encoded).1 = true) ∧
      ((matchFn this.encoded other.encoded).1 = true → matchesDnInternal this other matchFn =
        idMatchPerfect - min (matchFn this.encoded other.encoded).2 (idMatchOneWildcard - idMatchMaxWildcards)) := by
  cases hm : (matchFn this.encoded other.encoded).1
  · simp [matchesDnInternal, hany, htype, hm, idMatchNone]
  · simp only [matchesDnInternal, hany, htype, hm, if_false, if_true, idMatchNone, idMatchPerfect,
      idMatchOneWildcard, idMatchMaxWildcards, true_implies, iff_true, and_true]
    omega

/-- **What the score of a DN match stands for.** For two DN identities with different
encodings, `matches_dn` scores above `ID_MATCH_NONE` exactly when their RDNs match position
by position and the last ones end both DNs, and it then scores `ID_MATCH_PERFECT` less the
pattern's wildcards, at most seventeen, with both DNs valid. `matches_dn_reordered` and
`matches_dn_relaxed` score above `ID_MATCH_NONE` only for valid DNs whose RDNs pair up one
to one, or where each RDN of the pattern pairs with its own RDN of the identity. A valid DN
does not end in an empty value, whose pointer is `NULL`: such DNs match only themselves. -/
theorem matchesDn_score_sound {this other : Identification} (hthis : this.type = .idDerAsn1Dn)
    (hother : other.type = .idDerAsn1Dn) (hne : this.encoded ≠ other.encoded) :
    (idMatchNone < matchesDn this other ↔
      List.Forall₂ (RdnMatches true) (rdns this.encoded) (rdns other.encoded) ∧
        lastFlag (rdns this.encoded) (rdns other.encoded) false = true) ∧
    (idMatchNone < matchesDn this other →
      matchesDn this other = idMatchPerfect -
          min (wildcardCount true (rdns other.encoded)) (idMatchOneWildcard - idMatchMaxWildcards) ∧
        isValidDn this.encoded = true ∧ isValidDn other.encoded = true) ∧
    (idMatchNone < matchesDnReordered this other →
      isValidDn this.encoded = true ∧ isValidDn other.encoded = true ∧
        ∃ os', os'.Perm (rdns other.encoded) ∧ List.Forall₂ (RdnMatches true) (rdns this.encoded) os') ∧
    (idMatchNone < matchesDnRelaxed this other →
      isValidDn this.encoded = true ∧ isValidDn other.encoded = true ∧
        ∃ ts' os', ts'.Sublist (rdns this.encoded) ∧ os'.Perm (rdns other.encoded) ∧
          List.Forall₂ (RdnMatches true) ts' os') := by
  have hany : other.type ≠ .idAny := by rw [hother]; decide
  have htype : this.type = other.type := hthis.trans hother.symm
  have hwc := compareDn_wc_iff hne
  refine ⟨(matchesDnInternal_pos_iff hany htype).1.trans hwc.1, fun hpos => ?_, fun hpos => ?_, fun hpos => ?_⟩
  · -- the positional match accepted, with the pattern's wildcards counted
    have hm := (matchesDnInternal_pos_iff hany htype).1.mp hpos
    obtain ⟨hcount, hvalid⟩ := hwc.2 hm
    refine ⟨?_, hvalid⟩
    unfold matchesDn
    rw [(matchesDnInternal_pos_iff hany htype).2 hm]
    simp only [hcount]
  · -- a reordered match between different encodings pairs the RDNs
    have hm := (matchesDnInternal_pos_iff hany htype).1.mp hpos
    rcases matchDnReordered_sound hm with heq | hsound
    · exact absurd heq hne
    · exact hsound
  · have hm := (matchesDnInternal_pos_iff hany htype).1.mp hpos
    rcases matchDnRelaxed_sound hm with heq | hsound
    · exact absurd heq hne
    · exact hsound

theorem matchesDn_score_sound_wildcard :
    (⟨.idDerAsn1Dn, [0x30, 0x0C, 0x31, 0x0A, 0x30, 0x08, 0x06, 0x03, 0x55, 0x04, 0x03, 0x13, 0x01, 0x41]⟩ :
        Identification).type = .idDerAsn1Dn ∧
      (⟨.idDerAsn1Dn, [0x30, 0x0C, 0x31, 0x0A, 0x30, 0x08, 0x06, 0x03, 0x55, 0x04, 0x03, 0x13, 0x01, 0x2A]⟩ :
        Identification).type = .idDerAsn1Dn ∧
      [0x30, 0x0C, 0x31, 0x0A, 0x30, 0x08, 0x06, 0x03, 0x55, 0x04, 0x03, 0x13, 0x01, (0x41 : UInt8)] ≠
        [0x30, 0x0C, 0x31, 0x0A, 0x30, 0x08, 0x06, 0x03, 0x55, 0x04, 0x03, 0x13, 0x01, 0x2A] ∧
      matchesDn ⟨.idDerAsn1Dn, [0x30, 0x0C, 0x31, 0x0A, 0x30, 0x08, 0x06, 0x03, 0x55, 0x04, 0x03, 0x13, 0x01, 0x41]⟩
          ⟨.idDerAsn1Dn, [0x30, 0x0C, 0x31, 0x0A, 0x30, 0x08, 0x06, 0x03, 0x55, 0x04, 0x03, 0x13, 0x01, 0x2A]⟩ =
        idMatchOneWildcard ∧
      (idMatchNone < matchesDn
          ⟨.idDerAsn1Dn, [0x30, 0x0C, 0x31, 0x0A, 0x30, 0x08, 0x06, 0x03, 0x55, 0x04, 0x03, 0x13, 0x01, 0x41]⟩
          ⟨.idDerAsn1Dn, [0x30, 0x0C, 0x31, 0x0A, 0x30, 0x08, 0x06, 0x03, 0x55, 0x04, 0x03, 0x13, 0x01, 0x2A]⟩ →
        isValidDn [0x30, 0x0C, 0x31, 0x0A, 0x30, 0x08, 0x06, 0x03, 0x55, 0x04, 0x03, 0x13, 0x01, 0x41] = true) :=
  ⟨rfl, rfl, by decide, by decide, fun hpos => ((matchesDn_score_sound rfl rfl (by decide)).2.1 hpos).2.1⟩

/-- **Where the DN matches miss the pairing they stand for.** For the DN `CN=A, CN=A`
with a PrintableString, then a UTF8String value, and the pattern `CN=A, CN=a` with a
UTF8String, then a PrintableString value, each RDN pairs with an equal one of the other
DN, but the first-fit search pairs the identity's first RDN with the pattern's first
and then finds nothing for the second, reordered or relaxed. `CN=*` matches itself
with no wildcard counted, and two RDNs in one SET match them in two SETs perfectly
while `equals_dn` tells them apart. -/
theorem matches_dn_diverge :
    (matchDnReordered
        [0x30, 0x18, 0x31, 0x0A, 0x30, 0x08, 0x06, 0x03, 0x55, 0x04, 0x03, 0x13, 0x01, 0x41,
          0x31, 0x0A, 0x30, 0x08, 0x06, 0x03, 0x55, 0x04, 0x03, 0x0C, 0x01, 0x41]
        [0x30, 0x18, 0x31, 0x0A, 0x30, 0x08, 0x06, 0x03, 0x55, 0x04, 0x03, 0x0C, 0x01, 0x41,
          0x31, 0x0A, 0x30, 0x08, 0x06, 0x03, 0x55, 0x04, 0x03, 0x13, 0x01, 0x61]).1 = false ∧
    (matchDnRelaxed
        [0x30, 0x18, 0x31, 0x0A, 0x30, 0x08, 0x06, 0x03, 0x55, 0x04, 0x03, 0x13, 0x01, 0x41,
          0x31, 0x0A, 0x30, 0x08, 0x06, 0x03, 0x55, 0x04, 0x03, 0x0C, 0x01, 0x41]
        [0x30, 0x18, 0x31, 0x0A, 0x30, 0x08, 0x06, 0x03, 0x55, 0x04, 0x03, 0x0C, 0x01, 0x41,
          0x31, 0x0A, 0x30, 0x08, 0x06, 0x03, 0x55, 0x04, 0x03, 0x13, 0x01, 0x61]).1 = false ∧
    (∃ os', os'.Perm (rdns [0x30, 0x18, 0x31, 0x0A, 0x30, 0x08, 0x06, 0x03, 0x55, 0x04, 0x03, 0x0C, 0x01,
        0x41, 0x31, 0x0A, 0x30, 0x08, 0x06, 0x03, 0x55, 0x04, 0x03, 0x13, 0x01, 0x61]) ∧
      List.Forall₂ (RdnMatches true)
        (rdns [0x30, 0x18, 0x31, 0x0A, 0x30, 0x08, 0x06, 0x03, 0x55, 0x04, 0x03, 0x13, 0x01, 0x41,
          0x31, 0x0A, 0x30, 0x08, 0x06, 0x03, 0x55, 0x04, 0x03, 0x0C, 0x01, 0x41]) os') ∧
    compareDn [0x30, 0x0C, 0x31, 0x0A, 0x30, 0x08, 0x06, 0x03, 0x55, 0x04, 0x03, 0x13, 0x01, 0x2A]
        [0x30, 0x0C, 0x31, 0x0A, 0x30, 0x08, 0x06, 0x03, 0x55, 0x04, 0x03, 0x13, 0x01, 0x2A] true = (true, 0) ∧
    wildcardCount true
        (rdns [0x30, 0x0C, 0x31, 0x0A, 0x30, 0x08, 0x06, 0x03, 0x55, 0x04, 0x03, 0x13, 0x01, 0x2A]) = 1 ∧
    matchesDn
        ⟨.idDerAsn1Dn, [0x30, 0x16, 0x31, 0x14, 0x30, 0x08, 0x06, 0x03, 0x55, 0x04, 0x03, 0x13, 0x01, 0x41,
          0x30, 0x08, 0x06, 0x03, 0x55, 0x04, 0x0A, 0x13, 0x01, 0x42]⟩
        ⟨.idDerAsn1Dn, [0x30, 0x18, 0x31, 0x0A, 0x30, 0x08, 0x06, 0x03, 0x55, 0x04, 0x03, 0x13, 0x01, 0x41,
          0x31, 0x0A, 0x30, 0x08, 0x06, 0x03, 0x55, 0x04, 0x0A, 0x13, 0x01, 0x42]⟩ = idMatchPerfect ∧
    equalsDn
        ⟨.idDerAsn1Dn, [0x30, 0x16, 0x31, 0x14, 0x30, 0x08, 0x06, 0x03, 0x55, 0x04, 0x03, 0x13, 0x01, 0x41,
          0x30, 0x08, 0x06, 0x03, 0x55, 0x04, 0x0A, 0x13, 0x01, 0x42]⟩
        ⟨.idDerAsn1Dn, [0x30, 0x18, 0x31, 0x0A, 0x30, 0x08, 0x06, 0x03, 0x55, 0x04, 0x03, 0x13, 0x01, 0x41,
          0x31, 0x0A, 0x30, 0x08, 0x06, 0x03, 0x55, 0x04, 0x0A, 0x13, 0x01, 0x42]⟩ = false := by
  refine ⟨by decide +kernel, by decide +kernel, ⟨_, List.reverse_perm _, by decide +kernel⟩,
    by decide +kernel, by decide +kernel, by decide +kernel, by decide +kernel⟩

end VpnClient.Identity
