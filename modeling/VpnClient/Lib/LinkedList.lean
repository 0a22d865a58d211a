import Mathlib

/-!
# Searching a linked list

`find_first` of a linked list as a function on lists: the position and the value of
the first element a predicate accepts. The lemmas characterise the result (the element
is there and accepted, none before it is) and what replacing an element by one the
predicate treats alike does to a search.

The loops that walk an enumerator to the first element a test accepts and then call
`insert_before` or `remove_at` there are `insertBefore` and `removeFirst`. Inserting
keeps a list ordered when the test accepts exactly the elements the new one may stand
before; removing keeps every order, and in an ordered list the first element a
predicate accepts is a least one of those it accepts.
-/

namespace VpnClient.Lib.LinkedList

variable {α : Type*}

/-- `find_first`: the first element `p` accepts, with its position. -/
def findFirst (p : α → Bool) : List α → Option (ℕ × α)
  | [] => none
  | a :: l => if p a then some (0, a) else (findFirst p l).map fun r => (r.1 + 1, r.2)

/-- The element found is at its position, accepted, and the first one accepted. -/
theorem findFirst_eq_some {p : α → Bool} :
    ∀ {l : List α} {i : ℕ} {a : α}, findFirst p l = some (i, a) →
      l[i]? = some a ∧ p a = true ∧ ∀ j < i, ∀ b, l[j]? = some b → p b = false
  | [], _, _, h => by cases h
  | b :: l, i, a, h => by
    unfold findFirst at h
    by_cases hb : p b = true
    · -- the head is accepted: it is the result
      rw [if_pos hb, Option.some.injEq, Prod.mk.injEq] at h
      obtain ⟨rfl, rfl⟩ := h
      exact ⟨rfl, hb, fun j hj => absurd hj (Nat.not_lt_zero j)⟩
    · -- the head is refused: the result is one further on in the tail
      rw [if_neg hb] at h
      obtain ⟨⟨i', a'⟩, hr, he⟩ := Option.map_eq_some_iff.mp h
      rw [Prod.mk.injEq] at he
      obtain ⟨rfl, rfl⟩ := he
      obtain ⟨hget, hp, hfirst⟩ := findFirst_eq_some hr
      refine ⟨hget, hp, fun j hj c hc => ?_⟩
      cases j with
      | zero =>
        cases hc
        simpa using hb
      | succ j => exact hfirst j (by omega) c hc

/-- Nothing is found only when nothing is accepted. -/
theorem findFirst_eq_none {p : α → Bool} :
    ∀ {l : List α}, findFirst p l = none → ∀ a ∈ l, p a = false
  | [], _, a, ha => absurd ha (List.not_mem_nil)
  | b :: l, h, a, ha => by
    unfold findFirst at h
    by_cases hb : p b = true
    · rw [if_pos hb] at h
      cases h
    · rw [if_neg hb, Option.map_eq_none_iff] at h
      rcases List.mem_cons.mp ha with rfl | ha
      · simpa using hb
      · exact findFirst_eq_none h a ha

/-- Something is found exactly when some element is accepted. -/
theorem isSome_findFirst_iff {p : α → Bool} {l : List α} :
    (findFirst p l).isSome ↔ ∃ a ∈ l, p a = true := by
  constructor
  · intro h
    obtain ⟨⟨i, a⟩, hf⟩ := Option.isSome_iff_exists.mp h
    obtain ⟨hget, hp, -⟩ := findFirst_eq_some hf
    exact ⟨a, List.mem_of_getElem? hget, hp⟩
  · rintro ⟨a, ha, hp⟩
    cases hf : findFirst p l with
    | none => simp [findFirst_eq_none hf a ha] at hp
    | some r => rfl

/-- In a list ordered by `r`, the first element found stands in `r` to every element
accepted. -/
theorem findFirst_rel_of_pairwise {p : α → Bool} {r : α → α → Prop} (hrefl : ∀ a, r a a) :
    ∀ {l : List α} {i : ℕ} {a : α}, l.Pairwise r → findFirst p l = some (i, a) →
      ∀ b ∈ l, p b = true → r a b
  | [], _, _, _, h => by cases h
  | c :: l, i, a, hl, h => by
    rw [List.pairwise_cons] at hl
    unfold findFirst at h
    intro b hb hpb
    by_cases hc : p c = true
    · rw [if_pos hc, Option.some.injEq, Prod.mk.injEq] at h
      obtain ⟨-, rfl⟩ := h
      rcases List.mem_cons.mp hb with rfl | hb
      · exact hrefl b
      · exact hl.1 b hb
    · rw [if_neg hc] at h
      obtain ⟨⟨i', a'⟩, hr, he⟩ := Option.map_eq_some_iff.mp h
      rw [Prod.mk.injEq] at he
      obtain ⟨-, rfl⟩ := he
      rcases List.mem_cons.mp hb with rfl | hb
      · exact absurd hpb hc
      · exact findFirst_rel_of_pairwise hrefl hl.2 hr b hb hpb

/-! ## Inserting before the first element accepted -/

/-- `insert_before` at the enumerator that stopped at the first element `p` accepts,
and `insert_last` when it ran off the end. -/
def insertBefore (p : α → Bool) (a : α) : List α → List α
  | [] => [a]
  | c :: l => if p c then a :: c :: l else c :: insertBefore p a l

@[simp] theorem mem_insertBefore (p : α → Bool) (a b : α) (l : List α) :
    b ∈ insertBefore p a l ↔ b = a ∨ b ∈ l := by
  induction l with
  | nil => simp [insertBefore]
  | cons c l ih =>
    simp only [insertBefore]
    split <;> simp [ih, or_left_comm]

@[simp] theorem length_insertBefore (p : α → Bool) (a : α) (l : List α) :
    (insertBefore p a l).length = l.length + 1 := by
  induction l with
  | nil => rfl
  | cons c l ih =>
    simp only [insertBefore]
    split <;> simp [ih]

/-- Inserting keeps a list ordered by a transitive `r` when the new element may stand
after every element refused and before every element accepted. -/
theorem pairwise_insertBefore {p : α → Bool} {a : α} {r : α → α → Prop}
    (htrans : ∀ x y z, r x y → r y z → r x z) (hrefused : ∀ c, p c = false → r c a)
    (haccepted : ∀ c, p c = true → r a c) :
    ∀ {l : List α}, l.Pairwise r → (insertBefore p a l).Pairwise r
  | [], _ => List.pairwise_singleton r a
  | c :: l, hl => by
    rw [List.pairwise_cons] at hl
    simp only [insertBefore]
    split_ifs with hc
    · -- `a` goes first, before `c` and so before all of `l`
      refine List.pairwise_cons.mpr ⟨fun b hb => ?_, List.pairwise_cons.mpr hl⟩
      rcases List.mem_cons.mp hb with rfl | hb
      · exact haccepted b hc
      · exact htrans a c b (haccepted c hc) (hl.1 b hb)
    · -- `c` stays first: it may stand before `a`
      refine List.pairwise_cons.mpr ⟨fun b hb => ?_, pairwise_insertBefore htrans hrefused haccepted hl.2⟩
      rcases (mem_insertBefore p a b l).mp hb with rfl | hb
      · exact hrefused c (Bool.of_not_eq_true hc)
      · exact hl.1 b hb

/-! ## Removing the first element accepted -/

/-- The loop that stops at the first element `p` accepts and calls `remove_at` there:
the list without it, or none when no element is accepted. -/
def removeFirst (p : α → Bool) : List α → Option (List α)
  | [] => none
  | c :: l => if p c then some l else (removeFirst p l).map (c :: ·)

/-- What `removeFirst` removed: one element, accepted, with none accepted before it. -/
theorem removeFirst_eq_some {p : α → Bool} :
    ∀ {l l' : List α}, removeFirst p l = some l' →
      ∃ xs a ys, l = xs ++ a :: ys ∧ (∀ x ∈ xs, p x = false) ∧ p a = true ∧ l' = xs ++ ys
  | [], _, h => by cases h
  | c :: l, l', h => by
    unfold removeFirst at h
    by_cases hc : p c = true
    · rw [if_pos hc, Option.some.injEq] at h
      exact ⟨[], c, l, rfl, fun x hx => absurd hx List.not_mem_nil, hc, h.symm⟩
    · rw [if_neg hc] at h
      obtain ⟨l₁, hr, rfl⟩ := Option.map_eq_some_iff.mp h
      obtain ⟨xs, a, ys, rfl, hxs, ha, rfl⟩ := removeFirst_eq_some hr
      refine ⟨c :: xs, a, ys, rfl, fun x hx => ?_, ha, rfl⟩
      rcases List.mem_cons.mp hx with rfl | hx
      · exact Bool.of_not_eq_true hc
      · exact hxs x hx

/-- Nothing is removed exactly when nothing is accepted. -/
theorem removeFirst_eq_none_iff {p : α → Bool} :
    ∀ {l : List α}, removeFirst p l = none ↔ ∀ a ∈ l, p a = false
  | [] => by simp [removeFirst]
  | c :: l => by
    unfold removeFirst
    by_cases hc : p c = true
    · rw [if_pos hc]
      simp [hc]
    · rw [if_neg hc, Option.map_eq_none_iff, removeFirst_eq_none_iff]
      simp [Bool.of_not_eq_true hc]

end VpnClient.Lib.LinkedList
