import Mathlib

/-!
# `java.util.TreeSet` as a sorted list

A `TreeSet` ordered by a comparator `cmp` holds no two elements that compare
equal and iterates them in increasing order. Its observable behaviour is that of a
list strictly sorted by `cmp`, with

* `contains x`: some element compares equal to `x`;
* `add x`: `x` goes where the order puts it, unless an element compares equal to it,
  in which case the set is unchanged;
* `addAll xs`: `add` for each element of `xs` in turn.

The lemmas assume what a `Comparable` that is consistent with a total order gives:
`cmp a b = compare (key a) (key b)` for a key into a linear order. Under that
assumption `add` keeps the list sorted (`Sorted.add`) and, when nothing compares
equal to the new element, only permutes `x :: l` (`add_perm`); `addAll` of
elements that pairwise compare unequal is a permutation of the concatenation
(`addAll_perm`).
-/

namespace VpnClient.Lib.TreeSet

variable {α : Type*} (cmp : α → α → Ordering)

/-- `TreeSet.contains`. -/
def contains (x : α) (l : List α) : Bool := l.any fun y => cmp x y == .eq

/-- `TreeSet.add`. -/
def add (x : α) : List α → List α
  | [] => [x]
  | y :: ys =>
    match cmp x y with
    | .lt => x :: y :: ys
    | .eq => y :: ys
    | .gt => y :: add x ys

/-- `TreeSet.addAll`, one `add` per element in the collection's order. -/
def addAll (l : List α) (xs : List α) : List α := xs.foldl (fun s x => add cmp x s) l

/-- A `TreeSet`'s elements in iteration order: strictly increasing. -/
def Sorted (l : List α) : Prop := l.Pairwise fun a b => cmp a b = .lt

/-- Elements that a `TreeSet` keeps apart: they do not compare equal. -/
def Apart (a b : α) : Prop := cmp a b ≠ .eq

@[simp] theorem add_nil (x : α) : add cmp x [] = [x] := rfl

theorem contains_iff {x : α} {l : List α} : contains cmp x l = true ↔ ∃ y ∈ l, cmp x y = .eq := by
  simp [contains]

section Key

variable {cmp} {β : Type*} [LinearOrder β] {key : α → β}

theorem apart_symm (hkey : ∀ a b, cmp a b = compare (key a) (key b)) {a b : α}
    (h : Apart cmp a b) : Apart cmp b a := by
  intro hba
  rw [hkey, compare_eq_iff_eq] at hba
  exact h (by rw [hkey, compare_eq_iff_eq, hba])

/-- Every element of `add x l` is `x` or an element of `l`. -/
theorem mem_add {x y : α} : ∀ {l : List α}, y ∈ add cmp x l → y = x ∨ y ∈ l
  | [], h => by simpa using h
  | z :: zs, h => by
    simp only [add] at h
    split at h
    · simpa using h
    · exact Or.inr h
    · rcases List.mem_cons.mp h with rfl | h
      · exact Or.inr List.mem_cons_self
      · rcases mem_add h with rfl | h
        · exact Or.inl rfl
        · exact Or.inr (List.mem_cons_of_mem _ h)

/-- Every element of `addAll l xs` comes from `l` or from `xs`. -/
theorem mem_addAll {y : α} : ∀ (xs : List α) {l : List α}, y ∈ addAll cmp l xs → y ∈ l ∨ y ∈ xs
  | [], _, h => Or.inl h
  | x :: xs, l, h => by
    rcases mem_addAll xs (l := add cmp x l) h with h | h
    · rcases mem_add h with rfl | h
      · exact Or.inr List.mem_cons_self
      · exact Or.inl h
    · exact Or.inr (List.mem_cons_of_mem _ h)

/-- When nothing compares equal to `x`, `add` only places `x` somewhere in `l`. -/
theorem add_perm {x : α} : ∀ {l : List α}, (∀ y ∈ l, Apart cmp x y) →
    List.Perm (add cmp x l) (x :: l)
  | [], _ => by simp
  | y :: ys, h => by
    simp only [add]
    split
    · exact List.Perm.refl _
    · rename_i heq; exact absurd heq (h y List.mem_cons_self)
    · have ih := add_perm (l := ys) fun z hz => h z (List.mem_cons_of_mem _ hz)
      exact (ih.cons y).trans (List.Perm.swap x y ys)

/-- `add` keeps a `TreeSet` sorted. -/
theorem Sorted.add (hkey : ∀ a b, cmp a b = compare (key a) (key b)) (x : α) :
    ∀ {l : List α}, Sorted cmp l → Sorted cmp (TreeSet.add cmp x l)
  | [], _ => List.pairwise_singleton _ _
  | y :: ys, h => by
    have hys : Sorted cmp ys := (List.pairwise_cons.mp h).2
    have hy : ∀ z ∈ ys, cmp y z = .lt := (List.pairwise_cons.mp h).1
    simp only [TreeSet.add]
    split
    · rename_i hxy
      refine List.Pairwise.cons (fun z hz => ?_) h
      rcases List.mem_cons.mp hz with rfl | hz
      · exact hxy
      · have h1 := hy z hz
        simp only [hkey, compare_lt_iff_lt] at hxy h1 ⊢
        exact hxy.trans h1
    · exact h
    · rename_i hxy
      refine List.Pairwise.cons (fun z hz => ?_) (hys.add hkey x)
      rcases mem_add hz with rfl | hz
      · simp only [hkey, compare_gt_iff_gt] at hxy ⊢
        exact compare_lt_iff_lt.mpr hxy
      · exact hy z hz

/-- `addAll` keeps a `TreeSet` sorted. -/
theorem Sorted.addAll (hkey : ∀ a b, cmp a b = compare (key a) (key b)) :
    ∀ (xs : List α) {l : List α}, Sorted cmp l → Sorted cmp (TreeSet.addAll cmp l xs)
  | [], _, h => h
  | x :: xs, _, h => Sorted.addAll hkey xs (h.add hkey x)

/-- `addAll` of elements that are pairwise apart, and apart from the set's own,
only permutes the concatenation. -/
theorem addAll_perm (hkey : ∀ a b, cmp a b = compare (key a) (key b)) :
    ∀ (xs : List α) {l : List α}, (l ++ xs).Pairwise (Apart cmp) →
      List.Perm (TreeSet.addAll cmp l xs) (l ++ xs)
  | [], l, _ => by simp [TreeSet.addAll]
  | x :: xs, l, h => by
    have hx : ∀ y ∈ l, Apart cmp x y := fun y hy =>
      apart_symm hkey (List.pairwise_append.mp h |>.2.2 y hy x List.mem_cons_self)
    have hperm : List.Perm (add cmp x l) (l ++ [x]) :=
      (add_perm hx).trans (List.perm_append_singleton x l).symm
    have hrest : (add cmp x l ++ xs).Pairwise (Apart cmp) := by
      refine ((hperm.append_right xs).pairwise_iff fun {a b} => apart_symm hkey).mpr ?_
      simpa using h
    have ih := addAll_perm hkey xs hrest
    exact ih.trans (by simpa using hperm.append_right xs)

/-- `Collections.sort` with the comparator, a stable merge sort: its result is
ordered by it. -/
theorem sorted_mergeSort (hkey : ∀ a b, cmp a b = compare (key a) (key b)) (l : List α) :
    (l.mergeSort fun a b => (cmp a b).isLE).Pairwise fun a b => (cmp a b).isLE := by
  have hle : ∀ a b, (cmp a b).isLE = true ↔ key a ≤ key b := fun a b => by
    rw [hkey, Ordering.isLE_iff_ne_gt, compare_gt_iff_gt, not_lt]
  refine List.pairwise_mergeSort (fun a b c hab hbc => ?_) (fun a b => ?_) l
  · exact (hle a c).mpr (((hle a b).mp hab).trans ((hle b c).mp hbc))
  · rcases le_total (key a) (key b) with h | h
    · simp [(hle a b).mpr h]
    · simp [(hle b a).mpr h]

end Key

end VpnClient.Lib.TreeSet
