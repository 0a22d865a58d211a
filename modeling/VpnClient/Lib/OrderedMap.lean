import Mathlib

/-!
# Insertion-ordered maps

A map kept as the list of its key–value pairs in the order the keys were first put:
a `put` of a key that is there replaces its value in place, a new key goes to the
end. Java's `LinkedHashMap` and the `kv_order` arrays of strongSwan's settings
sections both keep their entries this way. Lookup is `List.lookup`.

A map built only by `put` has distinct keys (`nodup_keys_put`), and on such a map a
`put` of a new key is an append (`put_of_not_mem`): that is what a reader of the
map in order sees. `erase` drops the one entry of a key and keeps the others in their
order (`erase_append_cons`).
-/

namespace VpnClient.Lib.OrderedMap

variable {α β : Type*} [BEq α] [LawfulBEq α]

/-- Put `v` at `k`: in place if `k` is a key, at the end if not. -/
def put : List (α × β) → α → β → List (α × β)
  | [], k, v => [(k, v)]
  | (k', v') :: m, k, v => if k' == k then (k', v) :: m else (k', v') :: put m k v

omit [LawfulBEq α] in
@[simp] theorem put_nil (k : α) (v : β) : put [] k v = [(k, v)] := rfl

@[simp] theorem put_cons_self (m : List (α × β)) (k : α) (v v' : β) : put ((k, v') :: m) k v = (k, v) :: m := by
  simp [put]

theorem put_cons_of_ne {k k' : α} (m : List (α × β)) (v v' : β) (h : k' ≠ k) :
    put ((k', v') :: m) k v = (k', v') :: put m k v := by
  simp [put, h]

omit [LawfulBEq α] in
theorem put_ne_nil (m : List (α × β)) (k : α) (v : β) : put m k v ≠ [] := by
  cases m with
  | nil => simp [put]
  | cons p m =>
    rw [put]
    split <;> simp

/-- The keys of a map, in order. -/
def keys (m : List (α × β)) : List α := m.map Prod.fst

omit [BEq α] [LawfulBEq α] in
@[simp] theorem keys_nil : keys ([] : List (α × β)) = [] := rfl

omit [BEq α] [LawfulBEq α] in
@[simp] theorem keys_cons (p : α × β) (m : List (α × β)) : keys (p :: m) = p.1 :: keys m := rfl

omit [BEq α] [LawfulBEq α] in
@[simp] theorem keys_append (m m' : List (α × β)) : keys (m ++ m') = keys m ++ keys m' :=
  List.map_append

@[simp] theorem lookup_put_self (m : List (α × β)) (k : α) (v : β) : (put m k v).lookup k = some v := by
  induction m with
  | nil => simp
  | cons p m ih =>
    obtain ⟨k', v'⟩ := p
    by_cases h : k' = k
    · subst h
      simp
    · have hb : (k == k') = false := beq_eq_false_iff_ne.mpr (Ne.symm h)
      rw [put_cons_of_ne m v v' h, List.lookup_cons, hb, ih]

theorem lookup_put_of_ne {k k' : α} (m : List (α × β)) (v : β) (h : k' ≠ k) :
    (put m k v).lookup k' = m.lookup k' := by
  induction m with
  | nil => simp [h]
  | cons p m ih =>
    obtain ⟨k'', v'⟩ := p
    by_cases hk : k'' = k
    · subst hk
      have hb : (k' == k'') = false := beq_eq_false_iff_ne.mpr h
      simp only [put_cons_self, List.lookup_cons, hb]
    · rw [put_cons_of_ne m v v' hk, List.lookup_cons, List.lookup_cons, ih]

theorem lookup_put (m : List (α × β)) (k k' : α) (v : β) :
    (put m k v).lookup k' = if k' == k then some v else m.lookup k' := by
  by_cases h : k' = k
  · rw [h, lookup_put_self, beq_self_eq_true, if_pos rfl]
  · rw [lookup_put_of_ne m v h, if_neg (by simpa using h)]

theorem mem_keys_put {m : List (α × β)} {k k' : α} {v : β} :
    k' ∈ keys (put m k v) ↔ k' = k ∨ k' ∈ keys m := by
  induction m with
  | nil => simp
  | cons p m ih =>
    obtain ⟨k'', v'⟩ := p
    by_cases hk : k'' = k
    · subst hk
      simp only [put_cons_self, keys_cons, List.mem_cons]
      tauto
    · simp only [put_cons_of_ne m v v' hk, keys_cons, List.mem_cons, ih]
      tauto

/-- A new key goes to the end. -/
theorem put_of_not_mem {m : List (α × β)} {k : α} (v : β) (h : k ∉ keys m) : put m k v = m ++ [(k, v)] := by
  induction m with
  | nil => rfl
  | cons p m ih =>
    obtain ⟨k', v'⟩ := p
    have hne : k' ≠ k := fun he => h (by simp [he])
    have hm : k ∉ keys m := fun hm => h (by simp [hm])
    rw [put_cons_of_ne m v v' hne, ih hm, List.cons_append]

/-- Putting keeps the keys distinct. -/
theorem nodup_keys_put {m : List (α × β)} (k : α) (v : β) (h : (keys m).Nodup) : (keys (put m k v)).Nodup := by
  induction m with
  | nil => simp
  | cons p m ih =>
    obtain ⟨k', v'⟩ := p
    rw [keys_cons, List.nodup_cons] at h
    by_cases hk : k' = k
    · subst hk
      simpa using h
    · simp only [put_cons_of_ne m v v' hk, keys_cons, List.nodup_cons, mem_keys_put, hk, false_or]
      exact ⟨h.1, ih h.2⟩

/-- Putting a key that is not in front of the map puts it behind. -/
theorem put_append_of_not_mem {m : List (α × β)} {k : α} (m' : List (α × β)) (v : β) (h : k ∉ keys m) :
    put (m ++ m') k v = m ++ put m' k v := by
  induction m with
  | nil => rfl
  | cons p m ih =>
    obtain ⟨k', v'⟩ := p
    have hne : k' ≠ k := fun he => h (by simp [he])
    rw [List.cons_append, put_cons_of_ne _ v v' hne, ih (fun hm => h (by simp [hm])), List.cons_append]

theorem lookup_of_not_mem {m : List (α × β)} {k : α} (h : k ∉ keys m) : m.lookup k = none := by
  rw [List.lookup_eq_none_iff]
  intro p hp
  have hne : p.1 ≠ k := fun he => h (List.mem_map.mpr ⟨p, hp, he⟩)
  rw [bne_iff_ne]
  exact hne.symm

/-- Keys in front that are not `k` do not hide it. -/
theorem lookup_append_of_not_mem {m : List (α × β)} {k : α} (m' : List (α × β)) (h : k ∉ keys m) :
    (m ++ m').lookup k = m'.lookup k := by
  rw [List.lookup_append, lookup_of_not_mem h, Option.none_or]

/-- Putting a key that is there keeps the length. -/
theorem length_put_of_mem {m : List (α × β)} {k : α} (v : β) (h : k ∈ keys m) : (put m k v).length = m.length := by
  induction m with
  | nil => simp at h
  | cons p m ih =>
    obtain ⟨k', v'⟩ := p
    by_cases hk : k' = k
    · subst hk
      simp
    · have hm : k ∈ keys m := by simpa [Ne.symm hk] using h
      rw [put_cons_of_ne m v v' hk, List.length_cons, List.length_cons, ih hm]

omit [LawfulBEq α] in
/-- A put adds at most one entry. -/
theorem length_put_le (m : List (α × β)) (k : α) (v : β) : (put m k v).length ≤ m.length + 1 := by
  induction m with
  | nil => simp
  | cons p m ih =>
    rw [put]
    split <;> simp [ih]

/-! ## Erasing a key -/

/-- Drop the entry of `k`. -/
def erase (m : List (α × β)) (k : α) : List (α × β) := m.filter fun p => !(p.1 == k)

theorem erase_of_not_mem {m : List (α × β)} {k : α} (h : k ∉ keys m) : erase m k = m := by
  rw [erase, List.filter_eq_self]
  intro p hp
  have hne : p.1 ≠ k := fun he => h (List.mem_map.mpr ⟨p, hp, he⟩)
  simpa using hne

/-- In a map with distinct keys, erasing a key drops its one entry. -/
theorem erase_append_cons {m m' : List (α × β)} {k : α} (v : β) (h : k ∉ keys m) (h' : k ∉ keys m') :
    erase (m ++ (k, v) :: m') k = m ++ m' := by
  rw [erase, List.filter_append, List.filter_cons_of_neg (by simp), ← erase, ← erase,
    erase_of_not_mem h, erase_of_not_mem h']

end VpnClient.Lib.OrderedMap
