import Mathlib.Data.Int.Notation
import VpnClient.Lib.Memory
import VpnClient.Lib.Run

/-!
# `array_t`: a list stored with unused room on both sides

`collections/array.c` keeps `count` elements in an allocated block with `head` unused
slots before them and `tail` after. An insertion or a removal moves the shorter side:
it uses the room on the side that has some, and otherwise shifts the elements on the
side of the index that holds fewer of them. `head` and `tail` are 8-bit fields; a
removal that leaves more than `ARRAY_MAX_UNUSED` of them compacts the block.

The model counts sizes in elements: `get_size` multiplies every offset and length by
the same element size, so the layout does not depend on it. A slot is `none` while it
holds nothing written (fresh memory from `malloc` or `realloc`).

`Rep a L` says that `a` stores the list `L`: the block is `head + count + tail` slots
long, the elements fill the slots from `head` on, and the unused counts keep within
the bound that stops `head++` and `tail++` from wrapping. Every operation keeps `Rep`
and acts on `L` as the list operation of the same name (`rep_arrayInsert`,
`rep_arrayRemove`, `arrayGet_eq`, `rep_arrayCompress`); an enumerator that removes
elements as it goes still visits every element once, in order (`EnumInv.run`).

The count is a natural number here. `array.c` keeps it in a `uint32_t` and
`array_count` returns it as an `int`; both agree with the model on arrays of fewer than
`2 ^ 31` elements.
-/

namespace VpnClient.Collections

open VpnClient.Lib.Memory

/-- `ARRAY_MAX_UNUSED`: unused slots allowed at both ends before a removal compacts. -/
def arrayMaxUnused : ℕ := 32

/-- `array_t` of elements of type `α`. -/
structure ArrayT (α : Type*) where
  count : ℕ
  head : UInt8
  tail : UInt8
  data : List (Option α)

variable {α : Type*}

/-! ## The operations of `array.c` -/

/-- `make_tail_room`. -/
def makeTailRoom (a : ArrayT α) (room : UInt8) : ArrayT α :=
  if a.tail < room then
    { a with data := realloc a.data (a.count + a.head.toNat + room.toNat) none, tail := room }
  else a

/-- `make_head_room`: the block grows and its contents move up by the new room. -/
def makeHeadRoom (a : ArrayT α) (room : UInt8) : ArrayT α :=
  if a.head < room then
    let increase := room - a.head
    let data := realloc a.data (a.count + a.tail.toNat + room.toNat) none
    { a with data := memmove data increase.toNat 0 (a.count + a.tail.toNat + a.head.toNat), head := room }
  else a

/-- `insert_tail`: the elements from `idx` on move up into the tail room. -/
def insertTail (a : ArrayT α) (idx : ℕ) : ArrayT α :=
  let a := makeTailRoom a 1
  { a with
    data := memmove a.data (a.head.toNat + idx + 1) (a.head.toNat + idx) (a.count - idx)
    tail := a.tail - 1
    count := a.count + 1 }

/-- `insert_head`: the elements before `idx` move down into the head room. -/
def insertHead (a : ArrayT α) (idx : ℕ) : ArrayT α :=
  let a := makeHeadRoom a 1
  { a with
    data := memmove a.data (a.head.toNat - 1) a.head.toNat idx
    head := a.head - 1
    count := a.count + 1 }

/-- `remove_tail`: the elements after `idx` move down over it. -/
def removeTail (a : ArrayT α) (idx : ℕ) : ArrayT α :=
  { a with
    data := memmove a.data (idx + a.head.toNat) (idx + a.head.toNat + 1) (a.count - 1 - idx)
    count := a.count - 1
    tail := a.tail + 1 }

/-- `remove_head`: the elements before `idx` move up over it. -/
def removeHead (a : ArrayT α) (idx : ℕ) : ArrayT α :=
  { a with
    data := memmove a.data (a.head.toNat + 1) a.head.toNat idx
    count := a.count - 1
    head := a.head + 1 }

/-- `array_create` with `reserve` slots of tail room. -/
def arrayCreate (reserve : UInt8) : ArrayT α :=
  ⟨0, 0, reserve, List.replicate reserve.toNat none⟩

/-- `array_count`. -/
def arrayCount (a : ArrayT α) : ℕ := a.count

/-- `array_compress`: the elements move to the front and the block shrinks to them.
The local `tail` is 32 bits wide, so `tail + head` does not wrap. -/
def arrayCompress (a : ArrayT α) : ArrayT α :=
  let moved : ArrayT α × ℕ :=
    if a.head ≠ 0 then
      ({ a with data := memmove a.data 0 a.head.toNat (a.count + a.tail.toNat), head := 0 },
        a.tail.toNat + a.head.toNat)
    else (a, a.tail.toNat)
  if moved.2 ≠ 0 then { moved.1 with data := realloc moved.1.data moved.1.count none, tail := 0 }
  else moved.1

/-- `array_insert`: a negative index appends, an index past `count` is ignored. -/
def arrayInsert (a : ArrayT α) (idx : ℤ) (x : α) : ArrayT α :=
  if idx < 0 ∨ idx ≤ arrayCount a then
    let idx : ℕ := if idx < 0 then arrayCount a else idx.toNat
    let a :=
      if a.head ≠ 0 ∧ a.tail = 0 then insertHead a idx
      else if a.tail ≠ 0 ∧ a.head = 0 then insertTail a idx
      else if idx > arrayCount a / 2 then insertTail a idx
      else insertHead a idx
    { a with data := a.data.set (a.head.toNat + idx) (some x) }
  else a

/-- `array_get`: `none` for `FALSE`, else the content of the slot read (`none` if that
slot was never written). A negative index reads the last element. -/
def arrayGet (a : ArrayT α) (idx : ℤ) : Option (Option α) :=
  if 0 ≤ idx ∧ arrayCount a ≤ idx then none
  else if idx < 0 ∧ arrayCount a = 0 then none
  else
    let idx : ℕ := if idx < 0 then arrayCount a - 1 else idx.toNat
    some (a.data.getD (a.head.toNat + idx) none)

/-- `array_remove`: what `array_get` read, and the array after the removal; a failed
`array_get` leaves the array as it is. -/
def arrayRemove (a : ArrayT α) (idx : ℤ) : Option (Option α) × ArrayT α :=
  match arrayGet a idx with
  | none => (none, a)
  | some v =>
    let idx : ℕ := if idx < 0 then arrayCount a - 1 else idx.toNat
    let a := if idx > arrayCount a / 2 then removeTail a idx else removeHead a idx
    let a := if a.head.toNat + a.tail.toNat > arrayMaxUnused then arrayCompress a else a
    (some v, a)

/-- `enumerate` of the array enumerator, whose `idx` is one past the element it last
returned: the next element and the new `idx`, or `none` at the end. -/
def enumerate (a : ArrayT α) (idx : ℕ) : Option (Option α × ℕ) :=
  if idx ≥ a.count then none else some (a.data.getD (idx + a.head.toNat) none, idx + 1)

/-- `array_remove_at`: removes the element the enumerator last returned. -/
def arrayRemoveAt (a : ArrayT α) (idx : ℕ) : ArrayT α × ℕ :=
  if idx ≠ 0 then ((arrayRemove a ((idx - 1 : ℕ) : ℤ)).2, idx - 1) else (a, idx)

/-! ## The layout -/

section UInt8Arith

theorem uint8_lt_one {x : UInt8} : x < 1 ↔ x.toNat = 0 := by
  rw [UInt8.lt_iff_toNat_lt]
  simp

theorem uint8_eq_zero {x : UInt8} : x = 0 ↔ x.toNat = 0 := by
  rw [← UInt8.toNat_inj]
  simp

theorem toNat_sub_one_of_ne {x : UInt8} (h : x.toNat ≠ 0) : (x - 1).toNat = x.toNat - 1 := by
  have := x.toNat_lt
  rw [UInt8.toNat_sub]
  simp only [UInt8.toNat_one]
  omega

theorem toNat_add_one_of_lt {x : UInt8} (h : x.toNat < 255) : (x + 1).toNat = x.toNat + 1 := by
  rw [UInt8.toNat_add]
  simp only [UInt8.toNat_one]
  omega

end UInt8Arith

/-- `head` unused slots, then the elements of `L`, then `tail` unused slots. -/
structure Layout (a : ArrayT α) (L : List α) : Prop where
  length_eq : a.data.length = a.head.toNat + a.count + a.tail.toNat
  count_eq : a.count = L.length
  stored : Stored a.data a.head.toNat (L.map some)

/-- The layout with the slot for a new element `i` opened: the elements before it in
place, those after it one slot further up. -/
structure Opened (a : ArrayT α) (L : List α) (i : ℕ) : Prop where
  length_eq : a.data.length = a.head.toNat + a.count + a.tail.toNat
  count_eq : a.count = L.length + 1
  stored_take : Stored a.data a.head.toNat ((L.take i).map some)
  stored_drop : Stored a.data (a.head.toNat + i + 1) ((L.drop i).map some)

variable {a : ArrayT α} {L : List α} {i : ℕ}

theorem stored_map_iff {d : List (Option α)} {h : ℕ} (hi : i ≤ L.length) :
    Stored d h (L.map some) ↔ Stored d h ((L.take i).map some) ∧ Stored d (h + i) ((L.drop i).map some) := by
  conv_lhs => rw [← List.take_append_drop i L]
  rw [List.map_append, stored_append, List.length_map, List.length_take, Nat.min_eq_left hi]

theorem insertIdx_eq_take_cons_drop (hi : i ≤ L.length) (x : α) :
    L.insertIdx i x = L.take i ++ x :: L.drop i := by
  apply List.ext_getElem?
  intro k
  simp only [List.getElem?_insertIdx, List.getElem?_append, List.getElem?_take, List.length_take,
    List.getElem?_cons, List.getElem?_drop]
  split_ifs <;> first | omega | rfl | (congr 1; omega)

theorem makeTailRoom_one (hl : Layout a L) :
    Layout (makeTailRoom a 1) L ∧ (makeTailRoom a 1).head = a.head ∧
      (makeTailRoom a 1).tail.toNat = max a.tail.toNat 1 := by
  have hL := hl.count_eq
  unfold makeTailRoom
  split_ifs with ht
  · have ht0 := uint8_lt_one.mp ht
    refine ⟨⟨?_, hl.count_eq, hl.stored.realloc none ?_⟩, rfl, ?_⟩
    · simp only [length_realloc, UInt8.toNat_one]
      omega
    · simp only [List.length_map]
      omega
    · simp only [UInt8.toNat_one]
      omega
  · have ht0 : a.tail.toNat ≠ 0 := fun h => ht (uint8_lt_one.mpr h)
    exact ⟨hl, rfl, by omega⟩

theorem makeHeadRoom_one (hl : Layout a L) :
    Layout (makeHeadRoom a 1) L ∧ (makeHeadRoom a 1).tail = a.tail ∧
      (makeHeadRoom a 1).head.toNat = max a.head.toNat 1 := by
  have hL := hl.count_eq
  unfold makeHeadRoom
  split_ifs with hh
  · have hh0 : a.head = 0 := uint8_eq_zero.mpr (uint8_lt_one.mp hh)
    -- the grown block, with everything moved up by the one new slot
    have hs := hl.stored.realloc none (n := a.count + a.tail.toNat + 1) (by simp only [hh0, UInt8.toNat_zero, List.length_map]; omega)
    have hlen : (realloc a.data (a.count + a.tail.toNat + 1) none).length = a.count + a.tail.toNat + 1 :=
      length_realloc _ _ _
    have hmv : Stored (memmove _ 1 0 (a.count + a.tail.toNat)) (1 + (a.head.toNat - 0)) _ :=
      hs.memmove_of_le (by omega) (by omega) (Nat.zero_le _) (by simp only [hh0, UInt8.toNat_zero, List.length_map]; omega)
    refine ⟨⟨?_, hl.count_eq, ?_⟩, rfl, ?_⟩
    · simp only [hh0, UInt8.toNat_zero, Nat.add_zero, UInt8.toNat_one, show (1 : UInt8) - 0 = 1 from rfl]
      rw [length_memmove (by omega) (by omega), hlen]
      omega
    · simpa [hh0] using hmv
    · simp [hh0]
  · have hh0 : a.head.toNat ≠ 0 := fun h => hh (uint8_lt_one.mpr h)
    exact ⟨hl, rfl, by omega⟩

theorem insertTail_opened (hl : Layout a L) (hi : i ≤ L.length) :
    Opened (insertTail a i) L i ∧ (insertTail a i).head = a.head ∧
      (insertTail a i).tail.toNat = max a.tail.toNat 1 - 1 := by
  obtain ⟨hb, hhead, htail⟩ := makeTailRoom_one hl
  have hL := hb.count_eq
  have hlen := hb.length_eq
  obtain ⟨hA, hB⟩ := (stored_map_iff hi).mp hb.stored
  -- the elements from `i` on move up by one into the tail room
  have hd : (makeTailRoom a 1).head.toNat + i + 1 + ((makeTailRoom a 1).count - i) ≤
      (makeTailRoom a 1).data.length := by omega
  have hs : (makeTailRoom a 1).head.toNat + i + ((makeTailRoom a 1).count - i) ≤
      (makeTailRoom a 1).data.length := by omega
  refine ⟨⟨?_, ?_, ?_, ?_⟩, hhead, ?_⟩
  · simp only [insertTail]
    rw [length_memmove hd hs, toNat_sub_one_of_ne (by omega)]
    omega
  · simp only [insertTail]
    omega
  · simp only [insertTail]
    exact hhead ▸ hA.memmove_of_disjoint hd hs (.inl (by simp only [List.length_map, List.length_take]; omega))
  · have hmv := hB.memmove_of_le hd hs (Nat.le_refl _) (by simp only [List.length_map, List.length_drop]; omega)
    simp only [insertTail]
    simpa using hmv
  · simp only [insertTail]
    rw [toNat_sub_one_of_ne (by omega), htail]

theorem insertHead_opened (hl : Layout a L) (hi : i ≤ L.length) :
    Opened (insertHead a i) L i ∧ (insertHead a i).tail = a.tail ∧
      (insertHead a i).head.toNat = max a.head.toNat 1 - 1 := by
  obtain ⟨hb, htail, hhead⟩ := makeHeadRoom_one hl
  have hL := hb.count_eq
  have hlen := hb.length_eq
  obtain ⟨hA, hB⟩ := (stored_map_iff hi).mp hb.stored
  -- the elements before `i` move down by one into the head room
  have hd : (makeHeadRoom a 1).head.toNat - 1 + i ≤ (makeHeadRoom a 1).data.length := by omega
  have hs : (makeHeadRoom a 1).head.toNat + i ≤ (makeHeadRoom a 1).data.length := by omega
  have hsub := toNat_sub_one_of_ne (x := (makeHeadRoom a 1).head) (by omega)
  refine ⟨⟨?_, ?_, ?_, ?_⟩, htail, ?_⟩
  · simp only [insertHead]
    rw [length_memmove hd hs, hsub]
    omega
  · simp only [insertHead]
    omega
  · have hmv := hA.memmove_of_le hd hs (Nat.le_refl _) (by simp only [List.length_map, List.length_take]; omega)
    simp only [insertHead, hsub]
    simpa using hmv
  · have hkeep := hB.memmove_of_disjoint hd hs (.inr (by omega))
    have heq : (makeHeadRoom a 1).head.toNat - 1 + i + 1 = (makeHeadRoom a 1).head.toNat + i := by omega
    simp only [insertHead, hsub, heq]
    exact hkeep
  · simp only [insertHead]
    rw [hsub, hhead]

/-- Writing the new element into the opened slot stores the list with it inserted. -/
theorem Opened.set (ho : Opened a L i) (hi : i ≤ L.length) (x : α) :
    Layout { a with data := a.data.set (a.head.toNat + i) (some x) } (L.insertIdx i x) := by
  have hlt : a.head.toNat + i < a.data.length := by
    have := ho.length_eq
    have := ho.count_eq
    omega
  refine ⟨by simpa using ho.length_eq, by simp [ho.count_eq, List.length_insertIdx_of_le_length hi], ?_⟩
  rw [insertIdx_eq_take_cons_drop hi, List.map_append, List.map_cons, stored_append,
    ← List.singleton_append, stored_append]
  have hti : ((L.take i).map some).length = i := by simp only [List.length_map, List.length_take]; omega
  refine ⟨ho.stored_take.set_of_ne _ (.inr (by omega)), ?_, ?_⟩
  · rw [hti]
    exact stored_set_self hlt
  · rw [hti]
    exact ho.stored_drop.set_of_ne _ (.inl (by simp))

theorem removeTail_layout (hl : Layout a L) (hi : i < L.length) (ht : a.tail.toNat < 255) :
    Layout (removeTail a i) (L.eraseIdx i) ∧ (removeTail a i).head = a.head ∧
      (removeTail a i).tail.toNat = a.tail.toNat + 1 := by
  have hL := hl.count_eq
  have hlen := hl.length_eq
  have hA := ((stored_map_iff (Nat.le_of_lt hi)).mp hl.stored).1
  have hB := ((stored_map_iff (Nat.succ_le_of_lt hi)).mp hl.stored).2
  -- the elements after `i` move down by one over it
  have hd : i + a.head.toNat + (a.count - 1 - i) ≤ a.data.length := by omega
  have hs : i + a.head.toNat + 1 + (a.count - 1 - i) ≤ a.data.length := by omega
  have hmv := hB.memmove_of_le hd hs (by omega) (by simp only [List.length_map, List.length_drop]; omega)
  have hti : ((L.take i).map some).length = i := by simp only [List.length_map, List.length_take]; omega
  refine ⟨⟨?_, ?_, ?_⟩, rfl, toNat_add_one_of_lt ht⟩
  · simp only [removeTail]
    rw [length_memmove hd hs, toNat_add_one_of_lt ht]
    omega
  · simp only [removeTail, List.length_eraseIdx_of_lt hi]
    omega
  · rw [List.eraseIdx_eq_take_drop_succ, List.map_append, stored_append, hti]
    refine ⟨hA.memmove_of_disjoint hd hs (.inl (by simp only [List.length_map, List.length_take]; omega)), ?_⟩
    have heq : i + a.head.toNat + (a.head.toNat + (i + 1) - (i + a.head.toNat + 1)) = a.head.toNat + i := by
      omega
    rw [heq] at hmv
    exact hmv

theorem removeHead_layout (hl : Layout a L) (hi : i < L.length) (hh : a.head.toNat < 255) :
    Layout (removeHead a i) (L.eraseIdx i) ∧ (removeHead a i).tail = a.tail ∧
      (removeHead a i).head.toNat = a.head.toNat + 1 := by
  have hL := hl.count_eq
  have hlen := hl.length_eq
  have hA := ((stored_map_iff (Nat.le_of_lt hi)).mp hl.stored).1
  have hB := ((stored_map_iff (Nat.succ_le_of_lt hi)).mp hl.stored).2
  -- the elements before `i` move up by one over it
  have hd : a.head.toNat + 1 + i ≤ a.data.length := by omega
  have hs : a.head.toNat + i ≤ a.data.length := by omega
  have hmv := hA.memmove_of_le hd hs (Nat.le_refl _) (by simp only [List.length_map, List.length_take]; omega)
  have hti : ((L.take i).map some).length = i := by simp only [List.length_map, List.length_take]; omega
  refine ⟨⟨?_, ?_, ?_⟩, rfl, toNat_add_one_of_lt hh⟩
  · simp only [removeHead]
    rw [length_memmove hd hs, toNat_add_one_of_lt hh]
    omega
  · simp only [removeHead, List.length_eraseIdx_of_lt hi]
    omega
  · simp only [removeHead]
    rw [List.eraseIdx_eq_take_drop_succ, List.map_append, stored_append, hti, toNat_add_one_of_lt hh]
    refine ⟨by simpa using hmv, ?_⟩
    have hkeep := hB.memmove_of_disjoint hd hs (.inr (by omega))
    have heq : a.head.toNat + (i + 1) = a.head.toNat + 1 + i := by omega
    rw [heq] at hkeep
    exact hkeep

theorem arrayCompress_layout (hl : Layout a L) :
    Layout (arrayCompress a) L ∧ (arrayCompress a).head = 0 ∧ (arrayCompress a).tail = 0 := by
  have hL := hl.count_eq
  have hlen := hl.length_eq
  by_cases hh : a.head.toNat = 0
  · -- nothing to move: the block shrinks to the elements if it has tail room
    have hh0 : a.head = 0 := uint8_eq_zero.mpr hh
    by_cases ht : a.tail.toNat = 0
    · have hc : arrayCompress a = a := by simp [arrayCompress, hh0, ht]
      rw [hc]
      exact ⟨hl, hh0, uint8_eq_zero.mpr ht⟩
    · have hc : arrayCompress a = { a with data := realloc a.data a.count none, tail := 0 } := by
        simp [arrayCompress, hh0, ht]
      rw [hc]
      refine ⟨⟨?_, hl.count_eq, hl.stored.realloc none (by simp only [List.length_map]; omega)⟩, hh0, rfl⟩
      simp [hh]
  · -- the elements move down to slot `0`, then the block shrinks to them
    have hh0 : a.head ≠ 0 := fun h => hh (uint8_eq_zero.mp h)
    have hc : arrayCompress a = { a with
        data := realloc (memmove a.data 0 a.head.toNat (a.count + a.tail.toNat)) a.count none
        head := 0
        tail := 0 } := by
      simp [arrayCompress, hh0, hh]
    have hmv : Stored (memmove a.data 0 a.head.toNat (a.count + a.tail.toNat)) (0 + (a.head.toNat - a.head.toNat)) _ :=
      hl.stored.memmove_of_le (by omega) (by omega) (Nat.le_refl _) (by simp only [List.length_map]; omega)
    rw [hc]
    refine ⟨⟨by simp, hl.count_eq, ?_⟩, rfl, rfl⟩
    exact (by simpa using hmv : Stored _ 0 _).realloc none (by simp only [List.length_map]; omega)

theorem Layout.getD_eq (hl : Layout a L) {k : ℕ} (hk : k < L.length) :
    a.data.getD (a.head.toNat + k) none = some L[k] := by
  rw [hl.stored.getD_eq none (by simpa using hk), List.getElem_map]

/-! ## The list an array stores -/

/-- What `array_insert` does to the list: a negative index appends; an index past the
end leaves the list as it is. -/
def listInsert (L : List α) (idx : ℤ) (x : α) : List α :=
  if idx < 0 then L ++ [x] else L.insertIdx idx.toNat x

/-- What `array_get` reads: a negative index reads the last element. -/
def listGet (L : List α) (idx : ℤ) : Option α :=
  if idx < 0 then L.getLast? else L[idx.toNat]?

/-- What `array_remove` does to the list. -/
def listRemove (L : List α) (idx : ℤ) : List α :=
  if idx < 0 then L.dropLast else L.eraseIdx idx.toNat

/-- `a` stores `L`, with unused room that `head++` and `tail++` cannot wrap: at most
`ARRAY_MAX_UNUSED` slots at both ends together, or no head room and tail room that
fits the 8-bit field together with the elements (what `array_create` reserves). -/
structure Rep (a : ArrayT α) (L : List α) : Prop extends Layout a L where
  room : a.head.toNat + a.tail.toNat ≤ arrayMaxUnused ∨ a.head.toNat = 0 ∧ a.tail.toNat + a.count ≤ 255

theorem rep_arrayCreate (reserve : UInt8) : Rep (arrayCreate reserve : ArrayT α) [] :=
  ⟨⟨by simp [arrayCreate], rfl, stored_nil⟩, .inr ⟨by simp [arrayCreate], by have := reserve.toNat_lt; show reserve.toNat + 0 ≤ 255; omega⟩⟩

theorem arrayCount_eq (hl : Layout a L) : arrayCount a = L.length := hl.count_eq

/-- `array_get` reads the element of the list at the index. -/
theorem arrayGet_eq (hl : Layout a L) (idx : ℤ) : arrayGet a idx = (listGet L idx).map some := by
  unfold arrayGet listGet
  rw [arrayCount_eq hl]
  by_cases hneg : idx < 0
  · -- the last element, if there is one
    by_cases hnil : L.length = 0
    · simp [hneg, List.length_eq_zero_iff.mp hnil]
    · have hk : L.length - 1 < L.length := by omega
      have hget := hl.getD_eq hk
      simp only [hneg, hnil, and_false, false_and, if_false, if_true, hget, List.getLast?_eq_getElem?,
        List.getElem?_eq_getElem hk, Option.map_some, show ¬ (0 ≤ idx) by omega]
  · have h0 : 0 ≤ idx := by omega
    by_cases hlt : idx.toNat < L.length
    · have hget := hl.getD_eq hlt
      simp only [hneg, h0, if_false, true_and, hget, List.getElem?_eq_getElem hlt, Option.map_some,
        false_and, show ¬ ((L.length : ℤ) ≤ idx) by omega]
    · simp only [hneg, h0, if_false, true_and, List.getElem?_eq_none (Nat.le_of_not_lt hlt), Option.map_none,
        show (L.length : ℤ) ≤ idx by omega, if_true]

/-! ## Insertion -/

theorem listInsert_eq (idx : ℤ) (x : α) :
    listInsert L idx x = L.insertIdx (if idx < 0 then L.length else idx.toNat) x := by
  unfold listInsert
  split_ifs
  · simp
  · rfl

theorem listInsert_of_lt {idx : ℤ} (hlt : L.length < idx) (x : α) : listInsert L idx x = L := by
  rw [listInsert, if_neg (by omega), List.insertIdx_of_length_lt (by omega)]

/-- An insertion that used up a slot of room on one side keeps the room bound: it took
the slot from a side that had one, or both sides were empty. -/
theorem room_of_insert {b : ArrayT α} (hroom : a.head.toNat + a.tail.toNat ≤ arrayMaxUnused ∨
      a.head.toNat = 0 ∧ a.tail.toNat + a.count ≤ 255)
    (hc : b.count = a.count + 1) (hh : b.head.toNat ≤ a.head.toNat) (ht : b.tail.toNat ≤ a.tail.toNat)
    (hused : b.head.toNat + b.tail.toNat < a.head.toNat + a.tail.toNat ∨ a.head.toNat + a.tail.toNat = 0) :
    b.head.toNat + b.tail.toNat ≤ arrayMaxUnused ∨ b.head.toNat = 0 ∧ b.tail.toNat + b.count ≤ 255 := by
  unfold arrayMaxUnused at *
  omega

/-- **`array_insert` inserts into the list**, on whichever side it makes room. -/
theorem rep_arrayInsert (h : Rep a L) (idx : ℤ) (x : α) :
    Rep (arrayInsert a idx x) (listInsert L idx x) := by
  have hL := h.count_eq
  unfold arrayInsert
  rw [arrayCount_eq h.toLayout]
  by_cases hg : idx < 0 ∨ idx ≤ L.length
  · rw [if_pos hg, listInsert_eq]
    dsimp only
    generalize hi : (if idx < 0 then L.length else idx.toNat) = i
    have hile : i ≤ L.length := by rw [← hi]; split_ifs <;> omega
    -- the four ways `array_insert` chooses a side
    simp only [ne_eq, uint8_eq_zero (x := a.head), uint8_eq_zero (x := a.tail)]
    split_ifs with h1 h2 h3
    · obtain ⟨ho, htail, hhead⟩ := insertHead_opened h.toLayout hile
      have htail' := congrArg UInt8.toNat htail
      exact ⟨ho.set hile x, room_of_insert (b := insertHead a i) h.room (by rw [ho.count_eq, hL]) (by omega) (by omega)
        (by omega)⟩
    · obtain ⟨ho, hhead, htail⟩ := insertTail_opened h.toLayout hile
      have hhead' := congrArg UInt8.toNat hhead
      exact ⟨ho.set hile x, room_of_insert (b := insertTail a i) h.room (by rw [ho.count_eq, hL]) (by omega) (by omega)
        (by omega)⟩
    · obtain ⟨ho, hhead, htail⟩ := insertTail_opened h.toLayout hile
      have hhead' := congrArg UInt8.toNat hhead
      exact ⟨ho.set hile x, room_of_insert (b := insertTail a i) h.room (by rw [ho.count_eq, hL]) (by omega) (by omega)
        (by omega)⟩
    · obtain ⟨ho, htail, hhead⟩ := insertHead_opened h.toLayout hile
      have htail' := congrArg UInt8.toNat htail
      exact ⟨ho.set hile x, room_of_insert (b := insertHead a i) h.room (by rw [ho.count_eq, hL]) (by omega) (by omega)
        (by omega)⟩
  · -- an index past the end is ignored
    rw [if_neg hg, listInsert_of_lt (by omega)]
    exact h

/-! ## Removal -/

theorem listRemove_of_listGet_none {idx : ℤ} (hg : listGet L idx = none) : listRemove L idx = L := by
  unfold listGet at hg
  unfold listRemove
  split_ifs at hg ⊢ with hneg
  · rw [List.getLast?_eq_none_iff.mp hg, List.dropLast_nil]
  · exact List.eraseIdx_of_length_le (List.getElem?_eq_none_iff.mp hg)

/-- The position `array_remove` removes at, when `array_get` found an element there. -/
theorem listRemove_of_listGet_some {idx : ℤ} {v : α} (hg : listGet L idx = some v) :
    (if idx < 0 then L.length - 1 else idx.toNat) < L.length ∧
      listRemove L idx = L.eraseIdx (if idx < 0 then L.length - 1 else idx.toNat) := by
  unfold listGet at hg
  unfold listRemove
  split_ifs at hg ⊢ with hneg
  · have hne : L ≠ [] := fun h => by simp [h] at hg
    have hpos := List.length_pos_iff.mpr hne
    exact ⟨by omega, List.dropLast_eq_eraseIdx (by omega)⟩
  · exact ⟨(List.getElem?_eq_some_iff.mp hg).1, rfl⟩

/-- A removal leaves a layout whose room the compaction check then bounds. -/
theorem rep_of_compress_check {b : ArrayT α} (hl : Layout b L) :
    Rep (if b.head.toNat + b.tail.toNat > arrayMaxUnused then arrayCompress b else b) L := by
  split_ifs with hbig
  · obtain ⟨hc, hh, ht⟩ := arrayCompress_layout hl
    exact ⟨hc, .inl (by simp [hh, ht, arrayMaxUnused])⟩
  · exact ⟨hl, .inl (by omega)⟩

/-- **`array_remove` removes the element `array_get` reads**, from whichever side. -/
theorem rep_arrayRemove (h : Rep a L) (idx : ℤ) :
    (arrayRemove a idx).1 = (listGet L idx).map some ∧ Rep (arrayRemove a idx).2 (listRemove L idx) := by
  have hL := h.count_eq
  have hroom := h.room
  unfold arrayRemove
  rw [arrayGet_eq h.toLayout]
  cases hg : listGet L idx with
  | none =>
    -- `array_get` failed: nothing changes
    rw [listRemove_of_listGet_none hg]
    exact ⟨rfl, h⟩
  | some v =>
    obtain ⟨hi, hrem⟩ := listRemove_of_listGet_some hg
    simp only [Option.map_some, true_and]
    rw [hrem, arrayCount_eq h.toLayout]
    generalize (if idx < 0 then L.length - 1 else idx.toNat) = i at hi ⊢
    -- the side with fewer elements moves; `head++` or `tail++` stays within 8 bits
    by_cases hside : i > L.length / 2
    · rw [if_pos hside]
      exact rep_of_compress_check (removeTail_layout h.toLayout hi (by unfold arrayMaxUnused at hroom; omega)).1
    · rw [if_neg hside]
      exact rep_of_compress_check (removeHead_layout h.toLayout hi (by unfold arrayMaxUnused at hroom; omega)).1

/-- A failed `array_remove` leaves the array as it is. -/
theorem arrayRemove_of_listGet_none (h : Layout a L) {idx : ℤ} (hg : listGet L idx = none) :
    arrayRemove a idx = (none, a) := by
  unfold arrayRemove
  rw [arrayGet_eq h, hg, Option.map_none]

theorem rep_arrayCompress (h : Rep a L) : Rep (arrayCompress a) L :=
  have hc := arrayCompress_layout h.toLayout
  ⟨hc.1, .inl (by simp [hc.2.1, hc.2.2, arrayMaxUnused])⟩

/-! ## Runs of operations -/

open VpnClient.Lib.Run

/-- The calls that change an array. -/
inductive ArrayOp (α : Type*)
  | insert (idx : ℤ) (x : α)
  | remove (idx : ℤ)
  | compress

/-- One call on the array. -/
def arrayStep (a : ArrayT α) : ArrayOp α → ArrayT α
  | .insert idx x => arrayInsert a idx x
  | .remove idx => (arrayRemove a idx).2
  | .compress => arrayCompress a

/-- The same call on the list. -/
def listStep (L : List α) : ArrayOp α → List α
  | .insert idx x => listInsert L idx x
  | .remove idx => listRemove L idx
  | .compress => L

theorem Rep.step (h : Rep a L) : ∀ op : ArrayOp α, Rep (arrayStep a op) (listStep L op)
  | .insert idx x => rep_arrayInsert h idx x
  | .remove idx => (rep_arrayRemove h idx).2
  | .compress => rep_arrayCompress h

theorem Rep.run (h : Rep a L) (ops : List (ArrayOp α)) :
    Rep (run arrayStep a ops) (run listStep L ops) :=
  run_simulation (fun _ _ op hr => hr.step op) ops h

/-- Two insertions at the front move the head side; appending then takes tail room. -/
example : (run arrayStep (arrayCreate 0 : ArrayT ℕ) [.insert 0 1, .insert 0 2, .insert (-1) 3]).data =
    [some 2, some 1, some 3] := by decide

/-! ## Enumeration with `array_remove_at` -/

/-- A call in a loop over an array enumerator. -/
inductive EnumOp
  | next
  | removeAt

/-- The array, the enumerator's `idx`, and the elements `enumerate` has returned. -/
structure EnumState (α : Type*) where
  arr : ArrayT α
  idx : ℕ
  visited : List (Option α)

/-- `enumerate`, or `array_remove_at` of the element it last returned. -/
def enumStep (s : EnumState α) : EnumOp → EnumState α
  | .next =>
    match enumerate s.arr s.idx with
    | some (v, idx) => { s with idx := idx, visited := s.visited ++ [v] }
    | none => s
  | .removeAt =>
    let r := arrayRemoveAt s.arr s.idx
    { s with arr := r.1, idx := r.2 }

theorem enumStep_next_of_lt {s : EnumState α} (h : s.idx < s.arr.count) :
    enumStep s .next =
      { s with idx := s.idx + 1, visited := s.visited ++ [s.arr.data.getD (s.idx + s.arr.head.toNat) none] } := by
  simp [enumStep, enumerate, Nat.not_le.mpr h]

theorem enumStep_next_of_le {s : EnumState α} (h : s.arr.count ≤ s.idx) : enumStep s .next = s := by
  simp [enumStep, enumerate, h]

/-- The enumerator has returned the first elements of `L₀` in order; the array holds
those of them not removed (`kept`) and then the elements not reached yet, and the
enumerator stands right after `kept`. -/
structure EnumInv (L₀ : List α) (s : EnumState α) : Prop where
  visited_eq : s.visited = (L₀.take s.visited.length).map some
  kept : ∃ kept : List α, kept.Sublist (L₀.take s.visited.length) ∧ s.idx = kept.length ∧
    Rep s.arr (kept ++ L₀.drop s.visited.length)

theorem EnumInv.length_le {L₀ : List α} {s : EnumState α} (h : EnumInv L₀ s) : s.visited.length ≤ L₀.length := by
  have := congrArg List.length h.visited_eq
  simp only [List.length_map, List.length_take] at this
  omega

theorem EnumInv.init {L₀ : List α} (h : Rep a L₀) : EnumInv L₀ ⟨a, 0, []⟩ :=
  ⟨rfl, ⟨[], List.nil_sublist _, rfl, by simpa using h⟩⟩

/-- `enumerate` returns the next element of `L₀`, or ends once all were returned. -/
theorem EnumInv.next {L₀ : List α} {s : EnumState α} (h : EnumInv L₀ s) :
    EnumInv L₀ (enumStep s .next) := by
  obtain ⟨kept, hsub, hidx, hrep⟩ := h.kept
  have hn := h.length_le
  have hc := hrep.count_eq
  simp only [List.length_append, List.length_drop] at hc
  by_cases hend : s.arr.count ≤ s.idx
  · rw [enumStep_next_of_le hend]
    exact h
  · -- the element after `kept` is element `n` of `L₀`
    rw [enumStep_next_of_lt (by omega)]
    have hlt : s.visited.length < L₀.length := by omega
    have hget := hrep.getD_eq (k := kept.length) (by simp only [List.length_drop, List.length_append]; omega)
    rw [List.getElem_append_right (Nat.le_refl _), List.getElem_drop] at hget
    simp only [Nat.sub_self, Nat.add_zero] at hget
    have htake : L₀.take s.visited.length ++ [L₀[s.visited.length]] = L₀.take (s.visited.length + 1) := by
      rw [List.take_add_one, List.getElem?_eq_getElem hlt]
      rfl
    have hv : s.visited ++ [s.arr.data.getD (s.idx + s.arr.head.toNat) none] =
        (L₀.take (s.visited.length + 1)).map some := by
      rw [← htake, List.map_append, ← h.visited_eq, hidx, Nat.add_comm, hget]
      rfl
    have hlen : (s.visited ++ [s.arr.data.getD (s.idx + s.arr.head.toNat) none]).length =
        s.visited.length + 1 := by simp
    refine ⟨?_, ⟨kept ++ [L₀[s.visited.length]], ?_, ?_, ?_⟩⟩
    · dsimp only
      rw [hlen, hv]
    · dsimp only
      rw [hlen, ← htake]
      exact hsub.append (List.Sublist.refl _)
    · simp [hidx]
    · dsimp only
      rw [hlen, List.append_assoc, List.singleton_append, ← List.drop_eq_getElem_cons hlt]
      exact hrep

/-- `array_remove_at` removes the element last returned, the last one kept. -/
theorem EnumInv.removeAt {L₀ : List α} {s : EnumState α} (h : EnumInv L₀ s) :
    EnumInv L₀ (enumStep s .removeAt) := by
  obtain ⟨kept, hsub, hidx, hrep⟩ := h.kept
  unfold enumStep arrayRemoveAt
  split_ifs with hpos
  · dsimp only
    have hk : kept.length - 1 < kept.length := by omega
    have hrem := (rep_arrayRemove hrep ((s.idx - 1 : ℕ) : ℤ)).2
    have hlist : listRemove (kept ++ L₀.drop s.visited.length) ((s.idx - 1 : ℕ) : ℤ) =
        kept.dropLast ++ L₀.drop s.visited.length := by
      rw [listRemove, if_neg (by omega), Int.toNat_natCast, hidx, List.eraseIdx_append_of_lt_length hk,
        List.eraseIdx_length_sub_one]
    rw [hlist] at hrem
    exact ⟨h.visited_eq, ⟨kept.dropLast, (List.dropLast_sublist kept).trans hsub, by simp [hidx], hrem⟩⟩
  · exact h

theorem EnumInv.step {L₀ : List α} {s : EnumState α} (h : EnumInv L₀ s) :
    ∀ op, EnumInv L₀ (enumStep s op)
  | .next => h.next
  | .removeAt => h.removeAt

/-- Once `enumerate` ends, it has returned every element of `L₀`, in order. -/
theorem EnumInv.visited_of_done {L₀ : List α} {s : EnumState α} (h : EnumInv L₀ s)
    (hdone : enumerate s.arr s.idx = none) : s.visited = L₀.map some := by
  obtain ⟨kept, -, hidx, hrep⟩ := h.kept
  have hc := hrep.count_eq
  have hn := h.length_le
  simp only [List.length_append, List.length_drop] at hc
  unfold enumerate at hdone
  split_ifs at hdone with hend
  rw [h.visited_eq, List.take_of_length_le (by omega)]

theorem EnumInv.run {L₀ : List α} (h : Rep a L₀) (ops : List EnumOp) :
    EnumInv L₀ (run enumStep ⟨a, 0, []⟩ ops) :=
  run_preserves (fun _ op hs => hs.step op) ops (EnumInv.init h)

/-! ## The array refines the list -/

/-- **`array_t` refines a list.** After any run of `array_insert`, `array_remove` and
`array_compress` from `array_create`, the array stores the list the same calls make,
with the layout and the 8-bit room bound of `Rep`; its count is the list's length;
`array_insert` inserts at the index, `array_get` and `array_remove` return the element
at the index (and a failed `array_remove` changes nothing); and an enumeration in
which `array_remove_at` removes elements returns every element once, in order. -/
theorem array_refines_list (reserve : UInt8) (ops : List (ArrayOp α)) :
    let a := run arrayStep (arrayCreate reserve) ops
    let L := run listStep [] ops
    Rep a L ∧ arrayCount a = L.length ∧
      (∀ (idx : ℤ) (x : α),
        Rep (arrayInsert a idx x) (listInsert L idx x) ∧
        arrayGet a idx = (listGet L idx).map some ∧
        (arrayRemove a idx).1 = (listGet L idx).map some ∧
        Rep (arrayRemove a idx).2 (listRemove L idx) ∧
        (listGet L idx = none → (arrayRemove a idx).2 = a)) ∧
      ∀ eops : List EnumOp,
        EnumInv L (run enumStep ⟨a, 0, []⟩ eops) ∧
        (enumerate (run enumStep ⟨a, 0, []⟩ eops).arr (run enumStep ⟨a, 0, []⟩ eops).idx = none →
          (run enumStep ⟨a, 0, []⟩ eops).visited = L.map some) := by
  intro a L
  have h : Rep a L := (rep_arrayCreate reserve).run ops
  refine ⟨h, arrayCount_eq h.toLayout, fun idx x => ?_, fun eops => ?_⟩
  · obtain ⟨hv, hrem⟩ := rep_arrayRemove h idx
    exact ⟨rep_arrayInsert h idx x, arrayGet_eq h.toLayout idx, hv, hrem,
      fun hg => by rw [arrayRemove_of_listGet_none h.toLayout hg]⟩
  · have he := EnumInv.run h eops
    exact ⟨he, he.visited_of_done⟩

end VpnClient.Collections
