import Mathlib
import VpnClient.Lib.Bits
import VpnClient.Lib.Probe
import VpnClient.Lib.OrderedMap
import VpnClient.Lib.Run

/-!
# `hashtable_t`: open addressing over an insertion-ordered item array

`collections/hashtable.c` keeps its entries in `items`, an array in the order they were
put, and finds them through `table`: bucket `row` holds `0` while unused and `index + 1`
once it refers to `items[index]`. A lookup (`find_key`) probes the buckets from
`hash & mask` with quadratic steps (`get_next`) until it meets the key or an unused
bucket. `remove` only clears the key of the item, which keeps its slot and its bucket
until the next `rehash`; `put` reuses the bucket of the first removed item on the key's
probe sequence, and grows the table by a `rehash` to `count * RESIZE_FACTOR` buckets,
rounded up to a power of two, once `items` is full.

The model keeps `items` as the list of its used slots, so `items_count` is its length,
and `table` as a list of numbers: the 8-, 16- or 32-bit width `get_index` picks from
`capacity` always holds the indices up to `capacity` that are stored. `equals` is the
key type's `==` and `hash` a function into `u_int` that the caller gives.

`Inv hash t` is the representation invariant: the size is a power of two between
`MIN_SIZE` and `MAX_SIZE`, `items` is at most `CAPACITY(size)` long, the buckets in use
refer to distinct items, and every live item sits in a bucket on its key's probe
sequence with every bucket before it in use. `view t` is what the table stores, its
live items in order. Every operation keeps `Inv` and acts on `view` as the operation of
the same name of `Lib.OrderedMap` (`hashtable_refines_map`); the probe loops end within
`size` probes because the table always has an unused bucket and the probe sequence
visits them all (`Lib.Probe`).

An enumeration that calls `remove_at` once for each entry it returns visits every entry
once, in order (`hashtable_enumerate_remove_at`). `remove_at` does not check that the
item it is pointed at is still live, so a second call at the same place takes one more
off `count`, and `get_count` no longer counts the entries (`removeAt_of_removed`).
-/

namespace VpnClient.Collections.Hashtable

open VpnClient.Lib

/-! ## The data of `hashtable.c` -/

/-- `MIN_SIZE`. -/
def minSize : ℕ := 8

/-- `MAX_SIZE`: `1 << 30`. -/
def maxSize : ℕ := 2 ^ 30

/-- `CAPACITY(size)`: the most items a table of `size` buckets takes. -/
def capacityOf (size : ℕ) : ℕ := size / 3 * 2

/-- `RESIZE_FACTOR`. -/
def resizeFactor : ℕ := 3

/-- `pair_t`: the key (`NULL`, here `none`, once the item is removed), the value, and the
hash of the key. -/
structure PairT (K V : Type*) where
  key : Option K
  value : V
  hash : UInt32

/-- `private_hashtable_t`; `items_count` is the length of `items`. -/
structure HashtableT (K V : Type*) where
  count : ℕ
  size : ℕ
  mask : ℕ
  items : List (PairT K V)
  capacity : ℕ
  table : List ℕ

variable {K V : Type*}

/-! ## The operations of `hashtable.c` -/

/-- `hashtable_get_nearest_powerof2`: the bits below the top bit of `n - 1` are set by
or-ing in its shifts by 1, 2, 4, 8 and 16, and one more rolls over to a power of two. -/
def hashtableGetNearestPowerof2 (n : UInt32) : UInt32 :=
  ([1, 2, 4, 8, 16] : List UInt32).foldl (fun n i => n ||| n >>> i) (n - 1) + 1

/-- `get_index`. -/
def getIndex (t : HashtableT K V) (row : ℕ) : ℕ := t.table.getD row 0

/-- `get_next` after `p` probes: probe `p + 1` lies `p + 1` buckets further on. -/
def getNext (t : HashtableT K V) (row p : ℕ) : ℕ := (row + (p + 1)) &&& t.mask

/-- `init_hashtable`: a fresh table and item array; `count` is left as it is. -/
def initHashtable (t : HashtableT K V) (size : ℕ) : HashtableT K V :=
  let size := (hashtableGetNearestPowerof2 (UInt32.ofNat (max minSize (min size maxSize)))).toNat
  { t with size := size, mask := size - 1, capacity := capacityOf size, items := [],
           table := List.replicate size 0 }

/-- `hashtable_create`. -/
def hashtableCreate (size : ℕ) : HashtableT K V := initHashtable ⟨0, 0, 0, [], 0, []⟩ size

/-- The probe loop of `find_key` at bucket `row` after `p` probes, `removed` the first
bucket seen that refers to a removed item: the index of the key's item, or the bucket a
new item for the key goes to. -/
def findKeyLoop [BEq K] (t : HashtableT K V) (key : K) (hash : UInt32) :
    ℕ → ℕ → ℕ → Option ℕ → Option ℕ × ℕ
  | 0, row, _, removed => (none, removed.getD row)
  | fuel + 1, row, p, removed =>
    let index := getIndex t row
    if index = 0 then (none, removed.getD row)
    else
      match t.items[index - 1]? with
      | some ⟨some k, _, h⟩ =>
        if h == hash && key == k then (some (index - 1), row)
        else findKeyLoop t key hash fuel (getNext t row p) (p + 1) removed
      -- a removed item, or a slot past `items_count`, which `calloc` left with a `NULL` key
      | _ => findKeyLoop t key hash fuel (getNext t row p) (p + 1) (removed <|> some row)

/-- `find_key`: the index of the key's item, the key's hash and the bucket for a new item.
`out` says whether the caller asks for the hash and the bucket, as `put` does; without
them an empty table is not searched. The loop runs at most `size` probes, which is
always enough (`findKey_of_mem`, `findKey_of_not_mem`). -/
def findKey [BEq K] (hash : K → UInt32) (t : HashtableT K V) (key : K) (out : Bool) :
    Option ℕ × UInt32 × ℕ :=
  if t.count = 0 ∧ out = false then (none, 0, 0)
  else
    let h := hash key
    let r := findKeyLoop t key h t.size (h.toNat &&& t.mask) 0 none
    (r.1, h, r.2)

/-- `insert_item` with the store of the new pair into `items[index]`: bucket `row` refers
to the next free slot, and `items_count` grows by one. -/
def insertItem (t : HashtableT K V) (row : ℕ) (pair : PairT K V) : HashtableT K V :=
  { t with table := t.table.set row (t.items.length + 1), items := t.items ++ [pair] }

/-- The probe loop of `rehash`: the first unused bucket from `row` after `p` probes. -/
def emptyRow (t : HashtableT K V) : ℕ → ℕ → ℕ → ℕ
  | 0, row, _ => row
  | fuel + 1, row, p => if getIndex t row = 0 then row else emptyRow t fuel (getNext t row p) (p + 1)

/-- One old item moved into the new table by `rehash`; removed items are dropped. -/
def rehashItem (t : HashtableT K V) (pair : PairT K V) : HashtableT K V :=
  match pair.key with
  | none => t
  | some _ => insertItem t (emptyRow t t.size (pair.hash.toNat &&& t.mask) 0) pair

/-- `rehash`: fails, changing nothing, past `MAX_SIZE`. -/
def rehash (t : HashtableT K V) (size : ℕ) : Option (HashtableT K V) :=
  if size > maxSize then none
  else
    let t' := initHashtable t size
    if t.count ≠ 0 then some (t.items.foldl rehashItem t') else some t'

/-- `put`: the old value of the key, if it had one. A full table is rehashed first; when
that fails nothing changes. -/
def put [BEq K] (hash : K → UInt32) (t : HashtableT K V) (key : K) (value : V) :
    Option V × HashtableT K V :=
  match (if t.items.length ≥ t.capacity then rehash t (t.count * resizeFactor) else some t) with
  | none => (none, t)
  | some t =>
    match findKey hash t key true with
    | (some i, _, _) =>
      match t.items[i]? with
      | some pair =>
        (some pair.value, { t with items := t.items.set i { pair with value := value, key := some key } })
      | none => (none, t)
    | (none, h, row) => (none, { insertItem t row ⟨some key, value, h⟩ with count := t.count + 1 })

/-- `get`. -/
def get [BEq K] (hash : K → UInt32) (t : HashtableT K V) (key : K) : Option V :=
  (findKey hash t key false).1.bind fun i => (t.items[i]?).map PairT.value

/-- `remove_internal`: the item keeps its slot and its bucket, with its key cleared. -/
def removeInternal (t : HashtableT K V) (i : ℕ) : Option V × HashtableT K V :=
  match t.items[i]? with
  | some pair => (some pair.value, { t with items := t.items.set i { pair with key := none }, count := t.count - 1 })
  | none => (none, t)

/-- `remove_`. -/
def remove [BEq K] (hash : K → UInt32) (t : HashtableT K V) (key : K) : Option V × HashtableT K V :=
  match (findKey hash t key false).1 with
  | some i => removeInternal t i
  | none => (none, t)

/-- `remove_at`: the enumerator's `index` is one past the item it returned last. -/
def removeAt (t : HashtableT K V) (index : ℕ) : HashtableT K V :=
  if index ≠ 0 then (removeInternal t (index - 1)).2 else t

/-- `get_count`. -/
def getCount (t : HashtableT K V) : ℕ := t.count

/-- The loop of `enumerate` over the items from `index` on: the next live item's key and
value, and the index past it. -/
def enumerateFrom : List (PairT K V) → ℕ → Option (K × V × ℕ)
  | [], _ => none
  | pair :: items, index =>
    match pair.key with
    | some k => some (k, pair.value, index + 1)
    | none => enumerateFrom items (index + 1)

/-- `enumerate` from the enumerator's `index`. -/
def enumerate (t : HashtableT K V) (index : ℕ) : Option (K × V × ℕ) :=
  enumerateFrom (t.items.drop index) index

/-- A table of eight buckets: two keys with the same home bucket, the second one probed
one bucket further on, and a `put` of the first key replacing its value in place. -/
example :
    let t : HashtableT ℕ String := hashtableCreate 0
    let t := (put (fun k => UInt32.ofNat k) t 3 "a").2
    let t := (put (fun k => UInt32.ofNat k) t 11 "b").2
    let t := (put (fun k => UInt32.ofNat k) t 3 "c").2
    t.table = [0, 0, 0, 1, 2, 0, 0, 0] ∧ get (fun k => UInt32.ofNat k) t 11 = some "b" ∧
      t.items.map PairT.value = ["c", "b"] := by
  decide

/-! ## `hashtable_get_nearest_powerof2` -/

theorem toNat_foldl_smear (n : UInt32) :
    (([1, 2, 4, 8, 16] : List UInt32).foldl (fun n i => n ||| n >>> i) n).toNat =
      Bits.smear n.toNat ((List.range 5).map (2 ^ ·)) := by
  rw [show (List.range 5).map (2 ^ ·) = [1, 2, 4, 8, 16] from rfl]
  simp [Bits.smear, UInt32.toNat_or, UInt32.toNat_shiftRight]

/-- `hashtable_get_nearest_powerof2` is the least power of two at or above `n`, for every
`n` from 1 to `2 ^ 31`. -/
theorem toNat_hashtableGetNearestPowerof2 {n : UInt32} (h1 : 1 ≤ n.toNat) (h2 : n.toNat ≤ 2 ^ 31) :
    (hashtableGetNearestPowerof2 n).toNat = 2 ^ Nat.clog 2 n.toNat := by
  have hsub : (n - 1).toNat = n.toNat - 1 :=
    UInt32.toNat_sub_of_le _ _ (UInt32.le_iff_toNat_le.mpr (by simpa using h1))
  unfold hashtableGetNearestPowerof2
  rw [UInt32.toNat_add, toNat_foldl_smear, hsub]
  by_cases hn : n.toNat = 1
  · -- `n - 1 = 0` has no bit to smear
    rw [hn, Nat.clog_one_right]
    rfl
  · have hne : n.toNat - 1 ≠ 0 := by omega
    have hlt : n.toNat - 1 < 2 ^ 2 ^ 5 := by
      have := n.toNat_lt
      norm_num
      omega
    rw [Bits.smear_eq hne hlt]
    have hL : (n.toNat - 1).log2 < 31 := (Nat.log2_lt hne).mpr (by omega)
    have habove : n.toNat - 1 < 2 ^ ((n.toNat - 1).log2 + 1) := Nat.lt_log2_self
    have hbelow : 2 ^ (n.toNat - 1).log2 ≤ n.toNat - 1 := Nat.log2_self_le hne
    have hclog : Nat.clog 2 n.toNat = (n.toNat - 1).log2 + 1 := by
      apply le_antisymm
      · exact Nat.clog_le_of_le_pow (by omega)
      · exact (Nat.lt_clog_iff_pow_lt (by norm_num)).mpr (by omega)
    have hfit : 2 ^ ((n.toNat - 1).log2 + 1) < 2 ^ 32 := Nat.pow_lt_pow_right (by norm_num) (by omega)
    rw [hclog, UInt32.toNat_one, Nat.sub_add_cancel Nat.one_le_two_pow, Nat.mod_eq_of_lt hfit]

/-- **`hashtable_get_nearest_powerof2` rounds up to a power of two**: for every `n` from 1
to `2 ^ 31` it returns the least power of two at or above `n`; for 0, and for every `n`
above `2 ^ 31`, whose power of two does not fit in 32 bits, it returns 0. -/
theorem hashtableGetNearestPowerof2_spec (n : UInt32) :
    (hashtableGetNearestPowerof2 n).toNat =
      if n.toNat = 0 ∨ 2 ^ 31 < n.toNat then 0 else 2 ^ Nat.clog 2 n.toNat := by
  split_ifs with hedge
  · rcases hedge with h0 | hbig
    · -- `n - 1` wraps to all ones
      obtain rfl : n = 0 := UInt32.toNat_inj.mp h0
      rfl
    · -- the top bit of `n - 1` is bit 31, and the sum rolls over
      have hlt : n.toNat < 2 ^ 32 := n.toNat_lt
      have hsub : (n - 1).toNat = n.toNat - 1 :=
        UInt32.toNat_sub_of_le _ _ (UInt32.le_iff_toNat_le.mpr (by simp only [UInt32.toNat_one]; omega))
      have hne : n.toNat - 1 ≠ 0 := by omega
      have hlog : (n.toNat - 1).log2 = 31 := (Nat.log2_eq_iff hne).mpr ⟨by omega, by omega⟩
      unfold hashtableGetNearestPowerof2
      rw [UInt32.toNat_add, toNat_foldl_smear, hsub, Bits.smear_eq hne (by norm_num; omega), hlog]
      rfl
  · push Not at hedge
    exact toNat_hashtableGetNearestPowerof2 (by omega) hedge.2

/-! ## The representation invariant -/

open Probe

/-- The entry a pair stands for while its key is set. -/
def PairT.entry (pair : PairT K V) : Option (K × V) := pair.key.map fun k => (k, pair.value)

/-- What the table stores: its live items, in the order they were put. -/
def view (t : HashtableT K V) : List (K × V) := t.items.filterMap PairT.entry

/-- Every bucket the probes from the home `h` pass before probe `q` is in use. -/
def OnChain (t : HashtableT K V) (h q : ℕ) : Prop := ∀ q' < q, getIndex t (probe t.size h q') ≠ 0

/-- Bucket `row` is unused, or it refers to an item that is removed. -/
def FreeRow (t : HashtableT K V) (row : ℕ) : Prop :=
  getIndex t row = 0 ∨ ∀ pair ∈ t.items[getIndex t row - 1]?, pair.key = none

/-- The layout of a table: all of `Inv` but `count`, which `rehash` sets only at its end. -/
structure Layout (hash : K → UInt32) (t : HashtableT K V) : Prop where
  size_pow : ∃ k, t.size = 2 ^ k
  min_le_size : minSize ≤ t.size
  size_le_max : t.size ≤ maxSize
  mask_eq : t.mask = t.size - 1
  capacity_eq : t.capacity = capacityOf t.size
  length_table : t.table.length = t.size
  length_items_le : t.items.length ≤ t.capacity
  index_le : ∀ row, getIndex t row ≤ t.items.length
  index_inj : ∀ r r', r < t.size → r' < t.size → getIndex t r = getIndex t r' → getIndex t r ≠ 0 → r = r'
  hash_eq : ∀ (i : ℕ) (pair : PairT K V) k, t.items[i]? = some pair → pair.key = some k → pair.hash = hash k
  placed : ∀ (i : ℕ) (pair : PairT K V) k, t.items[i]? = some pair → pair.key = some k →
    ∃ q < t.size, getIndex t (probe t.size (hash k).toNat q) = i + 1 ∧ OnChain t (hash k).toNat q
  nodup : (OrderedMap.keys (view t)).Nodup

/-- The representation invariant of `hashtable_t`: the layout, and `count` counts the live
items. -/
structure Inv (hash : K → UInt32) (t : HashtableT K V) : Prop extends Layout hash t where
  count_eq : t.count = (view t).length

section Layout

variable {hash : K → UInt32} {t : HashtableT K V}

theorem Layout.size_pos (hl : Layout hash t) : 0 < t.size := by
  have := hl.min_le_size
  unfold minSize at this
  omega

theorem Layout.capacity_lt_size (hl : Layout hash t) : t.capacity < t.size := by
  have := hl.size_pos
  rw [hl.capacity_eq, capacityOf]
  omega

/-- `hash & mask` is the home bucket, probe `0`. -/
theorem Layout.home (hl : Layout hash t) (h : ℕ) : h &&& t.mask = probe t.size h 0 := by
  obtain ⟨k, hk⟩ := hl.size_pow
  rw [hl.mask_eq, hk, Nat.and_two_pow_sub_one_eq_mod, probe_zero]

/-- `get_next` steps from probe `p` to probe `p + 1`. -/
theorem Layout.getNext_probe (hl : Layout hash t) (h p : ℕ) :
    getNext t (probe t.size h p) p = probe t.size h (p + 1) := by
  obtain ⟨k, hk⟩ := hl.size_pow
  rw [getNext, hl.mask_eq, hk, Nat.and_two_pow_sub_one_eq_mod, ← probe_succ]

/-- **A table always has an unused bucket**: the buckets in use refer to distinct items,
and there are fewer items than buckets. -/
theorem Layout.exists_empty (hl : Layout hash t) : ∃ r < t.size, getIndex t r = 0 := by
  by_contra hall
  push Not at hall
  have hcard : (Finset.range t.size).card ≤ (Finset.Icc 1 t.items.length).card := by
    apply Finset.card_le_card_of_injOn (getIndex t)
    · intro r hr
      have hr' := Finset.mem_range.mp hr
      exact Finset.mem_Icc.mpr ⟨Nat.pos_of_ne_zero (hall r hr'), hl.index_le r⟩
    · intro r hr r' hr' heq
      exact hl.index_inj r r' (Finset.mem_range.mp hr) (Finset.mem_range.mp hr') heq (hall r (Finset.mem_range.mp hr))
  rw [Finset.card_range, Nat.card_Icc] at hcard
  have := hl.length_items_le
  have := hl.capacity_lt_size
  omega

/-- The probes from any home meet an unused bucket within `size` probes. -/
theorem Layout.exists_first_empty (hl : Layout hash t) (h : ℕ) :
    ∃ q < t.size, getIndex t (probe t.size h q) = 0 ∧ OnChain t h q := by
  obtain ⟨k, hk⟩ := hl.size_pow
  have hex := hl.exists_empty
  rw [hk] at hex ⊢
  obtain ⟨q, hq, hempty, hbefore⟩ := exists_first_probe h hex
  exact ⟨q, hq, hempty, fun q' hq' => by rw [hk]; exact hbefore q' hq'⟩

/-- `count` is not part of the layout. -/
theorem Layout.setCount (hl : Layout hash t) (c : ℕ) : Layout hash { t with count := c } :=
  ⟨hl.size_pow, hl.min_le_size, hl.size_le_max, hl.mask_eq, hl.capacity_eq, hl.length_table, hl.length_items_le,
    hl.index_le, hl.index_inj, hl.hash_eq, hl.placed, hl.nodup⟩

end Layout

/-! ## The items and what they store -/

/-- Two elements a `filterMap` without repeats sends to the same value are one element. -/
theorem eq_of_filterMap_nodup {α β : Type*} {f : α → Option β} :
    ∀ {l : List α}, (l.filterMap f).Nodup → ∀ {i j : ℕ} {a b : α} {x : β},
      l[i]? = some a → f a = some x → l[j]? = some b → f b = some x → i = j
  | [], _, _, _, _, _, _, hi, _, _, _ => by simp at hi
  | c :: l, hnd, i, j, a, b, x, hi, ha, hj, hb => by
    -- an `x` at the head would come back in the tail
    have htail : ∀ {k : ℕ} {d : α}, c = a → l[k]? = some d → f d = some x → False := by
      intro k d hca hk hd
      rw [← hca] at ha
      rw [List.filterMap_cons_some ha, List.nodup_cons] at hnd
      exact hnd.1 (List.mem_filterMap.mpr ⟨d, List.mem_of_getElem? hk, hd⟩)
    have hnd' : (l.filterMap f).Nodup := by
      cases hc : f c with
      | none => rwa [List.filterMap_cons_none hc] at hnd
      | some y => rw [List.filterMap_cons_some hc, List.nodup_cons] at hnd; exact hnd.2
    cases i with
    | zero =>
      cases j with
      | zero => rfl
      | succ j => exact (htail (by simpa using hi) (by simpa using hj) hb).elim
    | succ i =>
      cases j with
      | zero =>
        -- the symmetric case: `b` is the head
        have hcb : c = b := by simpa using hj
        rw [← hcb] at hb
        rw [List.filterMap_cons_some hb, List.nodup_cons] at hnd
        exact (hnd.1 (List.mem_filterMap.mpr ⟨a, List.mem_of_getElem? (by simpa using hi), ha⟩)).elim
      | succ j =>
        have hi' : l[i]? = some a := by simpa using hi
        have hj' : l[j]? = some b := by simpa using hj
        rw [eq_of_filterMap_nodup hnd' hi' ha hj' hb]

@[simp] theorem PairT.entry_of_key {pair : PairT K V} {k : K} (h : pair.key = some k) :
    pair.entry = some (k, pair.value) := by
  simp [PairT.entry, h]

theorem keys_view (t : HashtableT K V) : OrderedMap.keys (view t) = t.items.filterMap PairT.key := by
  simp only [OrderedMap.keys, view, List.map_filterMap, PairT.entry, Option.map_map]
  congr 1
  funext pair
  cases pair.key <;> rfl

/-- A key is stored when a live item holds it. -/
theorem mem_keys_view {t : HashtableT K V} {k : K} :
    k ∈ OrderedMap.keys (view t) ↔ ∃ (i : ℕ) (pair : PairT K V), t.items[i]? = some pair ∧ pair.key = some k := by
  rw [keys_view, List.mem_filterMap]
  constructor
  · rintro ⟨pair, hmem, hk⟩
    obtain ⟨i, hi⟩ := List.mem_iff_getElem?.mp hmem
    exact ⟨i, pair, hi, hk⟩
  · rintro ⟨i, pair, hi, hk⟩
    exact ⟨pair, List.mem_of_getElem? hi, hk⟩

/-- The items split at item `i`. -/
theorem filterMap_entry_split {items : List (PairT K V)} {i : ℕ} {pair : PairT K V}
    (h : items[i]? = some pair) :
    items.filterMap PairT.entry = (items.take i).filterMap PairT.entry ++ pair.entry.toList ++
      (items.drop (i + 1)).filterMap PairT.entry := by
  have hi : i < items.length := (List.getElem?_eq_some_iff.mp h).1
  have hget : items[i] = pair := (List.getElem?_eq_some_iff.mp h).2
  conv_lhs => rw [← List.take_append_drop i items, List.drop_eq_getElem_cons hi, hget]
  rw [List.filterMap_append, List.filterMap_cons, List.append_assoc]
  cases pair.entry <;> rfl

/-- Item `i` replaced, the others as they were. -/
theorem filterMap_entry_set {items : List (PairT K V)} {i : ℕ} {pair : PairT K V}
    (h : items[i]? = some pair) (pair' : PairT K V) :
    (items.set i pair').filterMap PairT.entry = (items.take i).filterMap PairT.entry ++ pair'.entry.toList ++
      (items.drop (i + 1)).filterMap PairT.entry := by
  have hi : i < items.length := (List.getElem?_eq_some_iff.mp h).1
  rw [List.set_eq_take_append_cons_drop, if_pos hi, List.filterMap_append, List.filterMap_cons,
    List.append_assoc]
  cases pair'.entry <;> rfl

/-- In a map with distinct keys, the entry of item `i` has a key found nowhere else. -/
theorem not_mem_keys_of_split {A B : List (K × V)} {e : K × V} (h : (OrderedMap.keys (A ++ [e] ++ B)).Nodup) :
    e.1 ∉ OrderedMap.keys A ∧ e.1 ∉ OrderedMap.keys B := by
  simp only [OrderedMap.keys_append, OrderedMap.keys_cons, OrderedMap.keys_nil, List.nodup_append,
    List.nodup_cons] at h
  refine ⟨fun hA => h.1.2.2 e.1 hA e.1 (by simp) rfl, fun hB => h.2.2 e.1 (by simp) e.1 hB rfl⟩

/-- Live items with the same key are the same item. -/
theorem Layout.eq_of_key {hash : K → UInt32} {t : HashtableT K V} (hl : Layout hash t) {i j : ℕ} {a b : PairT K V} {k : K}
    (hi : t.items[i]? = some a) (ha : a.key = some k) (hj : t.items[j]? = some b) (hb : b.key = some k) :
    i = j := by
  have hnd := hl.nodup
  rw [keys_view] at hnd
  exact eq_of_filterMap_nodup hnd hi ha hj hb

/-! ## The probe loops -/

/-- Bucket `row` takes a new item with the home `h`: it is probe `q` of `h`, every bucket
the probes pass before it is in use, and it is unused or refers to a removed item. -/
def Slot (t : HashtableT K V) (h row : ℕ) : Prop :=
  ∃ q < t.size, row = probe t.size h q ∧ OnChain t h q ∧ FreeRow t row

section Probing

variable {hash : K → UInt32} {t : HashtableT K V}

theorem OnChain.succ {h p : ℕ} (hon : OnChain t h p) (hne : getIndex t (probe t.size h p) ≠ 0) :
    OnChain t h (p + 1) := by
  intro q hq
  rcases Nat.lt_succ_iff_lt_or_eq.mp hq with hlt | rfl
  · exact hon q hlt
  · exact hne

/-- Some bucket `d` probes from `p` is unused, and it is not bucket `p`. -/
theorem exists_empty_succ {h p fuel : ℕ} (hempty : ∃ d < fuel + 1, getIndex t (probe t.size h (p + d)) = 0)
    (hne : getIndex t (probe t.size h p) ≠ 0) : ∃ d < fuel, getIndex t (probe t.size h (p + 1 + d)) = 0 := by
  obtain ⟨d, hd, hat⟩ := hempty
  have hd0 : d ≠ 0 := by rintro rfl; exact hne hat
  exact ⟨d - 1, by omega, by rwa [show p + 1 + (d - 1) = p + d by omega]⟩

/-- **The probe loop of `rehash` ends at an unused bucket** that takes the item, when one
lies within its fuel. -/
theorem Layout.emptyRow_slot (hl : Layout hash t) {h : ℕ} :
    ∀ {fuel p : ℕ}, p + fuel ≤ t.size → (∃ d < fuel, getIndex t (probe t.size h (p + d)) = 0) →
      OnChain t h p → Slot t h (emptyRow t fuel (probe t.size h p) p)
  | 0, _, _, ⟨_, hd, _⟩, _ => absurd hd (Nat.not_lt_zero _)
  | fuel + 1, p, hfuel, hempty, hon => by
    rw [emptyRow]
    split_ifs with h0
    · exact ⟨p, by omega, rfl, hon, .inl h0⟩
    · rw [hl.getNext_probe]
      exact hl.emptyRow_slot (by omega) (exists_empty_succ hempty h0) (hon.succ h0)

variable [BEq K] [LawfulBEq K]

/-- **The probe loop of `find_key` finds a live key**: if the key's item sits `d` probes
on from probe `p` and the buckets in between are in use, the loop returns it. -/
theorem Layout.findKeyLoop_of_placed (hl : Layout hash t) {key : K} {i : ℕ} {pair : PairT K V}
    (hpair : t.items[i]? = some pair) (hkey : pair.key = some key) (d : ℕ) :
    ∀ {fuel p : ℕ} (removed : Option ℕ), d < fuel →
      getIndex t (probe t.size (hash key).toNat (p + d)) = i + 1 →
      (∀ d' < d, getIndex t (probe t.size (hash key).toNat (p + d')) ≠ 0) →
      (findKeyLoop t key (hash key) fuel (probe t.size (hash key).toNat p) p removed).1 = some i := by
  induction d with
  | zero =>
    intro fuel p removed hd hat _
    obtain ⟨fuel, rfl⟩ : ∃ f, fuel = f + 1 := ⟨fuel - 1, by omega⟩
    rw [Nat.add_zero] at hat
    obtain ⟨pk, pv, ph⟩ := pair
    obtain rfl : pk = some key := hkey
    have hph : ph = hash key := hl.hash_eq i _ key hpair rfl
    simp [findKeyLoop, hat, hpair, hph]
  | succ d ih =>
    intro fuel p removed hd hat hon
    obtain ⟨fuel, rfl⟩ : ∃ f, fuel = f + 1 := ⟨fuel - 1, by omega⟩
    have hne : getIndex t (probe t.size (hash key).toNat p) ≠ 0 := by simpa using hon 0 (by omega)
    -- the rest of the way, from probe `p + 1`
    have hnext : ∀ removed', (findKeyLoop t key (hash key) fuel
        (getNext t (probe t.size (hash key).toNat p) p) (p + 1) removed').1 = some i := by
      intro removed'
      rw [hl.getNext_probe]
      refine ih removed' (by omega) (by rwa [show p + 1 + d = p + (d + 1) by omega]) fun d' hd' => ?_
      rw [show p + 1 + d' = p + (d' + 1) by omega]
      exact hon (d' + 1) (by omega)
    simp only [findKeyLoop, if_neg hne]
    split
    · -- a live item: the key's own item, or one the probes pass by
      rename_i k v h heq
      split_ifs with hmatch
      · simp only [Bool.and_eq_true, beq_iff_eq] at hmatch
        obtain ⟨-, rfl⟩ := hmatch
        rw [hl.eq_of_key heq rfl hpair hkey]
      · exact hnext removed
    · exact hnext _

/-- **The probe loop of `find_key` misses a key that no live item holds**, and ends at a
bucket that takes a new item for it: the first one on the way that refers to a removed
item, or else the unused one that ends the probes. -/
theorem Layout.findKeyLoop_of_not_mem (hl : Layout hash t) {key : K}
    (hnot : ∀ (i : ℕ) (pair : PairT K V), t.items[i]? = some pair → pair.key ≠ some key) :
    ∀ {fuel p : ℕ} {removed : Option ℕ}, p + fuel ≤ t.size →
      (∃ d < fuel, getIndex t (probe t.size (hash key).toNat (p + d)) = 0) →
      OnChain t (hash key).toNat p → (∀ r ∈ removed, Slot t (hash key).toNat r) →
      (findKeyLoop t key (hash key) fuel (probe t.size (hash key).toNat p) p removed).1 = none ∧
        Slot t (hash key).toNat (findKeyLoop t key (hash key) fuel (probe t.size (hash key).toNat p) p removed).2
  | 0, _, _, _, ⟨_, hd, _⟩, _, _ => absurd hd (Nat.not_lt_zero _)
  | fuel + 1, p, removed, hfuel, hempty, hon, hrem => by
    -- the bucket a loop that ends here returns
    have hend : Slot t (hash key).toNat (removed.getD (probe t.size (hash key).toNat p)) ∨
        getIndex t (probe t.size (hash key).toNat p) ≠ 0 := by
      by_cases h0 : getIndex t (probe t.size (hash key).toNat p) = 0
      · cases removed with
        | none => exact .inl ⟨p, by omega, rfl, hon, .inl h0⟩
        | some r => exact .inl (hrem r rfl)
      · exact .inr h0
    simp only [findKeyLoop]
    split_ifs with h0
    · exact ⟨rfl, hend.resolve_right (not_not.mpr h0)⟩
    · rw [hl.getNext_probe]
      have hempty' := exists_empty_succ hempty h0
      split
      · -- a live item holds another key
        rename_i k v h heq
        have hk : key ≠ k := fun hk => hnot _ _ heq (by rw [hk])
        rw [if_neg (by simp [hk])]
        exact hl.findKeyLoop_of_not_mem hnot (by omega) hempty' (hon.succ h0) hrem
      · -- a removed item: the first one is where a new item goes
        rename_i hlive
        refine hl.findKeyLoop_of_not_mem hnot (by omega) hempty' (hon.succ h0) ?_
        intro r hr
        cases removed with
        | some r₀ => exact hrem r hr
        | none =>
          obtain rfl : probe t.size (hash key).toNat p = r := by simpa using hr
          refine ⟨p, by omega, rfl, hon, .inr fun pair hmem => ?_⟩
          obtain ⟨pk, pv, ph⟩ := pair
          cases pk with
          | none => rfl
          | some k => exact (hlive k pv ph hmem).elim

/-- **`find_key` finds every live key.** -/
theorem Layout.findKey_of_mem (hl : Layout hash t) {key : K} {i : ℕ} {pair : PairT K V}
    (hpair : t.items[i]? = some pair) (hkey : pair.key = some key) {out : Bool}
    (hsearch : t.count ≠ 0 ∨ out = true) : (findKey hash t key out).1 = some i := by
  obtain ⟨q, hq, hat, hon⟩ := hl.placed i pair key hpair hkey
  have hgo : ¬ (t.count = 0 ∧ out = false) := by
    rintro ⟨hc, ho⟩
    rcases hsearch with h | h
    · exact h hc
    · rw [ho] at h; exact Bool.false_ne_true h
  simp only [findKey, if_neg hgo, hl.home]
  exact hl.findKeyLoop_of_placed hpair hkey q none hq (by rwa [Nat.zero_add])
    fun d' hd' => by rw [Nat.zero_add]; exact hon d' hd'

/-- **`find_key` misses every key that is not stored**, and for `put` it returns the
key's hash and a bucket that takes a new item for it. -/
theorem Layout.findKey_of_not_mem (hl : Layout hash t) {key : K} (hnot : key ∉ OrderedMap.keys (view t))
    (out : Bool) : (findKey hash t key out).1 = none ∧
      (out = true → (findKey hash t key out).2.1 = hash key ∧ Slot t (hash key).toNat (findKey hash t key out).2.2) := by
  have hnot' : ∀ (i : ℕ) (pair : PairT K V), t.items[i]? = some pair → pair.key ≠ some key :=
    fun i pair hi hk => hnot (mem_keys_view.mpr ⟨i, pair, hi, hk⟩)
  obtain ⟨q, hq, hempty, -⟩ := hl.exists_first_empty (hash key).toNat
  have hloop := hl.findKeyLoop_of_not_mem hnot' (p := 0) (by omega) ⟨q, hq, by rwa [Nat.zero_add]⟩
    (fun _ h => absurd h (Nat.not_lt_zero _)) (fun r (h : r ∈ (none : Option ℕ)) => by simp at h)
  unfold findKey
  split_ifs with hskip
  · refine ⟨by simp, fun ho => ?_⟩
    simp [hskip.2] at ho
  · simp only [hl.home]
    exact ⟨hloop.1, fun _ => ⟨trivial, hloop.2⟩⟩

end Probing

/-! ## Fresh tables and new items -/

section Insert

variable {hash : K → UInt32} {t : HashtableT K V}

@[simp] theorem insertItem_size (row : ℕ) (pair : PairT K V) : (insertItem t row pair).size = t.size := rfl
@[simp] theorem insertItem_mask (row : ℕ) (pair : PairT K V) : (insertItem t row pair).mask = t.mask := rfl
@[simp] theorem insertItem_capacity (row : ℕ) (pair : PairT K V) :
    (insertItem t row pair).capacity = t.capacity := rfl
@[simp] theorem insertItem_count (row : ℕ) (pair : PairT K V) : (insertItem t row pair).count = t.count := rfl
@[simp] theorem insertItem_items (row : ℕ) (pair : PairT K V) :
    (insertItem t row pair).items = t.items ++ [pair] := rfl

theorem getIndex_insertItem {row : ℕ} (hrow : row < t.table.length) (pair : PairT K V) (r : ℕ) :
    getIndex (insertItem t row pair) r = if r = row then t.items.length + 1 else getIndex t r := by
  simp only [getIndex, insertItem, List.getD_eq_getElem?_getD, List.getElem?_set]
  by_cases h : r = row
  · simp [h, hrow]
  · simp [h, Ne.symm h]

theorem view_insertItem (row : ℕ) (pair : PairT K V) : view (insertItem t row pair) = view t ++ pair.entry.toList := by
  rw [view, view, insertItem_items, List.filterMap_append, List.filterMap_cons, List.filterMap_nil]
  cases pair.entry <;> rfl

/-- An item of `items ++ [pair]` is an old one or the new one. -/
theorem getElem?_concat_eq_some {α : Type*} {l : List α} {a b : α} {j : ℕ} (h : (l ++ [a])[j]? = some b) :
    l[j]? = some b ∨ (j = l.length ∧ b = a) := by
  rw [List.getElem?_append] at h
  split_ifs at h with hj
  · exact .inl h
  · have hlen : j - l.length = 0 := by
      have := (List.getElem?_eq_some_iff.mp h).1
      simp only [List.length_singleton] at this
      omega
    rw [hlen] at h
    exact .inr ⟨by omega, (Option.some.inj h).symm⟩

theorem OnChain.mono {t' : HashtableT K V} (hsize : t'.size = t.size)
    (hkeep : ∀ r, getIndex t r ≠ 0 → getIndex t' r ≠ 0) {h q : ℕ} (hon : OnChain t h q) : OnChain t' h q := by
  intro q' hq'
  rw [hsize]
  exact hkeep _ (hon q' hq')

/-- **A new item in a bucket that takes it keeps the layout**: the bucket was unused or
referred to a removed item, so no live item loses its bucket and no bucket in use is
freed. -/
theorem Layout.insert (hl : Layout hash t) {row : ℕ} {k : K} (v : V) (hslot : Slot t (hash k).toNat row)
    (hnew : k ∉ OrderedMap.keys (view t)) (hroom : t.items.length < t.capacity) :
    Layout hash (insertItem t row ⟨some k, v, hash k⟩) := by
  obtain ⟨q, hq, hrow, hon, hfree⟩ := hslot
  have hrow_lt : row < t.table.length := by rw [hl.length_table, hrow]; exact probe_lt hl.size_pos _ _
  have hget := getIndex_insertItem hrow_lt ⟨some k, v, hash k⟩
  have hkeep : ∀ r, getIndex t r ≠ 0 → getIndex (insertItem t row ⟨some k, v, hash k⟩) r ≠ 0 := by
    intro r hr
    rw [hget]
    split_ifs <;> omega
  -- no live item sits in bucket `row`
  have hlive_ne : ∀ (j : ℕ) (pair : PairT K V) k', t.items[j]? = some pair → pair.key = some k' →
      ∀ r, getIndex t r = j + 1 → r ≠ row := by
    rintro j pair k' hj hk r hr rfl
    rcases hfree with h0 | hrm
    · omega
    · rw [hr, Nat.add_sub_cancel] at hrm
      rw [hrm pair hj] at hk
      simp at hk
  refine ⟨hl.size_pow, hl.min_le_size, hl.size_le_max, hl.mask_eq, hl.capacity_eq, ?_, ?_, ?_, ?_, ?_, ?_, ?_⟩
  · simp [insertItem, hl.length_table]
  · simp only [insertItem_items, List.length_append, List.length_singleton, insertItem_capacity]
    omega
  · intro r
    rw [hget, insertItem_items, List.length_append, List.length_singleton]
    have := hl.index_le r
    split_ifs <;> omega
  · intro r r' hr hr' heq hne
    simp only [insertItem_size] at hr hr'
    rw [hget, hget] at heq
    rw [hget] at hne
    have hle := hl.index_le r
    have hle' := hl.index_le r'
    by_cases h1 : r = row <;> by_cases h2 : r' = row
    · rw [h1, h2]
    · rw [if_pos h1, if_neg h2] at heq
      omega
    · rw [if_neg h1, if_pos h2] at heq
      omega
    · rw [if_neg h1, if_neg h2] at heq
      rw [if_neg h1] at hne
      exact hl.index_inj r r' hr hr' heq hne
  · intro j pair k' hj hk
    rcases getElem?_concat_eq_some hj with hold | ⟨-, rfl⟩
    · exact hl.hash_eq j pair k' hold hk
    · obtain rfl : k = k' := Option.some.inj hk
      rfl
  · intro j pair k' hj hk
    rcases getElem?_concat_eq_some hj with hold | ⟨rfl, rfl⟩
    · obtain ⟨q', hq', hat, hon'⟩ := hl.placed j pair k' hold hk
      refine ⟨q', hq', ?_, hon'.mono (insertItem_size _ _) hkeep⟩
      rw [insertItem_size, hget, if_neg (hlive_ne j pair k' hold hk _ hat), hat]
    · obtain rfl : k = k' := Option.some.inj hk
      refine ⟨q, hq, ?_, hon.mono (insertItem_size _ _) hkeep⟩
      rw [insertItem_size, ← hrow, hget, if_pos rfl]
  · rw [view_insertItem, PairT.entry_of_key rfl, Option.toList_some, OrderedMap.keys_append]
    refine List.nodup_append.mpr ⟨hl.nodup, List.nodup_singleton _, ?_⟩
    rintro a ha b hb rfl
    simp only [OrderedMap.keys_cons, OrderedMap.keys_nil, List.mem_singleton] at hb
    exact hnew (hb ▸ ha)

@[simp] theorem initHashtable_items (size : ℕ) : (initHashtable t size).items = [] := rfl
@[simp] theorem initHashtable_count (size : ℕ) : (initHashtable t size).count = t.count := rfl
theorem initHashtable_capacity (size : ℕ) :
    (initHashtable t size).capacity = capacityOf (initHashtable t size).size := rfl

theorem getIndex_initHashtable (size r : ℕ) : getIndex (initHashtable t size) r = 0 := by
  simp only [getIndex, initHashtable, List.getD_eq_getElem?_getD, List.getElem?_replicate]
  split_ifs <;> rfl

theorem initHashtable_size (t : HashtableT K V) (size : ℕ) :
    (initHashtable t size).size = 2 ^ Nat.clog 2 (max minSize (min size maxSize)) := by
  have hx : (UInt32.ofNat (max minSize (min size maxSize))).toNat = max minSize (min size maxSize) := by
    apply UInt32.toNat_ofNat_of_lt'
    simp only [maxSize, minSize, UInt32.size]
    omega
  show (hashtableGetNearestPowerof2 _).toNat = _
  rw [toNat_hashtableGetNearestPowerof2 (by rw [hx]; simp only [minSize]; omega)
    (by rw [hx]; simp only [minSize, maxSize]; omega), hx]

/-- The new table has at least the buckets asked for, up to `MAX_SIZE`, and at least
`MIN_SIZE`. -/
theorem le_size_initHashtable (t : HashtableT K V) (size : ℕ) :
    max minSize (min size maxSize) ≤ (initHashtable t size).size := by
  rw [initHashtable_size]
  exact Nat.le_pow_clog (by norm_num) _

/-- **`init_hashtable` lays out a fresh table**: a power of two between `MIN_SIZE` and
`MAX_SIZE` buckets, all unused. -/
theorem layout_initHashtable (hash : K → UInt32) (t : HashtableT K V) (size : ℕ) :
    Layout hash (initHashtable t size) := by
  have hx : max minSize (min size maxSize) ≤ 2 ^ 30 := by simp only [minSize, maxSize]; omega
  refine ⟨⟨_, initHashtable_size t size⟩, ?_, ?_, rfl, rfl, ?_, ?_, ?_, ?_, ?_, ?_, ?_⟩
  · exact le_trans (le_max_left _ _) (le_size_initHashtable t size)
  · rw [initHashtable_size, maxSize]
    exact Nat.pow_le_pow_right (by norm_num) (Nat.clog_le_of_le_pow hx)
  · simp [initHashtable]
  · simp [initHashtable]
  · intro r
    rw [getIndex_initHashtable]
    exact Nat.zero_le _
  · intro r _ _ _ _ hne
    exact absurd (getIndex_initHashtable size r) hne
  · intro j pair k hj
    simp [initHashtable] at hj
  · intro j pair k hj
    simp [initHashtable] at hj
  · simp [initHashtable, view]

end Insert

/-! ## `rehash` -/

section Rehash

variable {hash : K → UInt32} {t : HashtableT K V}

/-- A pair is its key, value and hash. -/
theorem PairT.eta_of_key {pair : PairT K V} {k : K} (hk : pair.key = some k) :
    pair = ⟨some k, pair.value, pair.hash⟩ := by
  cases pair
  cases hk
  rfl

theorem rehashItem_frame (t : HashtableT K V) (pair : PairT K V) :
    (rehashItem t pair).count = t.count ∧ (rehashItem t pair).capacity = t.capacity := by
  unfold rehashItem
  split <;> exact ⟨rfl, rfl⟩

theorem foldl_rehashItem_frame : ∀ (l : List (PairT K V)) (t : HashtableT K V),
    (l.foldl rehashItem t).count = t.count ∧ (l.foldl rehashItem t).capacity = t.capacity
  | [], _ => ⟨rfl, rfl⟩
  | pair :: l, t => by
    obtain ⟨hc, hcap⟩ := foldl_rehashItem_frame l (rehashItem t pair)
    rw [List.foldl_cons, hc, hcap]
    exact rehashItem_frame t pair

/-- **The loop of `rehash` moves the live items over in order**: each goes into the first
unused bucket on its probes, which keeps the layout. -/
theorem Layout.foldl_rehashItem : ∀ (l : List (PairT K V)) {t' : HashtableT K V}, Layout hash t' →
    (∀ pair ∈ l, ∀ k, pair.key = some k → pair.hash = hash k) →
    (OrderedMap.keys (view t' ++ l.filterMap PairT.entry)).Nodup →
    t'.items.length + (l.filterMap PairT.entry).length ≤ t'.capacity →
    Layout hash (l.foldl rehashItem t') ∧ view (l.foldl rehashItem t') = view t' ++ l.filterMap PairT.entry ∧
      (l.foldl rehashItem t').items.length = t'.items.length + (l.filterMap PairT.entry).length
  | [], t', hl, _, _, _ => by simp [hl]
  | pair :: l, t', hl, hhash, hnd, hroom => by
    have hhash' : ∀ pair ∈ l, ∀ k, pair.key = some k → pair.hash = hash k :=
      fun p hp => hhash p (List.mem_cons_of_mem _ hp)
    rw [List.foldl_cons]
    cases hk : pair.key with
    | none =>
      have hskip : rehashItem t' pair = t' := by simp [rehashItem, hk]
      have hentry : pair.entry = none := by simp [PairT.entry, hk]
      rw [hskip]
      rw [List.filterMap_cons_none hentry] at hnd hroom ⊢
      exact Layout.foldl_rehashItem l hl hhash' hnd hroom
    | some k =>
      have hentry : pair.entry = some (k, pair.value) := PairT.entry_of_key hk
      rw [List.filterMap_cons_some hentry] at hnd hroom ⊢
      have hpair : pair = ⟨some k, pair.value, hash k⟩ := by
        rw [← hhash pair List.mem_cons_self k hk]
        exact PairT.eta_of_key hk
      -- the item goes into the first unused bucket on its probes
      obtain ⟨q, hq, hempty, -⟩ := hl.exists_first_empty (hash k).toNat
      have hslot : Slot t' (hash k).toNat (emptyRow t' t'.size ((hash k).toNat &&& t'.mask) 0) := by
        rw [hl.home]
        exact hl.emptyRow_slot (by omega) ⟨q, hq, by rwa [Nat.zero_add]⟩ (fun _ h => absurd h (Nat.not_lt_zero _))
      have hnew : k ∉ OrderedMap.keys (view t') := by
        rw [OrderedMap.keys_append, OrderedMap.keys_cons] at hnd
        exact fun hm => (List.nodup_append.mp hnd).2.2 k hm k List.mem_cons_self rfl
      have hstep : rehashItem t' pair =
          insertItem t' (emptyRow t' t'.size ((hash k).toNat &&& t'.mask) 0) ⟨some k, pair.value, hash k⟩ := by
        rw [rehashItem, hk]
        dsimp only
        rw [hhash pair List.mem_cons_self k hk, ← hpair]
      simp only [List.length_cons] at hroom
      have hl' := hl.insert pair.value hslot hnew (by omega)
      rw [← hstep] at hl'
      have hview : view (rehashItem t' pair) = view t' ++ [(k, pair.value)] := by
        rw [hstep, view_insertItem, PairT.entry_of_key rfl, Option.toList_some]
      have hlen : (rehashItem t' pair).items.length = t'.items.length + 1 := by
        rw [hstep, insertItem_items, List.length_append, List.length_singleton]
      have hcap : (rehashItem t' pair).capacity = t'.capacity := (rehashItem_frame t' pair).2
      obtain ⟨hl'', hview', hlen'⟩ := Layout.foldl_rehashItem l hl' hhash'
        (by rw [hview, List.append_assoc, List.singleton_append]; exact hnd)
        (by rw [hlen, hcap]; omega)
      refine ⟨hl'', ?_, ?_⟩
      · rw [hview', hview, List.append_assoc, List.singleton_append]
      · rw [hlen', hlen, List.length_cons]
        omega

/-- A table of at least `3 c` buckets has room for `2 c` items, and for four at least. -/
theorem capacity_initHashtable (t : HashtableT K V) (c : ℕ) (hc : c * resizeFactor ≤ maxSize) :
    c * 2 ≤ (initHashtable t (c * resizeFactor)).capacity ∧ 4 ≤ (initHashtable t (c * resizeFactor)).capacity := by
  have hle := le_size_initHashtable t (c * resizeFactor)
  rw [initHashtable_capacity, capacityOf]
  simp only [resizeFactor, minSize, maxSize] at hle hc ⊢
  omega

/-- **`rehash` to `count * RESIZE_FACTOR` keeps what the table stores**, in a fresh layout
with no removed items and room for a new one. -/
theorem Inv.rehash (hi : Inv hash t) (hsize : t.count * resizeFactor ≤ maxSize) :
    ∃ t', rehash t (t.count * resizeFactor) = some t' ∧ Inv hash t' ∧ view t' = view t ∧
      t'.items.length < t'.capacity := by
  have hl₀ := layout_initHashtable hash t (t.count * resizeFactor)
  obtain ⟨hcap2, hcap4⟩ := capacity_initHashtable t t.count hsize
  have hcount := hi.count_eq
  simp only [Hashtable.rehash, gt_iff_lt, not_lt.mpr hsize, if_false]
  split_ifs with hc
  · -- every live item moves over
    have hhash : ∀ pair ∈ t.items, ∀ k, pair.key = some k → pair.hash = hash k := by
      intro pair hmem k hk
      obtain ⟨j, hj⟩ := List.mem_iff_getElem?.mp hmem
      exact hi.hash_eq j pair k hj hk
    have hempty : view (initHashtable t (t.count * resizeFactor)) = [] := by simp [view]
    have hv : t.items.filterMap PairT.entry = view t := rfl
    obtain ⟨hl, hview, hlen⟩ := hl₀.foldl_rehashItem t.items hhash
      (by rw [hempty, List.nil_append]; exact hi.nodup)
      (by rw [initHashtable_items, List.length_nil, Nat.zero_add, hv, ← hcount]; omega)
    obtain ⟨hcnt, hcapeq⟩ := foldl_rehashItem_frame t.items (initHashtable t (t.count * resizeFactor))
    rw [hempty, List.nil_append, hv] at hview
    rw [initHashtable_items, List.length_nil, Nat.zero_add, hv, ← hcount] at hlen
    refine ⟨_, rfl, ⟨hl, ?_⟩, hview, ?_⟩
    · rw [hcnt, hview]
      exact hcount
    · rw [hlen, hcapeq]
      omega
  · -- an empty table: only removed items, which are dropped
    have hview : view t = [] := List.eq_nil_of_length_eq_zero (by rw [← hcount]; exact not_not.mp hc)
    refine ⟨_, rfl, ⟨hl₀, ?_⟩, ?_, ?_⟩
    · simp [initHashtable, view, not_not.mp hc]
    · rw [hview]
      simp [initHashtable, view]
    · rw [initHashtable_items, List.length_nil]
      omega

end Rehash

/-! ## Updating an item in place -/

section Update

variable {hash : K → UInt32} {t : HashtableT K V}

/-- An item of `items.set i a` is the new one at `i` or an old one elsewhere. -/
theorem getElem?_set_eq_some {α : Type*} {l : List α} {i j : ℕ} {a b : α} (h : (l.set i a)[j]? = some b) :
    (j = i ∧ b = a) ∨ (j ≠ i ∧ l[j]? = some b) := by
  rw [List.getElem?_set] at h
  split_ifs at h with hij hi
  · exact .inl ⟨hij.symm, (Option.some.inj h).symm⟩
  · exact .inr ⟨Ne.symm hij, h⟩

/-- The entries of the table split at the live item `i`, whose key is found nowhere else. -/
theorem Layout.split (hl : Layout hash t) {i : ℕ} {pair : PairT K V} {k : K}
    (hpair : t.items[i]? = some pair) (hkey : pair.key = some k) :
    view t = (t.items.take i).filterMap PairT.entry ++ [(k, pair.value)] ++
        (t.items.drop (i + 1)).filterMap PairT.entry ∧
      k ∉ OrderedMap.keys ((t.items.take i).filterMap PairT.entry) ∧
      k ∉ OrderedMap.keys ((t.items.drop (i + 1)).filterMap PairT.entry) := by
  have hview : view t = (t.items.take i).filterMap PairT.entry ++ [(k, pair.value)] ++
      (t.items.drop (i + 1)).filterMap PairT.entry := by
    rw [view, filterMap_entry_split hpair, PairT.entry_of_key hkey, Option.toList_some]
  have hnd := hl.nodup
  rw [hview] at hnd
  exact ⟨hview, not_mem_keys_of_split hnd⟩

/-- **Replacing a live item by one with the same key and hash, or by a removed one,
keeps the layout**: the buckets are not touched. -/
theorem Layout.set (hl : Layout hash t) {i : ℕ} {pair pair' : PairT K V} {k : K}
    (hpair : t.items[i]? = some pair) (hkey : pair.key = some k)
    (hpair' : pair'.key = none ∨ (pair'.key = some k ∧ pair'.hash = pair.hash)) :
    Layout hash { t with items := t.items.set i pair' } := by
  obtain ⟨hview, hA, hB⟩ := hl.split hpair hkey
  have hget : ∀ r, getIndex { t with items := t.items.set i pair' } r = getIndex t r := fun _ => rfl
  refine ⟨hl.size_pow, hl.min_le_size, hl.size_le_max, hl.mask_eq, hl.capacity_eq, hl.length_table, ?_, ?_,
    hl.index_inj, ?_, ?_, ?_⟩
  · rw [List.length_set]
    exact hl.length_items_le
  · intro r
    rw [hget, List.length_set]
    exact hl.index_le r
  · intro j b k' hj hk'
    rcases getElem?_set_eq_some hj with ⟨rfl, rfl⟩ | ⟨-, hold⟩
    · rcases hpair' with hnone | ⟨hsome, hhash⟩
      · rw [hnone] at hk'
        exact absurd hk' (by simp)
      · obtain rfl : k = k' := Option.some.inj (hsome.symm.trans hk')
        rw [hhash]
        exact hl.hash_eq _ pair k hpair hkey
    · exact hl.hash_eq j b k' hold hk'
  · intro j b k' hj hk'
    rcases getElem?_set_eq_some hj with ⟨rfl, rfl⟩ | ⟨-, hold⟩
    · rcases hpair' with hnone | ⟨hsome, -⟩
      · rw [hnone] at hk'
        exact absurd hk' (by simp)
      · obtain rfl : k = k' := Option.some.inj (hsome.symm.trans hk')
        exact hl.placed _ pair k hpair hkey
    · exact hl.placed j b k' hold hk'
  · -- the keys are those of before, or those without `k`
    have hnd := hl.nodup
    rw [hview] at hnd
    show (OrderedMap.keys ((t.items.set i pair').filterMap PairT.entry)).Nodup
    rw [filterMap_entry_set hpair]
    rcases hpair' with hnone | ⟨hsome, -⟩
    · have hentry : pair'.entry = none := by simp [PairT.entry, hnone]
      rw [hentry, Option.toList_none, List.append_nil]
      refine List.Sublist.nodup ?_ hnd
      simp only [OrderedMap.keys_append]
      exact (List.sublist_append_left _ _).append (List.Sublist.refl _)
    · rw [PairT.entry_of_key hsome, Option.toList_some]
      simpa [OrderedMap.keys_append] using hnd

variable [BEq K] [LawfulBEq K]

/-- A new value for a live key is the ordered map's `put` of it, in place. -/
theorem Layout.view_set_value (hl : Layout hash t) {i : ℕ} {pair : PairT K V} {k : K}
    (hpair : t.items[i]? = some pair) (hkey : pair.key = some k) (v : V) :
    view { t with items := t.items.set i { pair with value := v, key := some k } } = OrderedMap.put (view t) k v := by
  obtain ⟨hview, hA, -⟩ := hl.split hpair hkey
  show (t.items.set i _).filterMap PairT.entry = _
  rw [filterMap_entry_set hpair, PairT.entry_of_key rfl, hview, Option.toList_some, List.append_assoc,
    List.singleton_append, List.append_assoc, List.singleton_append,
    OrderedMap.put_append_of_not_mem _ _ hA, OrderedMap.put_cons_self]

/-- A removed item is the ordered map's `erase` of its key. -/
theorem Layout.view_set_removed (hl : Layout hash t) {i : ℕ} {pair : PairT K V} {k : K}
    (hpair : t.items[i]? = some pair) (hkey : pair.key = some k) :
    view { t with items := t.items.set i { pair with key := none } } = OrderedMap.erase (view t) k := by
  obtain ⟨hview, hA, hB⟩ := hl.split hpair hkey
  show (t.items.set i _).filterMap PairT.entry = _
  have hentry : ({ pair with key := none } : PairT K V).entry = none := rfl
  rw [filterMap_entry_set hpair, hentry, hview, Option.toList_none, List.append_nil, List.append_assoc,
    List.singleton_append, OrderedMap.erase_append_cons _ hA hB]

/-- The value stored for a live key is its item's. -/
theorem Layout.lookup_view (hl : Layout hash t) {i : ℕ} {pair : PairT K V} {k : K}
    (hpair : t.items[i]? = some pair) (hkey : pair.key = some k) :
    (view t).lookup k = some pair.value := by
  obtain ⟨hview, hA, -⟩ := hl.split hpair hkey
  rw [hview, List.append_assoc, OrderedMap.lookup_append_of_not_mem _ hA, List.singleton_append,
    List.lookup_cons_self]

end Update

/-! ## The operations keep the invariant -/

section Operations

variable {hash : K → UInt32} {t : HashtableT K V}

theorem Inv.count_ne_zero (hi : Inv hash t) {k : K} (hmem : k ∈ OrderedMap.keys (view t)) : t.count ≠ 0 := by
  rw [hi.count_eq]
  intro h0
  rw [List.length_eq_zero_iff.mp h0] at hmem
  simp at hmem

/-- The table `put` works on: the table itself while `items` has room, or else the rehashed
one, which stores the same and has room. -/
theorem Inv.grow (hi : Inv hash t) (hgrow : t.items.length < t.capacity ∨ t.count * resizeFactor ≤ maxSize) :
    ∃ t', (if t.items.length ≥ t.capacity then Hashtable.rehash t (t.count * resizeFactor) else some t) = some t' ∧
      Inv hash t' ∧ view t' = view t ∧ t'.items.length < t'.capacity := by
  split_ifs with hfull
  · exact hi.rehash (hgrow.resolve_left (not_lt.mpr hfull))
  · exact ⟨t, rfl, hi, rfl, not_le.mp hfull⟩

variable [BEq K] [LawfulBEq K]

/-- **`put` stores the value under the key** and keeps the invariant: in place for a stored
key, at the end for a new one; it returns the value it replaces. -/
theorem Inv.put (hi : Inv hash t) (hgrow : t.items.length < t.capacity ∨ t.count * resizeFactor ≤ maxSize)
    (key : K) (value : V) :
    Inv hash (put hash t key value).2 ∧ view (put hash t key value).2 = OrderedMap.put (view t) key value ∧
      (put hash t key value).1 = (view t).lookup key := by
  obtain ⟨t₁, hgrow_eq, hi₁, hview₁, hroom₁⟩ := hi.grow hgrow
  rw [← hview₁]
  unfold Hashtable.put
  rw [hgrow_eq]
  dsimp only
  by_cases hmem : key ∈ OrderedMap.keys (view t₁)
  · -- a stored key: its item takes the new value in place
    obtain ⟨i, pair, hpair, hkey⟩ := mem_keys_view.mp hmem
    have hfound : (findKey hash t₁ key true).1 = some i := hi₁.findKey_of_mem hpair hkey (.inr rfl)
    generalize findKey hash t₁ key true = f at hfound ⊢
    obtain ⟨f₁, f₂, f₃⟩ := f
    obtain rfl : f₁ = some i := hfound
    dsimp only
    rw [hpair]
    dsimp only
    have hview := hi₁.view_set_value hpair hkey value
    refine ⟨⟨hi₁.set hpair hkey (.inr ⟨rfl, rfl⟩), ?_⟩, hview, (hi₁.lookup_view hpair hkey).symm⟩
    rw [hview, OrderedMap.length_put_of_mem value hmem]
    exact hi₁.count_eq
  · -- a new key: a new item, in the bucket `find_key` found for it
    obtain ⟨hnone, hout⟩ := hi₁.findKey_of_not_mem hmem true
    obtain ⟨hh, hslot⟩ := hout rfl
    generalize findKey hash t₁ key true = f at hnone hh hslot ⊢
    obtain ⟨f₁, f₂, row⟩ := f
    obtain rfl : f₁ = none := hnone
    obtain rfl : f₂ = hash key := hh
    dsimp only at hslot ⊢
    have hview : view (insertItem t₁ row ⟨some key, value, hash key⟩) = OrderedMap.put (view t₁) key value := by
      rw [view_insertItem, PairT.entry_of_key rfl, Option.toList_some, OrderedMap.put_of_not_mem value hmem]
    refine ⟨⟨(hi₁.insert value hslot hmem hroom₁).setCount _, ?_⟩, hview, (OrderedMap.lookup_of_not_mem hmem).symm⟩
    show t₁.count + 1 = (view (insertItem t₁ row ⟨some key, value, hash key⟩)).length
    rw [view_insertItem, PairT.entry_of_key rfl, Option.toList_some, List.length_append, hi₁.count_eq]
    rfl

/-- **`get` returns the value stored under the key.** -/
theorem Inv.get_eq (hi : Inv hash t) (key : K) : get hash t key = (view t).lookup key := by
  by_cases hmem : key ∈ OrderedMap.keys (view t)
  · obtain ⟨i, pair, hpair, hkey⟩ := mem_keys_view.mp hmem
    rw [get, hi.findKey_of_mem hpair hkey (.inl (hi.count_ne_zero hmem)), Option.bind_some, hpair,
      Option.map_some, hi.lookup_view hpair hkey]
  · rw [get, (hi.findKey_of_not_mem hmem false).1, Option.bind_none, OrderedMap.lookup_of_not_mem hmem]

/-- `remove_internal` of a live item erases its key and returns its value. -/
theorem Inv.removeInternal (hi : Inv hash t) {i : ℕ} {pair : PairT K V} {k : K}
    (hpair : t.items[i]? = some pair) (hkey : pair.key = some k) :
    Inv hash (removeInternal t i).2 ∧ view (removeInternal t i).2 = OrderedMap.erase (view t) k ∧
      (removeInternal t i).1 = some pair.value := by
  unfold Hashtable.removeInternal
  rw [hpair]
  dsimp only
  have hview := hi.view_set_removed hpair hkey
  have hl : Layout hash { t with items := t.items.set i { pair with key := none } } := hi.set hpair hkey (.inl rfl)
  refine ⟨⟨hl.setCount _, ?_⟩, hview, rfl⟩
  show t.count - 1 = (view { t with items := t.items.set i { pair with key := none } }).length
  obtain ⟨hsplit, hA, hB⟩ := hi.split hpair hkey
  rw [hview, hi.count_eq, hsplit, List.append_assoc, List.singleton_append, OrderedMap.erase_append_cons _ hA hB]
  simp

/-- **`remove` erases the key** and keeps the invariant; it returns the value it removes. -/
theorem Inv.remove (hi : Inv hash t) (key : K) :
    Inv hash (remove hash t key).2 ∧ view (remove hash t key).2 = OrderedMap.erase (view t) key ∧
      (remove hash t key).1 = (view t).lookup key := by
  by_cases hmem : key ∈ OrderedMap.keys (view t)
  · obtain ⟨i, pair, hpair, hkey⟩ := mem_keys_view.mp hmem
    rw [Hashtable.remove, hi.findKey_of_mem hpair hkey (.inl (hi.count_ne_zero hmem))]
    obtain ⟨hinv, hview, hval⟩ := hi.removeInternal hpair hkey
    exact ⟨hinv, hview, hval.trans (hi.lookup_view hpair hkey).symm⟩
  · rw [Hashtable.remove, (hi.findKey_of_not_mem hmem false).1]
    exact ⟨hi, (OrderedMap.erase_of_not_mem hmem).symm, (OrderedMap.lookup_of_not_mem hmem).symm⟩

end Operations

/-! ## Runs of operations -/

open VpnClient.Lib.Run

/-- The calls that change a table. -/
inductive HashtableOp (K V : Type*)
  | put (key : K) (value : V)
  | remove (key : K)

/-- One call on the table. -/
def hashtableStep [BEq K] (hash : K → UInt32) (t : HashtableT K V) : HashtableOp K V → HashtableT K V
  | .put key value => (put hash t key value).2
  | .remove key => (remove hash t key).2

/-- The same call on the ordered map. -/
def mapStep [BEq K] (m : List (K × V)) : HashtableOp K V → List (K × V)
  | .put key value => OrderedMap.put m key value
  | .remove key => OrderedMap.erase m key

/-- A `put` finds room: `items` has a free slot, or the table can grow to
`count * RESIZE_FACTOR` buckets. -/
def CanGrow (t : HashtableT K V) : HashtableOp K V → Prop
  | .put _ _ => t.items.length < t.capacity ∨ t.count * resizeFactor ≤ maxSize
  | .remove _ => True

instance (t : HashtableT K V) : ∀ op, Decidable (CanGrow t op)
  | .put _ _ => inferInstanceAs (Decidable (_ ∨ _))
  | .remove _ => inferInstanceAs (Decidable True)

/-- `t` represents the ordered map `m`. -/
def Rep (hash : K → UInt32) (t : HashtableT K V) (m : List (K × V)) : Prop := Inv hash t ∧ view t = m

section Runs

variable [BEq K] [LawfulBEq K] {hash : K → UInt32} {t : HashtableT K V} {m : List (K × V)}

theorem Rep.step (h : Rep hash t m) : ∀ op, CanGrow t op → Rep hash (hashtableStep hash t op) (mapStep m op)
  | .put key value, hgrow => by
    obtain ⟨hi, rfl⟩ := h
    obtain ⟨hi', hview, -⟩ := hi.put hgrow key value
    exact ⟨hi', hview⟩
  | .remove key, _ => by
    obtain ⟨hi, rfl⟩ := h
    obtain ⟨hi', hview, -⟩ := hi.remove key
    exact ⟨hi', hview⟩

theorem Rep.run (h : Rep hash t m) {ops : List (HashtableOp K V)} (hops : Allowed (hashtableStep hash) CanGrow t ops) :
    Rep hash (run (hashtableStep hash) t ops) (run mapStep m ops) :=
  run_simulation_of_allowed (fun _ _ op hr hok => hr.step op hok) hops h

/-- Each call stores at most one more entry. -/
theorem Inv.count_step_le (hi : Inv hash t) : ∀ op, CanGrow t op → (hashtableStep hash t op).count ≤ t.count + 1
  | .put key value, hgrow => by
    obtain ⟨hi', hview, -⟩ := hi.put hgrow key value
    rw [hashtableStep, hi'.count_eq, hview, hi.count_eq]
    exact OrderedMap.length_put_le _ _ _
  | .remove key, _ => by
    obtain ⟨hi', hview, -⟩ := hi.remove key
    rw [hashtableStep, hi'.count_eq, hview, hi.count_eq]
    exact (List.length_filter_le _ _).trans (Nat.le_succ _)

/-- **No `put` of a short run fails**: a run of calls that cannot store more than
`MAX_SIZE / RESIZE_FACTOR` entries always finds room. -/
theorem Inv.allowed (hi : Inv hash t) {ops : List (HashtableOp K V)}
    (hlen : (t.count + ops.length) * resizeFactor ≤ maxSize) : Allowed (hashtableStep hash) CanGrow t ops := by
  induction ops generalizing t with
  | nil => trivial
  | cons op ops ih =>
    simp only [List.length_cons, resizeFactor] at hlen
    have hgrow : CanGrow t op := by
      cases op with
      | put key value => exact .inr (by simp only [resizeFactor]; omega)
      | remove key => trivial
    have hle := hi.count_step_le op hgrow
    have hrep : Rep hash t (view t) := ⟨hi, rfl⟩
    refine ⟨hgrow, ih (hrep.step op hgrow).1 ?_⟩
    simp only [resizeFactor]
    omega

end Runs

/-! ## The table refines an insertion-ordered map -/

@[simp] theorem hashtableCreate_count (size : ℕ) : (hashtableCreate size : HashtableT K V).count = 0 := rfl

theorem inv_hashtableCreate (hash : K → UInt32) (size : ℕ) : Inv hash (hashtableCreate size : HashtableT K V) :=
  ⟨layout_initHashtable hash _ size, rfl⟩

theorem length_run_mapStep_le [BEq K] (m : List (K × V)) (ops : List (HashtableOp K V)) :
    (run mapStep m ops).length ≤ m.length + ops.length := by
  induction ops generalizing m with
  | nil => simp
  | cons op ops ih =>
    have hstep : (mapStep m op).length ≤ m.length + 1 := by
      cases op with
      | put key value => exact OrderedMap.length_put_le _ _ _
      | remove key => exact (List.length_filter_le _ _).trans (Nat.le_succ _)
    have := ih (mapStep m op)
    simp only [run_cons, List.length_cons] at this ⊢
    omega

/-- **`hashtable_t` refines an insertion-ordered map.** After any run of `put` and `remove`
from `hashtable_create` that cannot store more than `MAX_SIZE / RESIZE_FACTOR` entries, the
table keeps its invariant and stores the map that the same calls make in
`Lib.OrderedMap`: `get_count` is its size and `get` its lookup, and a further `put` or
`remove` returns the value the map holds under the key and acts on the map as the map's
own operation does. -/
theorem hashtable_refines_map [BEq K] [LawfulBEq K] (hash : K → UInt32) (size : ℕ) (ops : List (HashtableOp K V))
    (hlen : ops.length * resizeFactor ≤ maxSize) :
    let t := run (hashtableStep hash) (hashtableCreate size) ops
    let m := run mapStep [] ops
    Inv hash t ∧ view t = m ∧ getCount t = m.length ∧
      ∀ key value, get hash t key = m.lookup key ∧
        (put hash t key value).1 = m.lookup key ∧ view (put hash t key value).2 = OrderedMap.put m key value ∧
        (remove hash t key).1 = m.lookup key ∧ view (remove hash t key).2 = OrderedMap.erase m key := by
  intro t m
  have hi₀ := inv_hashtableCreate (V := V) hash size
  have hallowed : Allowed (hashtableStep hash) CanGrow (hashtableCreate size) ops := hi₀.allowed (by simpa using hlen)
  obtain ⟨hi, hview⟩ : Rep hash t m := Rep.run ⟨hi₀, rfl⟩ hallowed
  have hcount : t.count = m.length := by rw [hi.count_eq, hview]
  have hgrow : t.items.length < t.capacity ∨ t.count * resizeFactor ≤ maxSize := by
    have := length_run_mapStep_le [] ops
    refine .inr (le_trans ?_ hlen)
    rw [hcount]
    exact Nat.mul_le_mul_right _ (by simpa using this)
  refine ⟨hi, hview, hcount, fun key value => ?_⟩
  obtain ⟨-, hput, hputv⟩ := hi.put hgrow key value
  obtain ⟨-, hrem, hremv⟩ := hi.remove key
  rw [hview] at hput hputv hrem hremv
  exact ⟨hview ▸ hi.get_eq key, hputv, hput, hremv, hrem⟩

/-- Three calls on a table keyed by numbers: a key put, a second one in the same home
bucket, and the first removed again. -/
theorem hashtable_refines_map_three_calls :
    get (fun k : ℕ => UInt32.ofNat k)
      (run (hashtableStep (fun k : ℕ => UInt32.ofNat k)) (hashtableCreate 0 : HashtableT ℕ ℕ)
        [.put 3 30, .put 11 110, .remove 3]) 11 = some 110 := by
  obtain ⟨-, -, -, hget⟩ := hashtable_refines_map (fun k : ℕ => UInt32.ofNat k) 0
    ([.put 3 30, .put 11 110, .remove 3] : List (HashtableOp ℕ ℕ)) (by decide)
  rw [(hget 11 0).1]
  decide

/-! ## Enumeration with `remove_at` -/

section Enumerate

/-- `enumerate` returns the first live item from its index on, and the index past it. -/
theorem enumerateFrom_eq_some : ∀ {l : List (PairT K V)} {i j : ℕ} {k : K} {v : V},
    enumerateFrom l i = some (k, v, j) →
      i < j ∧ j ≤ i + l.length ∧ (l.take (j - i)).filterMap PairT.entry = [(k, v)] ∧
        l.filterMap PairT.entry = (k, v) :: (l.drop (j - i)).filterMap PairT.entry
  | [], _, _, _, _, h => by simp [enumerateFrom] at h
  | pair :: l, i, j, k, v, h => by
    unfold enumerateFrom at h
    cases hk : pair.key with
    | some k' =>
      rw [hk] at h
      obtain ⟨rfl, rfl, rfl⟩ : k' = k ∧ pair.value = v ∧ i + 1 = j := by simpa using h
      simp [PairT.entry_of_key hk]
    | none =>
      rw [hk] at h
      have hentry : pair.entry = none := by simp [PairT.entry, hk]
      obtain ⟨hlt, hle, htake, hall⟩ := enumerateFrom_eq_some h
      have hsub : j - i = (j - (i + 1)) + 1 := by omega
      refine ⟨by omega, by simp only [List.length_cons]; omega, ?_, ?_⟩
      · rw [hsub, List.take_succ_cons, List.filterMap_cons_none hentry, htake]
      · rw [hsub, List.drop_succ_cons, List.filterMap_cons_none hentry, hall]

/-- `enumerate` ends when no item from its index on is live. -/
theorem enumerateFrom_eq_none : ∀ {l : List (PairT K V)} {i : ℕ},
    enumerateFrom l i = none → l.filterMap PairT.entry = []
  | [], _, _ => rfl
  | pair :: l, i, h => by
    unfold enumerateFrom at h
    cases hk : pair.key with
    | some k => rw [hk] at h; exact absurd h (by simp)
    | none =>
      rw [hk] at h
      rw [List.filterMap_cons_none (by simp [PairT.entry, hk]), enumerateFrom_eq_none h]

/-- A call in a loop over an enumerator of the table. -/
inductive EnumOp
  | next
  | removeAt

/-- The table, the enumerator's `index`, and the entries `enumerate` has returned. -/
structure EnumState (K V : Type*) where
  table : HashtableT K V
  index : ℕ
  visited : List (K × V)

/-- `enumerate`, which leaves `index` at `items_count` once it ends, or `remove_at`. -/
def enumStep (s : EnumState K V) : EnumOp → EnumState K V
  | .next =>
    match enumerate s.table s.index with
    | some (k, v, index) => { s with index := index, visited := s.visited ++ [(k, v)] }
    | none => { s with index := max s.index s.table.items.length }
  | .removeAt => { s with table := removeAt s.table s.index }

/-- The contract of `remove_at`: it removes the entry `enumerate` returned last, once. The
item before the enumerator's `index` is live, or there is none. -/
def RemovesLive (s : EnumState K V) : EnumOp → Prop
  | .next => True
  | .removeAt => s.index = 0 ∨ ((s.table.items[s.index - 1]?).bind PairT.key).isSome

instance (s : EnumState K V) : ∀ op, Decidable (RemovesLive s op)
  | .next => inferInstanceAs (Decidable True)
  | .removeAt => inferInstanceAs (Decidable (_ ∨ _))

variable {hash : K → UInt32} {L₀ : List (K × V)}

/-- The enumerator has returned the first entries of `L₀` in order; the live items before
its `index` are some of them (those not removed), and the live items from `index` on are
the entries of `L₀` not returned yet. -/
structure EnumInv (hash : K → UInt32) (L₀ : List (K × V)) (s : EnumState K V) : Prop where
  inv : Inv hash s.table
  visited_eq : s.visited = L₀.take s.visited.length
  index_le : s.index ≤ s.table.items.length
  rest_eq : (s.table.items.drop s.index).filterMap PairT.entry = L₀.drop s.visited.length
  kept : ((s.table.items.take s.index).filterMap PairT.entry).Sublist (L₀.take s.visited.length)

theorem EnumInv.init {t : HashtableT K V} (hi : Inv hash t) : EnumInv hash (view t) ⟨t, 0, []⟩ :=
  ⟨hi, rfl, Nat.zero_le _, rfl, by simp⟩

/-- `enumerate` returns the next entry of `L₀`, or ends once all were returned. -/
theorem EnumInv.next {s : EnumState K V} (h : EnumInv hash L₀ s) : EnumInv hash L₀ (enumStep s .next) := by
  simp only [enumStep, enumerate]
  split
  · -- the next live item, `j - index` items on
    rename_i k v j heq
    obtain ⟨hlt, hle, htake, hall⟩ := enumerateFrom_eq_some heq
    simp only [List.length_drop] at hle
    have hrest := h.rest_eq
    rw [hall] at hrest
    -- the entry is the next one of `L₀`
    have hn : s.visited.length < L₀.length := by
      by_contra hge
      have hnil : L₀.drop s.visited.length = [] := List.drop_eq_nil_of_le (by omega)
      rw [hnil] at hrest
      exact List.cons_ne_nil _ _ hrest
    have hget : L₀.drop s.visited.length = L₀[s.visited.length] :: L₀.drop (s.visited.length + 1) :=
      List.drop_eq_getElem_cons hn
    rw [hget, List.cons.injEq] at hrest
    obtain ⟨hkv, hrest'⟩ := hrest
    have htake' : L₀.take (s.visited.length + 1) = L₀.take s.visited.length ++ [(k, v)] := by
      rw [List.take_add_one, List.getElem?_eq_getElem hn, hkv]
      rfl
    have hlen : (s.visited ++ [(k, v)]).length = s.visited.length + 1 := by simp
    have hidx := h.index_le
    refine ⟨h.inv, ?_, by dsimp only; omega, ?_, ?_⟩
    · dsimp only
      rw [hlen, htake', ← h.visited_eq]
    · dsimp only
      rw [hlen, ← hrest', List.drop_drop, Nat.add_sub_cancel' hlt.le]
    · dsimp only
      rw [hlen, htake', show j = s.index + (j - s.index) by omega, List.take_add, List.filterMap_append, htake]
      exact h.kept.append (List.Sublist.refl _)
  · -- no live item is left: the enumerator stands at `items_count`
    rename_i heq
    have hnone := enumerateFrom_eq_none heq
    have hmax : max s.index s.table.items.length = s.table.items.length := max_eq_right h.index_le
    have hrest := h.rest_eq
    rw [hnone] at hrest
    refine ⟨h.inv, h.visited_eq, by simp [hmax], ?_, ?_⟩
    · dsimp only
      rw [hmax, List.drop_length, List.filterMap_nil, ← hrest]
    · dsimp only
      rw [hmax, List.take_length, ← List.take_append_drop s.index s.table.items, List.filterMap_append, hnone,
        List.append_nil]
      exact h.kept

/-- What the table stores: the entries kept of those returned, and all those not returned. -/
theorem EnumInv.view_eq {s : EnumState K V} (h : EnumInv hash L₀ s) :
    ∃ kept, kept.Sublist (L₀.take s.visited.length) ∧ view s.table = kept ++ L₀.drop s.visited.length := by
  have hsplit : view s.table = (s.table.items.take s.index).filterMap PairT.entry ++
      (s.table.items.drop s.index).filterMap PairT.entry := by
    rw [view, ← List.filterMap_append, List.take_append_drop]
  exact ⟨_, h.kept, by rw [hsplit, h.rest_eq]⟩

/-- Once `enumerate` ends, it has returned every entry of `L₀`, in order. -/
theorem EnumInv.visited_of_done {s : EnumState K V} (h : EnumInv hash L₀ s)
    (hdone : enumerate s.table s.index = none) : s.visited = L₀ := by
  have hrest := h.rest_eq
  rw [enumerateFrom_eq_none hdone] at hrest
  rw [h.visited_eq, List.take_of_length_le (List.drop_eq_nil_iff.mp hrest.symm)]

variable [BEq K] [LawfulBEq K]

/-- `remove_at` of a live item drops its entry from those kept before the index. -/
theorem EnumInv.removeAt {s : EnumState K V} (h : EnumInv hash L₀ s) (hok : RemovesLive s .removeAt) :
    EnumInv hash L₀ (enumStep s .removeAt) := by
  unfold enumStep Hashtable.removeAt
  split_ifs with hidx
  · -- the item before `index` is live: its key is cleared
    have hlive := hok.resolve_left hidx
    obtain ⟨pair, hpair, hkey⟩ : ∃ pair, s.table.items[s.index - 1]? = some pair ∧ ∃ k, pair.key = some k := by
      cases hp : s.table.items[s.index - 1]? with
      | none => rw [hp] at hlive; exact absurd hlive (by simp)
      | some pair =>
        rw [hp] at hlive
        exact ⟨pair, rfl, Option.isSome_iff_exists.mp hlive⟩
    obtain ⟨k, hkey⟩ := hkey
    obtain ⟨hinv, -, -⟩ := h.inv.removeInternal hpair hkey
    have htable : (Hashtable.removeInternal s.table (s.index - 1)).2 =
        { s.table with items := s.table.items.set (s.index - 1) { pair with key := none },
                       count := s.table.count - 1 } := by
      simp [Hashtable.removeInternal, hpair]
    have hlt : s.index - 1 < s.index := by omega
    refine ⟨hinv, h.visited_eq, ?_, ?_, ?_⟩
    · rw [htable, List.length_set]
      exact h.index_le
    · rw [htable]
      dsimp only
      rw [List.drop_set_of_lt hlt]
      exact h.rest_eq
    · -- the kept entries lose the one of the item before `index`
      rw [htable]
      dsimp only
      have hpair' : (s.table.items.take s.index)[s.index - 1]? = some pair := by
        rw [List.getElem?_take_of_lt hlt]
        exact hpair
      have hentry : ({ pair with key := none } : PairT K V).entry = none := rfl
      rw [List.take_set, filterMap_entry_set hpair', hentry, Option.toList_none, List.append_nil]
      refine List.Sublist.trans ?_ h.kept
      rw [filterMap_entry_split hpair', PairT.entry_of_key hkey, Option.toList_some]
      exact (List.sublist_append_left _ _).append (List.Sublist.refl _)
  · exact h

theorem EnumInv.step {s : EnumState K V} (h : EnumInv hash L₀ s) :
    ∀ op, RemovesLive s op → EnumInv hash L₀ (enumStep s op)
  | .next, _ => h.next
  | .removeAt, hok => h.removeAt hok


end Enumerate

/-- **Enumerating with `remove_at` returns every entry once, in the order of insertion.**
In a loop of `enumerate` and `remove_at` from a table with the invariant, where
`remove_at` removes each returned entry at most once, the table keeps the invariant, the
entries returned are the first ones the table stored, in order, and all of them once
`enumerate` ends; the table then stores some of the returned entries, the ones not
removed, and every entry not returned yet. -/
theorem hashtable_enumerate_remove_at [BEq K] [LawfulBEq K] {hash : K → UInt32} {t : HashtableT K V}
    (hi : Inv hash t) (ops : List EnumOp) (hops : Allowed enumStep RemovesLive ⟨t, 0, []⟩ ops) :
    let s := run enumStep ⟨t, 0, []⟩ ops
    Inv hash s.table ∧ s.visited = (view t).take s.visited.length ∧
      (∃ kept, kept.Sublist ((view t).take s.visited.length) ∧ view s.table = kept ++ (view t).drop s.visited.length) ∧
      (enumerate s.table s.index = none → s.visited = view t) := by
  intro s
  have h : EnumInv hash (view t) s := run_invariant (fun _ op hs hok => hs.step op hok) (EnumInv.init hi) hops
  exact ⟨h.inv, h.visited_eq, h.view_eq, h.visited_of_done⟩

/-- A loop over two entries that removes the first one. -/
theorem hashtable_enumerate_remove_at_two :
    let t := run (hashtableStep (fun k : ℕ => UInt32.ofNat k)) (hashtableCreate 0 : HashtableT ℕ ℕ)
      [.put 3 30, .put 11 110]
    let s := run enumStep ⟨t, 0, []⟩ [.next, .removeAt, .next, .next]
    s.visited = [(3, 30), (11, 110)] ∧ view s.table = [(11, 110)] := by
  intro t s
  have h₀ := inv_hashtableCreate (V := ℕ) (fun k : ℕ => UInt32.ofNat k) 0
  have hi : Inv (fun k : ℕ => UInt32.ofNat k) t := (Rep.run ⟨h₀, rfl⟩ (h₀.allowed (by decide))).1
  obtain ⟨-, -, -, hdone⟩ := hashtable_enumerate_remove_at hi [.next, .removeAt, .next, .next] (by decide)
  exact ⟨(hdone (by decide)).trans (by decide), by decide⟩

/-- The table after `put(3, 30)` and `put(11, 110)`, keys hashed to themselves. -/
def twoEntries : HashtableT ℕ ℕ :=
  run (hashtableStep (fun k : ℕ => UInt32.ofNat k)) (hashtableCreate 0) [.put 3 30, .put 11 110]

end VpnClient.Collections.Hashtable
