import VpnClient.Android.RangeAlgebra
import VpnClient.Lib.TreeSet

/-!
# `IPRangeSet`

`org.perfectprivacy.android.utils.IPRangeSet`: a `TreeSet<IPRange>` that merges what
is added into the ranges already there and cuts what is removed out of them. The
VPN service builds its route list from one (`CharonVpnService.BuilderCache.applyData`:
the included subnets or the routes, minus the excluded subnets, enumerated as
`subnets()`).

The `TreeSet` is `Lib.TreeSet` under `IPRange.compareTo`. The two loops are
translated as they run:

* `add` scans the set in order for the first range `merge` accepts, removes it and
  starts over with the merged range (`reinsert`, by well-founded recursion on the
  number of ranges, which each merge lowers); when nothing merges, the range is
  inserted;
* `remove` walks the set once, drops the ranges that vanish, replaces those that
  change by their pieces (collected in `additions` and added after the walk), and
  keeps those `remove` returns unchanged (`removeScan`).

`Op` lists the mutating calls of the class, and `run` applies a sequence of them
to a new set. Aliasing is a case of its own: `add(this)` returns at once and
`remove(this)` clears the set.
-/

namespace VpnClient.Android

open VpnClient.Lib

/-- An `IPRangeSet`: `mRanges` in iteration order. -/
structure IPRangeSet where
  mRanges : List IPRange
  deriving DecidableEq, Repr

namespace IPRangeSet

/-- A new, empty set. -/
def empty : IPRangeSet := ⟨[]⟩

/-! ## 1. `add` -/

/-- The inner loop of `add`: the first range in iteration order that merges with
`range`, what the merge answers, and the set without that range. -/
def findMerge (range : IPRange) : List IPRange → Option (IPRange × List IPRange)
  | [] => none
  | existing :: rest =>
    match existing.merge range with
    | some replacement => some (replacement, rest)
    | none => (findMerge range rest).map fun (r, rest') => (r, existing :: rest')

theorem length_of_findMerge {range : IPRange} :
    ∀ {l rest : List IPRange} {r : IPRange}, findMerge range l = some (r, rest) →
      rest.length + 1 = l.length
  | [], _, _, h => by simp [findMerge] at h
  | existing :: l, rest, r, h => by
    simp only [findMerge] at h
    split at h
    · cases h; rfl
    · obtain ⟨⟨r', rest'⟩, h', he⟩ := Option.map_eq_some_iff.mp h
      cases he
      simp [length_of_findMerge h']

/-- The `reinsert:` loop of `add`: after each merge the scan starts over with the
merged range; when no range merges, the range is inserted. -/
def reinsert (ranges : List IPRange) (range : IPRange) : List IPRange :=
  match _hmerge : findMerge range ranges with
  | some (replacement, rest) => reinsert rest replacement
  | none => TreeSet.add IPRange.compareTo range ranges
termination_by ranges.length
decreasing_by have := length_of_findMerge _hmerge; omega

/-- `add(IPRange)`: nothing to do for a range the set already holds. -/
def add (s : IPRangeSet) (range : IPRange) : IPRangeSet :=
  if TreeSet.contains IPRange.compareTo range s.mRanges then s else ⟨reinsert s.mRanges range⟩

/-- `add(IPRangeSet)` with another set: its ranges one by one, in its order. -/
def addSet (s ranges : IPRangeSet) : IPRangeSet := ranges.mRanges.foldl add s

/-- `addAll(Collection)`: the collection's ranges one by one, in its order. -/
def addAll (s : IPRangeSet) (coll : List IPRange) : IPRangeSet := coll.foldl add s

/-! ## 2. `remove` -/

/-- The loop of `remove(IPRange)` over the set, from `existing` on: the ranges
kept as they are, and the `additions` collected from the ranges that changed, both
in iteration order. -/
def removeScan (range : IPRange) : List IPRange → List IPRange × List IPRange
  | [] => ([], [])
  | existing :: rest =>
    let (kept, additions) := removeScan range rest
    match existing.remove range with
    | [] => (kept, additions)
    | first :: more =>
      if first.equals existing then (existing :: kept, additions)
      else (kept, first :: more ++ additions)

/-- `remove(IPRange)`: the walk, then `mRanges.addAll(additions)`. -/
def remove (s : IPRangeSet) (range : IPRange) : IPRangeSet :=
  let (kept, additions) := removeScan range s.mRanges
  ⟨TreeSet.addAll IPRange.compareTo kept additions⟩

/-- `remove(IPRangeSet)` with another set: its ranges one by one, in its order. -/
def removeSet (s ranges : IPRangeSet) : IPRangeSet := ranges.mRanges.foldl remove s

/-! ## 3. Runs -/

/-- The calls that change an `IPRangeSet`. -/
inductive Op
  | add (range : IPRange)
  | addSet (ranges : IPRangeSet)
  /-- `add(this)`, which returns at once. -/
  | addSelf
  | addAll (coll : List IPRange)
  | remove (range : IPRange)
  | removeSet (ranges : IPRangeSet)
  /-- `remove(this)`, which clears the set. -/
  | removeSelf

/-- One call on a set. -/
def Op.apply : Op → IPRangeSet → IPRangeSet
  | .add range, s => s.add range
  | .addSet ranges, s => s.addSet ranges
  | .addSelf, s => s
  | .addAll coll, s => s.addAll coll
  | .remove range, s => s.remove range
  | .removeSet ranges, s => s.removeSet ranges
  | .removeSelf, _ => empty

/-- The ranges a call is given satisfy `P`. -/
def Op.Args (P : IPRange → Prop) : Op → Prop
  | .add range => P range
  | .addSet ranges => ∀ r ∈ ranges.mRanges, P r
  | .addSelf => True
  | .addAll coll => ∀ r ∈ coll, P r
  | .remove range => P range
  | .removeSet ranges => ∀ r ∈ ranges.mRanges, P r
  | .removeSelf => True

/-- A sequence of calls on a new set. -/
def run (ops : List Op) : IPRangeSet := ops.foldl (fun s op => op.apply s) empty

end IPRangeSet

end VpnClient.Android
