import Mathlib

/-!
# Range scans of ordered maps

A scan of an ordered map delivers the rows whose keys are between two bounds, in
the order of their keys.  A list of rows in that order is what the scan delivers
as soon as it has the same rows.  Which rows a map has is said by a list; a row
under a new key extends it.
-/

namespace Mnesis.Foundation

variable {Key Value : Type} [Ord Key] [Std.TransOrd Key] {map : Std.ExtTreeMap Key Value compare}

/-- The rows of a map are those of a list. -/
def Holds (map : Std.ExtTreeMap Key Value compare) (rows : List (Key × Value)) : Prop :=
  ∀ row, map[row.1]? = some row.2 ↔ row ∈ rows

theorem holds_empty : Holds (∅ : Std.ExtTreeMap Key Value compare) [] := by
  intro row
  rw [Std.ExtTreeMap.getElem?_empty]
  simp

variable [Std.LawfulEqOrd Key]

/-- A row under a new key is added to the list. -/
theorem Holds.insert (holds : Holds map rows) (fresh : ∀ row ∈ rows, row.1 ≠ key) (value : Value) :
    Holds (map.insert key value) (rows ++ [(key, value)]) := by
  intro row
  rw [Std.ExtTreeMap.getElem?_insert, List.mem_append, List.mem_singleton, Prod.ext_iff]
  split
  next same =>
    obtain rfl := Std.compare_eq_iff_eq.mp same
    rw [Option.some_inj]
    constructor
    · intro sameValue
      exact .inr ⟨rfl, sameValue.symm⟩
    · rintro (present | ⟨_, sameValue⟩)
      · exact absurd rfl (fresh row present)
      · exact sameValue.symm
  next different =>
    rw [holds row]
    refine (or_iff_left ?_).symm
    rintro ⟨same, _⟩
    exact different (Std.compare_eq_iff_eq.mpr same.symm)

/-- Only one map holds the rows of a list. -/
theorem Holds.unique (holds : Holds map rows) (otherHolds : Holds other rows) : map = other := by
  refine Std.ExtTreeMap.ext_getElem? fun key => Option.ext fun value => ?_
  exact (holds (key, value)).trans (otherHolds (key, value)).symm

/-- The rows from `lower` on, up to and including `upper` if there is one. -/
def range (map : Std.ExtTreeMap Key Value compare) (lower : Key)
    (upper : Option Key) : List (Key × Value) :=
  map.toList.filter fun row =>
    (compare lower row.1).isLE && upper.all fun last => (compare row.1 last).isLE

variable [LE Key] [Std.LawfulOrderOrd Key]

theorem mem_range :
    row ∈ range map lower upper ↔
      map[row.1]? = some row.2 ∧ lower ≤ row.1 ∧ ∀ last ∈ upper, row.1 ≤ last := by
  rw [range, List.mem_filter, Bool.and_eq_true, Std.isLE_compare, Option.all_eq_true]
  simp only [Std.isLE_compare, Option.mem_def]
  rw [Std.ExtTreeMap.mem_toList_iff_getElem?_eq_some]

omit [Std.LawfulEqOrd Key] [LE Key] [Std.LawfulOrderOrd Key] in
theorem sorted_range (map : Std.ExtTreeMap Key Value compare) (lower : Key) (upper : Option Key) :
    (range map lower upper).Pairwise fun row next => compare row.1 next.1 = .lt :=
  Std.ExtTreeMap.ordered_keys_toList.filter _

/-- A scan delivers the rows between its bounds, if these are sorted. -/
theorem Holds.range_eq [LT Key] [Std.LawfulOrderLT Key]
    (holds : Holds map rows) (sorted : between.Pairwise fun row next => row.1 < next.1)
    (sameRows : ∀ row, row ∈ between ↔ row ∈ rows ∧ lower ≤ row.1 ∧ ∀ last ∈ upper, row.1 ≤ last) :
    range map lower upper = between := by
  have rangeSorted := sorted_range map lower upper
  have sorted : between.Pairwise fun row next => compare row.1 next.1 = .lt :=
    sorted.imp Std.compare_eq_lt.mpr
  have nodup : ∀ {rows : List (Key × Value)},
      rows.Pairwise (fun row next => compare row.1 next.1 = .lt) → rows.Nodup := by
    intro rows sorted
    refine sorted.imp fun {row next} below same => ?_
    subst same
    cases below.symm.trans Std.ReflOrd.compare_self
  refine List.Perm.eq_of_pairwise (fun row next _ _ below above => ?_) rangeSorted sorted ?_
  · -- Two keys are not each below the other.
    rw [Std.OrientedOrd.eq_swap, above] at below
    cases below
  · rw [List.perm_ext_iff_of_nodup (nodup rangeSorted) (nodup sorted)]
    intro row
    rw [mem_range, sameRows, holds row]

/-- If those that are chosen of a sorted list begin with a row, then those that are
chosen behind it are the rest. -/
theorem filter_behind {rows : List Row} {behind : Row → Bool} (sorted : rows.Pairwise below)
    (irreflexive : ¬ below first first) (isFirst : rows.filter chosen = first :: rest)
    (isBehind : ∀ row ∈ rows, behind row = true ↔ chosen row = true ∧ below first row) :
    rows.filter behind = rest := by
  have among : ∀ row ∈ first :: rest, row ∈ rows ∧ chosen row = true := by
    intro row present
    rw [← isFirst] at present
    exact List.mem_filter.mp present
  have narrower : rows.filter behind = (rows.filter chosen).filter behind := by
    rw [List.filter_filter]
    refine List.filter_congr fun row present => ?_
    rw [Bool.eq_iff_iff, Bool.and_eq_true, isBehind row present]
    exact ⟨fun both => ⟨both, both.1⟩, And.left⟩
  have ahead : ∀ row ∈ rest, below first row := by
    have := sorted.filter chosen
    rw [isFirst] at this
    exact (List.pairwise_cons.mp this).1
  rw [narrower, isFirst, List.filter_cons_of_neg, List.filter_eq_self]
  · intro row present
    obtain ⟨inRows, isChosen⟩ := among row (List.mem_cons_of_mem _ present)
    exact (isBehind row inRows).mpr ⟨isChosen, ahead row present⟩
  · intro impossible
    have inRows := (among first List.mem_cons_self).1
    exact irreflexive ((isBehind first inRows).mp impossible).2

theorem compare_bytes_eq_lt {other : List UInt8} :
    compare bytes other = .lt ↔ bytes < other := by
  induction bytes generalizing other with
  | nil => cases other <;> simp
  | cons byte bytes rest =>
    cases other with
    | nil => simp
    | cons next other =>
      rw [List.compare_cons_cons, List.cons_lt_cons_iff, ← rest, Ordering.then_eq_lt,
        Std.compare_eq_lt, Std.compare_eq_iff_eq]

theorem isLE_compare_bytes {other : List UInt8} :
    (compare bytes other).isLE ↔ bytes ≤ other := by
  rw [← List.not_lt, ← compare_bytes_eq_lt, Std.OrientedOrd.eq_swap]
  cases compare other bytes <;> simp

/-- The order of byte strings is the one that the maps compare keys with. -/
theorem lawfulOrderOrd_bytes : Std.LawfulOrderOrd (List UInt8) where
  isLE_compare _ _ := isLE_compare_bytes
  isGE_compare bytes other := by
    rw [← isLE_compare_bytes, Std.OrientedOrd.eq_swap]
    cases compare other bytes <;> simp

end Mnesis.Foundation
