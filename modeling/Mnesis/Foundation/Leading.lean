import Mathlib.Data.List.Infix
import Mathlib.Data.List.Sort

/-!
# The first entries of a list

The first entries of a list whose sizes together are within a limit, and the first
entry in any case: each entry gets its ordinal and the size of all entries up to it.

A list is leading among rows with positions when it consists of the first of them: in
order, and with every row that is before one of its own.
-/

namespace Mnesis.Foundation

section

variable {α : Type}

/-- Entries with their ordinals and their running sizes. -/
def rankedBy (size : α → Nat) : Nat → Nat → List α → List (α × Nat × Nat)
  | _, _, [] => []
  | ordinal, total, entry :: rest =>
    (entry, ordinal + 1, total + size entry) ::
      rankedBy size (ordinal + 1) (total + size entry) rest

/-- Entries whose running size is within a limit, and the first one. -/
def withinBudget (limit : Nat) (ranked : List (α × Nat × Nat)) : List (α × Nat × Nat) :=
  ranked.filter fun item => item.2.2 ≤ limit || item.2.1 = 1

/-- Once the budget is used up nothing more is kept. -/
theorem withinBudget_eq_nil (started : 0 < ordinal) (full : limit < total) :
    withinBudget limit (rankedBy size ordinal total entries) = [] := by
  induction entries generalizing ordinal total with
  | nil => rfl
  | cons entry entries rest =>
    rw [rankedBy, withinBudget, List.filter_cons_of_neg]
    · exact rest (Nat.succ_pos ordinal) (Nat.lt_add_right _ full)
    · simp
      omega

/-- The entries that are kept are the first ones. -/
theorem map_withinBudget_isPrefix (limit ordinal total : Nat) (entries : List α) :
    (withinBudget limit (rankedBy size ordinal total entries)).map Prod.fst <+: entries := by
  induction entries generalizing ordinal total with
  | nil => exact List.prefix_refl _
  | cons entry entries rest =>
    rw [rankedBy, withinBudget]
    by_cases kept : total + size entry ≤ limit ∨ ordinal + 1 = 1
    · rw [List.filter_cons_of_pos (by simpa using kept), List.map_cons]
      exact (List.prefix_cons_inj _).mpr (rest (ordinal + 1) (total + size entry))
    · have empty : (rankedBy size (ordinal + 1) (total + size entry) entries).filter
          (fun item => item.2.2 ≤ limit || item.2.1 = 1) = [] :=
        withinBudget_eq_nil (Nat.succ_pos ordinal) (by omega)
      rw [List.filter_cons_of_neg (by simpa using kept), empty]
      exact List.nil_prefix

/-- The first entry is kept. -/
theorem withinBudget_eq_nil_iff :
    withinBudget limit (rankedBy size 0 0 entries) = [] ↔ entries = [] := by
  cases entries with
  | nil => simp [rankedBy, withinBudget]
  | cons entry entries => simp [rankedBy, withinBudget]

/-- A page of at most some rows within a limit holds the headers of the first entries, and
at least of one if there is any. -/
theorem exists_withinBudget (positive : 0 < rows) (size : α → Nat)
    (limit : Nat) (header : β → α) (entries : List β) :
    ∃ first, first <+: entries ∧ (first = [] → entries = []) ∧
      (withinBudget limit (rankedBy size 0 0 ((entries.map header).take rows))).map Prod.fst =
        first.map header := by
  have isPrefix : (withinBudget limit (rankedBy size 0 0 ((entries.take rows).map header))).map
      Prod.fst <+: (entries.take rows).map header := map_withinBudget_isPrefix limit 0 0 _
  have kept := List.prefix_iff_eq_take.mp isPrefix
  rw [← List.map_take, List.take_take] at kept
  rw [← List.map_take]
  refine ⟨_, List.take_prefix _ _, fun empty => ?_, kept⟩
  rw [empty, List.map_nil, List.map_eq_nil_iff] at kept
  have noRows := withinBudget_eq_nil_iff.mp kept
  rw [List.map_eq_nil_iff, List.take_eq_nil_iff] at noRows
  exact noRows.resolve_left (Nat.ne_of_gt positive)

end

variable {Row Position : Type} [LinearOrder Position]

/-- A list of the first among some rows. -/
structure Leading (position : Row → Position) (among : Row → Prop) (rows : List Row) : Prop where
  members : ∀ row ∈ rows, among row
  increasing : rows.Pairwise fun row later => position row < position later
  closed : ∀ row, among row → ∀ later ∈ rows, position row < position later → row ∈ rows

namespace Leading

variable {position : Row → Position} {among : Row → Prop}

theorem nil : Leading position among [] where
  members _ absent := by cases absent
  increasing := .nil
  closed _ _ _ absent := by cases absent

/-- Among other rows, if those up to a row of the list are the same. -/
theorem congr (leading : Leading position among rows) (kept : ∀ row ∈ rows, others row)
    (same : ∀ row, others row → ∀ later ∈ rows, position row < position later → among row) :
    Leading position others rows where
  members := kept
  increasing := leading.increasing
  closed row isOther later present before :=
    leading.closed row (same row isOther later present before) later present before

/-- The first row of a list. -/
theorem head (leading : Leading position among (row :: rows)) : Leading position among [row] where
  members := List.forall_mem_singleton.mpr (leading.members row List.mem_cons_self)
  increasing := List.pairwise_singleton _ _
  closed other isOther later present before := by
    cases List.mem_singleton.mp present
    have either := leading.closed other isOther row List.mem_cons_self before
    rcases List.mem_cons.mp either with rfl | present
    · exact List.mem_singleton_self other
    · exact absurd (List.rel_of_pairwise_cons leading.increasing present) (lt_asymm before)

/-- Behind its first row a list is leading among the rows behind that row. -/
theorem tail (leading : Leading position among (row :: rows)) :
    Leading position (fun other => among other ∧ position row < position other) rows where
  members other present :=
    ⟨leading.members other (List.mem_cons_of_mem _ present),
      List.rel_of_pairwise_cons leading.increasing present⟩
  increasing := leading.increasing.tail
  closed other isOther later present before := by
    have either := leading.closed other isOther.1 later (List.mem_cons_of_mem _ present) before
    refine (List.mem_cons.mp either).resolve_left ?_
    rintro rfl
    exact lt_irrefl _ isOther.2

/-- One more row, behind which there is none that is not in the list. -/
theorem snoc (leading : Leading position among rows) (isNext : among next)
    (behind : ∀ row ∈ rows, position row < position next)
    (complete : ∀ row, among row → position row < position next → row ∈ rows) :
    Leading position among (rows ++ [next]) where
  members := List.forall_mem_append.mpr ⟨leading.members, List.forall_mem_singleton.mpr isNext⟩
  increasing := by
    refine List.pairwise_append.mpr ⟨leading.increasing, List.pairwise_singleton _ _, ?_⟩
    intro row present other isOther
    cases List.mem_singleton.mp isOther
    exact behind row present
  closed row isRow later present before := by
    apply List.mem_append_left
    rcases List.mem_append.mp present with present | isLater
    · exact leading.closed row isRow later present before
    · cases List.mem_singleton.mp isLater
      exact complete row isRow before

/-- The first rows of a sorted list, if no two of them have one position. -/
theorem of_prefix {all : List Row}
    (isPrefix : rows <+: all.insertionSort fun row other => position row ≤ position other)
    (distinct : (all.map position).Nodup) :
    Leading position (· ∈ all) rows := by
  obtain ⟨rest, isSorted⟩ := isPrefix
  have sorted := List.pairwise_insertionSort (fun row other => position row ≤ position other) all
  have perm := List.perm_insertionSort (fun row other => position row ≤ position other) all
  rw [← isSorted] at sorted perm
  have strict : (rows ++ rest).Pairwise fun row later => position row < position later := by
    have nodup : (rows ++ rest).Pairwise fun row later => position row ≠ position later :=
      List.pairwise_map.mp ((perm.map position).nodup_iff.mpr distinct)
    exact (sorted.and nodup).imp fun both => lt_of_le_of_ne both.1 both.2
  obtain ⟨increasing, -, across⟩ := List.pairwise_append.mp strict
  refine ⟨fun row present => perm.subset (List.mem_append_left _ present), increasing, ?_⟩
  intro row isRow later present before
  refine (List.mem_append.mp (perm.mem_iff.mpr isRow)).resolve_right fun inRest => ?_
  exact lt_asymm before (across later present row inRest)

end Leading

end Mnesis.Foundation
