import Mathlib.Logic.Function.Basic

/-!
# Entries that change in place

A register holds a value or nothing, and a write replaces all of it.  A list that only
grows, and whose entries are replaced in place, gives each entry a lasting index.  These
are the entries after each kind of change.
-/

namespace Mnesis.Foundation

/-- The values of registers. -/
abbrev Registers (Key Value : Type) := Key → Option Value

variable {Key Value : Type} [DecidableEq Key]

namespace Registers

/-- Store a value. -/
def put (registers : Registers Key Value) (key : Key) (value : Value) : Registers Key Value :=
  Function.update registers key (some value)

@[simp] theorem put_self (registers : Registers Key Value) (key : Key) (value : Value) :
    registers.put key value key = some value :=
  Function.update_self ..

end Registers

variable {α : Type} {entries : List α} {index : Nat}

/-- The entries after one more was added at the end. -/
theorem getElem?_concat_eq_some :
    (entries ++ [added])[index]? = some entry ↔
      entries[index]? = some entry ∨ index = entries.length ∧ added = entry := by
  rcases Nat.lt_trichotomy index entries.length with inside | rfl | outside
  · rw [List.getElem?_append_left inside]
    simp only [Nat.ne_of_lt inside, false_and, or_false]
  · simp
  · have beyond : ¬ index < entries.length := Nat.not_lt_of_gt outside
    rw [List.getElem?_append_right (Nat.le_of_lt outside)]
    simp only [Nat.ne_of_gt outside, false_and, or_false]
    rw [List.getElem?_eq_none (Nat.le_of_lt outside), List.getElem?_eq_none]
    simp only [List.length_singleton]
    omega

/-- An entry keeps its index. -/
theorem getElem?_concat_of_some (present : entries[index]? = some entry) (added : α) :
    (entries ++ [added])[index]? = some entry :=
  getElem?_concat_eq_some.mpr (.inl present)

/-- The entries after one was replaced. -/
theorem getElem?_set_eq_some (present : entries[place]? = some old) :
    (entries.set place new)[index]? = some entry ↔
      index = place ∧ new = entry ∨ index ≠ place ∧ entries[index]? = some entry := by
  obtain ⟨inside, _⟩ := List.getElem?_eq_some_iff.mp present
  by_cases same : index = place
  · subst same
    simp [List.getElem?_set_self inside]
  · simp [List.getElem?_set_ne (Ne.symm same), same]

/-- The entries after one was changed. -/
theorem getElem?_modify_eq_some :
    (entries.modify place change)[index]? = some entry ↔
      ∃ old, entries[index]? = some old ∧ entry = if place = index then change old else old := by
  rw [List.getElem?_modify]
  cases entries[index]? with
  | none => simp
  | some old => simp [eq_comm]

/-- How many entries of a kind there are after one was replaced. -/
theorem countP_set_add (kind : α → Bool) (present : entries[place]? = some old) (new : α) :
    (entries.set place new).countP kind + (kind old).toNat =
      entries.countP kind + (kind new).toNat := by
  obtain ⟨inside, isOld⟩ := List.getElem?_eq_some_iff.mp present
  rw [List.countP_set inside, isOld]
  cases isKind : kind old with
  | false => cases kind new <;> rfl
  | true =>
    have counted : 0 < entries.countP kind :=
      List.countP_pos_iff.mpr ⟨old, List.mem_of_getElem? present, isKind⟩
    cases kind new <;> simp <;> omega

end Mnesis.Foundation
