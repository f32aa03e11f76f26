import Mathlib.Data.List.Infix

/-!
# Diagnostic labels

An error carries a short text of a bounded number of bytes.  The text is filled from the
pieces that a value writes when it is displayed.  A piece that does not fit is cut where a
character ends, and at last room is made for an ellipsis.  Both cuts together are the best
cut of the whole text.
-/

namespace Mnesis.Kernel

/-- A text by its characters. -/
abbrev Text := List Char

namespace Text

/-- The number of bytes of a text in UTF-8. -/
def len (text : Text) : Nat := (String.ofList text).utf8ByteSize

/-- The first bytes of a text.  It is a panic to cut a text within a character. -/
def sliceTo : Text → Nat → Option Text
  | _, 0 => some []
  | [], _ + 1 => none
  | char :: text, position + 1 =>
    if char.utf8Size ≤ position + 1 then
      (sliceTo text (position + 1 - char.utf8Size)).map (char :: ·)
    else
      none

/-- A character ends, and another one may begin, at a position. -/
def isCharBoundary (text : Text) (position : Nat) : Bool := (sliceTo text position).isSome

/-- The last boundary at or before a position. -/
def lastBoundary (text : Text) : Nat → Nat
  | 0 => 0
  | position + 1 =>
    if isCharBoundary text (position + 1) then position + 1 else lastBoundary text position

/-- The last boundary at or before a limit. -/
def truncateAtCharBoundary (text : Text) (limit : Nat) : Nat :=
  if len text ≤ limit then len text else lastBoundary text limit

/-- The characters that fit into a number of bytes. -/
def fitting (limit : Nat) : Text → Text
  | [] => []
  | char :: text =>
    if char.utf8Size ≤ limit then char :: fitting (limit - char.utf8Size) text else []

@[simp] theorem len_nil : len [] = 0 := by
  simp [len]

@[simp] theorem len_cons (char : Char) (text : Text) :
    len (char :: text) = char.utf8Size + len text := by
  simp [len, String.ofList_cons, String.utf8ByteSize_append]

@[simp] theorem len_append (first second : Text) :
    len (first ++ second) = len first + len second := by
  simp [len, String.ofList_append]

/-- The characters of a text that fit into a limit, if it is cut where a character ends. -/
structure Longest (limit : Nat) (text kept : Text) : Prop where
  leads : kept <+: text
  fits : len kept ≤ limit
  most : ∀ other, other <+: text → len other ≤ limit → other <+: kept

theorem len_le_of_prefix (leads : first <+: second) : len first ≤ len second := by
  obtain ⟨rest, rfl⟩ := leads
  simp

/-- The characters that fit are the longest prefix within the limit. -/
theorem longest_fitting (limit : Nat) (text : Text) : Longest limit text (fitting limit text) := by
  induction text generalizing limit with
  | nil => exact ⟨List.prefix_rfl, by simp [fitting], fun other leads _ => leads⟩
  | cons char text ih =>
    rw [fitting]
    split
    next fits =>
      obtain ⟨leads, short, most⟩ := ih (limit - char.utf8Size)
      refine ⟨List.prefix_cons_inj char |>.mpr leads, by rw [len_cons]; omega, ?_⟩
      intro other otherLeads otherFits
      cases other with
      | nil => exact List.nil_prefix
      | cons first other =>
        obtain ⟨rfl, rest⟩ := List.cons_prefix_cons.mp otherLeads
        rw [len_cons] at otherFits
        exact List.prefix_cons_inj first |>.mpr (most other rest (by omega))
    next large =>
      refine ⟨List.nil_prefix, by simp, ?_⟩
      intro other otherLeads otherFits
      cases other with
      | nil => exact List.prefix_rfl
      | cons first other =>
        obtain ⟨rfl, -⟩ := List.cons_prefix_cons.mp otherLeads
        rw [len_cons] at otherFits
        omega

theorem Longest.eq (longest : Longest limit text kept)
    (isLongest : Longest limit text other) : kept = other :=
  (isLongest.most kept longest.leads longest.fits).eq_of_length_le
    (longest.most other isLongest.leads isLongest.fits).length_le

theorem fitting_of_le (fits : len text ≤ limit) : fitting limit text = text :=
  (longest_fitting limit text).eq ⟨List.prefix_rfl, fits, fun _ leads _ => leads⟩

/-- Behind a character that does not fit nothing matters. -/
theorem fitting_append_of_lt (large : limit < len first)
    (second : Text) : fitting limit (first ++ second) = fitting limit first := by
  obtain ⟨leads, fits, most⟩ := longest_fitting limit first
  have whole := longest_fitting limit (first ++ second)
  refine whole.eq ⟨leads.trans (List.prefix_append _ _), fits, ?_⟩
  intro other otherLeads otherFits
  obtain inFirst | firstIn :=
    List.prefix_or_prefix_of_prefix otherLeads (List.prefix_append first second)
  · exact most other inFirst otherFits
  · have := len_le_of_prefix firstIn
    omega

theorem fitting_append_of_le (fits : len first ≤ limit) (second : Text) :
    fitting limit (first ++ second) = first ++ fitting (limit - len first) second := by
  induction first generalizing limit with
  | nil => simp
  | cons char first ih =>
    rw [len_cons] at fits
    rw [List.cons_append, fitting, if_pos (by omega), ih (by omega), len_cons, Nat.sub_sub]
    rfl

/-- Two cuts are one cut at the smaller limit. -/
theorem fitting_fitting (smaller : small ≤ limit) (text : Text) :
    fitting small (fitting limit text) = fitting small text := by
  obtain ⟨leads, fits, most⟩ := longest_fitting small (fitting limit text)
  refine Longest.eq ⟨leads.trans (longest_fitting limit text).leads, fits, ?_⟩
    (longest_fitting small text)
  intro other otherLeads otherFits
  exact most other ((longest_fitting limit text).most other otherLeads (by omega)) otherFits

/-- A text is sliced where a character ends, and nowhere else. -/
theorem sliceTo_eq_some :
    sliceTo text position = some kept ↔ kept <+: text ∧ len kept = position := by
  induction text, position using sliceTo.induct generalizing kept with
  | case1 text =>
    have isSlice : sliceTo text 0 = some [] := by
      cases text <;> rfl
    rw [isSlice, Option.some.injEq]
    constructor
    · rintro rfl
      exact ⟨List.nil_prefix, len_nil⟩
    · rintro ⟨-, isEmpty⟩
      cases kept with
      | nil => rfl
      | cons char kept =>
        have := char.utf8Size_pos
        rw [len_cons] at isEmpty
        omega
  | case2 position =>
    simp only [sliceTo, List.prefix_nil, reduceCtorEq, false_iff, not_and]
    rintro rfl
    simp
  | case3 char text position fits ih =>
    rw [sliceTo, if_pos fits]
    cases kept with
    | nil => simp
    | cons first kept =>
      simp only [Option.map_eq_some_iff, List.cons.injEq, ih, List.cons_prefix_cons, len_cons]
      constructor
      · rintro ⟨_, ⟨leads, isLength⟩, rfl, rfl⟩
        exact ⟨⟨rfl, leads⟩, by omega⟩
      · rintro ⟨⟨rfl, leads⟩, isLength⟩
        exact ⟨kept, ⟨leads, by omega⟩, rfl, rfl⟩
  | case4 char text position large =>
    rw [sliceTo, if_neg large]
    cases kept with
    | nil => simp
    | cons first kept =>
      simp only [reduceCtorEq, List.cons_prefix_cons, len_cons, false_iff, not_and]
      rintro ⟨rfl, -⟩
      omega

/-- The search for a boundary finds the longest cut. -/
theorem lastBoundary_eq (text : Text) (limit : Nat) :
    lastBoundary text limit = len (fitting limit text) := by
  induction limit with
  | zero => exact (Nat.le_zero.mp (longest_fitting 0 text).fits).symm
  | succ limit ih =>
    obtain ⟨leads, fits, most⟩ := longest_fitting (limit + 1) text
    rw [lastBoundary]
    split
    next boundary =>
      obtain ⟨kept, isKept⟩ := Option.isSome_iff_exists.mp boundary
      obtain ⟨keptLeads, isLength⟩ := sliceTo_eq_some.mp isKept
      have := len_le_of_prefix (most kept keptLeads isLength.le)
      omega
    next inside =>
      -- No character ends at the limit, so that nothing more fits than before it.
      have short : len (fitting (limit + 1) text) ≠ limit + 1 := by
        intro isLength
        exact inside (Option.isSome_iff_exists.mpr ⟨_, sliceTo_eq_some.mpr ⟨leads, isLength⟩⟩)
      rw [ih, ← fitting_fitting (Nat.le_add_right limit 1) text, fitting_of_le (by omega)]

theorem sliceTo_truncateAtCharBoundary (text : Text) (limit : Nat) :
    sliceTo text (truncateAtCharBoundary text limit) = some (fitting limit text) := by
  rw [truncateAtCharBoundary]
  split
  next fits =>
    rw [fitting_of_le fits]
    exact sliceTo_eq_some.mpr ⟨List.prefix_rfl, rfl⟩
  next =>
    rw [lastBoundary_eq]
    exact sliceTo_eq_some.mpr ⟨(longest_fitting limit text).leads, rfl⟩

end Text

open Text

/-- The largest capacity of a buffer, `u32::MAX`. -/
def maxCapacity : Nat := 4294967295

/-- What labels use of `arrayvec::ArrayString`, a string buffer of fixed capacity.  No result is
a panic; a text that is not pushed leaves the buffer as it is. -/
structure ArrayString where
  Buffer : Nat → Type
  new : (capacity : Nat) → Option (Buffer capacity)
  asStr : {capacity : Nat} → Buffer capacity → Text
  tryPushStr : {capacity : Nat} → Buffer capacity → Text → Option (Buffer capacity)
  truncate : {capacity : Nat} → Buffer capacity → Nat → Option (Buffer capacity)

/-- The documented behaviour of the buffer: it is not made with a larger capacity than
`u32::MAX`, a text is pushed if there is room for it, and a buffer is cut only where a
character ends. -/
structure ArrayString.Lawful (A : ArrayString) : Prop where
  new_eq : ∀ capacity,
    (A.new capacity).map A.asStr = if capacity ≤ maxCapacity then some [] else none
  push_eq : ∀ {capacity} (buf : A.Buffer capacity) text,
    (A.tryPushStr buf text).map A.asStr =
      if len text ≤ capacity - len (A.asStr buf) then some (A.asStr buf ++ text) else none
  truncate_eq : ∀ {capacity} (buf : A.Buffer capacity) newLen, newLen ≤ len (A.asStr buf) →
    (A.truncate buf newLen).map A.asStr = sliceTo (A.asStr buf) newLen

/-- The truncation marker. -/
def ellipsis : Text := ['…']

/-- What was written so far, and whether something was dropped. -/
structure Filler (A : ArrayString) (capacity : Nat) where
  buf : A.Buffer capacity
  truncated : Bool

section Labels

variable {A : ArrayString}

/-- Replace the end of a text by an ellipsis. -/
def appendEllipsis (buf : A.Buffer capacity) : Option (A.Buffer capacity) :=
  if capacity < len ellipsis then
    some buf
  else do
    let target := capacity - len ellipsis
    let cut := truncateAtCharBoundary (A.asStr buf) target
    let buf ← A.truncate buf cut
    return (A.tryPushStr buf ellipsis).getD buf

namespace Filler

/-- Nothing was written. -/
def new (A : ArrayString) (capacity : Nat) : Option (Filler A capacity) := do
  return ⟨← A.new capacity, false⟩

/-- The label of what was written. -/
def finish (filler : Filler A capacity) : Option (A.Buffer capacity) :=
  if filler.truncated then appendEllipsis filler.buf else some filler.buf

/-- Write a piece.  It is a panic if the text is larger than its capacity. -/
def writeStr (filler : Filler A capacity) (text : Text) : Option (Filler A capacity) :=
  if filler.truncated then
    some filler
  else do
    guard (len (A.asStr filler.buf) ≤ capacity)
    let remaining := capacity - len (A.asStr filler.buf)
    if len text ≤ remaining then
      return { filler with buf := (A.tryPushStr filler.buf text).getD filler.buf }
    let head ← sliceTo text (truncateAtCharBoundary text remaining)
    return { buf := (A.tryPushStr filler.buf head).getD filler.buf, truncated := true }

/-- What is left of a text in a label. -/
structure Holds (filler : Filler A capacity) (text : Text) : Prop where
  buf : A.asStr filler.buf = fitting capacity text
  truncated : filler.truncated = decide (capacity < len text)

end Filler

/-- A text that fits is pushed. -/
theorem ArrayString.Lawful.asStr_push (lawful : A.Lawful) {buf : A.Buffer capacity}
    (fits : len text ≤ capacity - len (A.asStr buf)) :
    A.asStr ((A.tryPushStr buf text).getD buf) = A.asStr buf ++ text := by
  have pushed := lawful.push_eq buf text
  rw [if_pos fits] at pushed
  obtain ⟨next, isNext, isText⟩ := Option.map_eq_some_iff.mp pushed
  rw [isNext]
  exact isText

/-- Writing a piece goes on with the text where it was left. -/
theorem Filler.Holds.writeStr (lawful : A.Lawful) {filler : Filler A capacity}
    (holds : filler.Holds written) (text : Text) :
    ∃ next, filler.writeStr text = some next ∧ next.Holds (written ++ text) := by
  obtain ⟨isBuf, isTruncated⟩ := holds
  rw [Filler.writeStr, isTruncated]
  by_cases large : capacity < len written
  · have larger : capacity < len (written ++ text) := by rw [len_append]; omega
    refine ⟨filler, if_pos (decide_eq_true large), ?_, ?_⟩
    · rw [isBuf, fitting_append_of_lt large]
    · rw [isTruncated, decide_eq_true large, decide_eq_true larger]
  · have fits := Nat.not_lt.mp large
    rw [fitting_of_le fits] at isBuf
    by_cases short : len text ≤ capacity - len written
    · have room : len text ≤ capacity - len (A.asStr filler.buf) := isBuf.symm ▸ short
      refine ⟨⟨(A.tryPushStr filler.buf text).getD filler.buf, filler.truncated⟩, ?_, ?_, ?_⟩
      · simp [isTruncated, large, isBuf, fits, short, guard]
      · rw [lawful.asStr_push room, isBuf, fitting_append_of_le fits, fitting_of_le short]
      · rw [isTruncated, len_append]
        simp only [decide_eq_decide]
        omega
    · let head := fitting (capacity - len written) text
      have room : len head ≤ capacity - len (A.asStr filler.buf) := by
        rw [isBuf]
        exact (longest_fitting (capacity - len written) text).fits
      refine ⟨⟨(A.tryPushStr filler.buf head).getD filler.buf, true⟩, ?_,
        (lawful.asStr_push room).trans ?_, ?_⟩
      · simp [large, isBuf, fits, short, guard, sliceTo_truncateAtCharBoundary, head]
      · rw [isBuf, fitting_append_of_le fits]
      · rw [len_append]
        symm
        simp only [decide_eq_true_eq]
        omega

end Labels

end Mnesis.Kernel
