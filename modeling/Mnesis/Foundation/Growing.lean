import Mathlib.Data.List.Infix
import Mathlib.Data.List.Sort
import Mathlib.Order.Lattice

/-!
# Reading a growing list

Rows have increasing positions, and further rows are added at the end.  A reader that
goes on behind the last row it was given, in one scan or in several that were opened
at different moments, is given the rows behind its start in order and without a gap.

A reader by pages takes a page that is not full for the last one.  At its end it has
passed the rows that were there when it read that page.
-/

namespace Mnesis.Foundation

section

variable {Row Position : Type} {position : Row → Position}

/-- Where a reader stands that started at a place and was given rows. -/
def placeAfter (position : Row → Position) (start : Option Position) (given : List Row) :
    Option Position :=
  (given.getLast?.map position).or start

@[simp] theorem placeAfter_nil (start : Option Position) :
    placeAfter position start [] = start := by
  simp [placeAfter]

@[simp] theorem placeAfter_concat (start : Option Position) (given : List Row) (row : Row) :
    placeAfter position start (given ++ [row]) = some (position row) := by
  simp [placeAfter]

variable [LinearOrder Position]

/-- Positions increase. -/
abbrev Increasing (position : Row → Position) (rows : List Row) : Prop :=
  rows.Pairwise fun row later => position row < position later

/-- Rows with increasing positions are known by which ones they are. -/
theorem increasing_ext (increasing : Increasing position rows)
    (othersIncreasing : Increasing position others) (same : ∀ row, row ∈ rows ↔ row ∈ others) :
    rows = others := by
  have : Std.Irrefl fun row later : Row => position row < position later :=
    ⟨fun row => lt_irrefl (position row)⟩
  have : Std.Antisymm fun row later : Row => position row < position later :=
    ⟨fun _ _ before behind => absurd behind (lt_asymm before)⟩
  exact increasing.eq_of_mem_iff othersIncreasing same

/-- The rows strictly behind a place; without a place, all of them. -/
def behind (position : Row → Position) (place : Option Position) (rows : List Row) : List Row :=
  rows.filter fun row => place.all fun bound => bound < position row

theorem mem_behind :
    row ∈ behind position place rows ↔
      row ∈ rows ∧ ∀ bound, place = some bound → bound < position row := by
  cases place <;> simp [behind]

theorem behind_of_grown (grown : rows <+: more) (place : Option Position) :
    behind position place rows <+: behind position place more :=
  grown.filter _

/-- Behind a row of the rows behind a place lie the rest of them. -/
theorem behind_row (increasing : Increasing position rows)
    (isBehind : behind position start rows = front ++ row :: rest) :
    behind position (some (position row)) rows = rest := by
  have split : Increasing position (front ++ row :: rest) := by
    rw [← isBehind]
    exact increasing.filter _
  obtain ⟨_, fromRow, across⟩ := List.pairwise_append.mp split
  have present : row ∈ behind position start rows := by simp [isBehind]
  have narrower : behind position (some (position row)) rows =
      behind position (some (position row)) (behind position start rows) := by
    simp only [behind, List.filter_filter]
    apply List.filter_congr
    intro other _
    by_cases after : position row < position other
    · have behindStart : start.all (fun bound => decide (bound < position other)) = true := by
        rw [Option.all_eq_true]
        intro bound isBound
        exact decide_eq_true (((mem_behind.mp present).2 bound isBound).trans after)
      simp [after, behindStart]
    · simp [after]
  have empty : behind position (some (position row)) front = [] := by
    rw [behind, List.filter_eq_nil_iff]
    intro other earlier
    simpa using (across other earlier row List.mem_cons_self).le
  have all : behind position (some (position row)) rest = rest := by
    rw [behind, List.filter_eq_self]
    intro other later
    simpa using List.rel_of_pairwise_cons fromRow later
  rw [narrower, isBehind]
  rw [behind, List.filter_append, List.filter_cons_of_neg (by simp)]
  rw [← behind, ← behind, empty, all, List.nil_append]

/-- What was given, and then what lies behind it. -/
theorem behind_eq_append
    (increasing : Increasing position rows) (first : given <+: behind position start rows) :
    behind position start rows =
      given ++ behind position (placeAfter position start given) rows := by
  obtain ⟨rest, isBehind⟩ := first
  rcases List.eq_nil_or_concat' given with rfl | ⟨front, row, rfl⟩
  · simp
  · rw [List.append_assoc, List.singleton_append] at isBehind
    rw [placeAfter_concat, behind_row increasing isBehind.symm, ← isBehind, List.append_assoc,
      List.singleton_append]

/-- Behind the last of the first rows lie the others. -/
theorem drop_eq_behind (increasing : Increasing position rows) (count : Nat) :
    rows.drop count = behind position ((rows.take count).getLast?.map position) rows := by
  have all : behind position none rows = rows := by simp [behind]
  have first : rows.take count <+: behind position none rows := by
    rw [all]
    exact List.take_prefix _ _
  have split := behind_eq_append increasing first
  rw [all, placeAfter, Option.or_none] at split
  nth_rewrite 1 [← List.take_append_drop count rows] at split
  exact List.append_cancel_left split

/-- A scan of the rows behind a place, which was opened when some rows were there and
has given the last ones of what its reader was given. -/
structure Scanning (position : Row → Position) (start : Option Position) (given opened : List Row)
    (place : Option Position) (taken : Nat) : Prop where
  resumed : ∃ already, already <+: given ∧ already.length + taken = given.length ∧
    place = placeAfter position start already ∧ already <+: behind position start opened

namespace Scanning

/-- A reader opens a scan where it stands. -/
theorem resume (first : given <+: behind position start opened) :
    Scanning position start given opened (placeAfter position start given) 0 :=
  ⟨given, List.prefix_rfl, rfl, rfl, first⟩

/-- The next row of a scan is the next row for its reader. -/
theorem next (scanning : Scanning position start given opened place taken)
    (increasing : Increasing position rows) (first : given <+: behind position start rows)
    (isNext : (behind position place rows)[taken]? = some row) :
    given ++ [row] <+: behind position start rows ∧
      Scanning position start (given ++ [row]) opened place (taken + 1) := by
  obtain ⟨already, early, counted, rfl, known⟩ := scanning.resumed
  have isBehind := behind_eq_append increasing (early.trans first)
  have found : (behind position start rows)[given.length]? = some row := by
    rw [isBehind, List.getElem?_append_right (by omega), ← isNext]
    congr 1
    omega
  constructor
  · obtain ⟨rest, isRest⟩ := first
    rw [← isRest, List.getElem?_append_right (Nat.le_refl _), Nat.sub_self] at found
    obtain ⟨later, rfl⟩ := List.head?_eq_some_iff.mp (List.head?_eq_getElem? ▸ found)
    rw [← isRest]
    exact ⟨later, by simp⟩
  · refine ⟨already, early.trans (List.prefix_append _ _), ?_, rfl, known⟩
    rw [List.length_append, List.length_singleton, ← counted, Nat.add_assoc]

end Scanning

end

variable {Row : Type}

/-- How many rows a reader has passed, the rows it has read ahead, and whether its
last page was not full. -/
structure PageReader (Row : Type) where
  place : Nat
  ahead : List Row
  done : Bool

namespace PageReader

/-- A reader that has not read anything yet. -/
def fresh (start : Nat) : PageReader Row := ⟨start, [], false⟩

/-- The next row has to come from another page. -/
def reads (reader : PageReader Row) : Bool := reader.ahead.isEmpty && !reader.done

/-- Read a page. -/
def refill (size : Nat) (rows : List Row) (reader : PageReader Row) : PageReader Row where
  place := reader.place
  ahead := (rows.drop reader.place).take size
  done := ((rows.drop reader.place).take size).length < size

/-- Take a row that was read ahead. -/
def take : PageReader Row → Option (Row × PageReader Row)
  | ⟨_, [], _⟩ => none
  | ⟨place, row :: ahead, done⟩ => some (row, ⟨place + 1, ahead, done⟩)

/-- The next row. -/
def next (size : Nat) (rows : List Row) (reader : PageReader Row) :
    Option (Row × PageReader Row) :=
  if reader.reads then (reader.refill size rows).take else reader.take

/-- The list as it was at the last page, when a row has been asked for. -/
def pageAfter (rows page : List Row) (reader : PageReader Row) : List Row :=
  if reader.reads then rows else page

/-- What is read ahead are the next rows of the page's list, and all of them if the
page was not full. -/
structure At (page : List Row) (reader : PageReader Row) : Prop where
  ahead : reader.ahead <+: page.drop reader.place
  done : reader.done = true → reader.ahead = page.drop reader.place

variable {reader after : PageReader Row}

theorem at_refill (size : Nat) (rows : List Row) (reader : PageReader Row) :
    (reader.refill size rows).At rows where
  ahead := List.take_prefix _ _
  done short := by
    have short := of_decide_eq_true short
    rw [List.length_take] at short
    exact List.take_of_length_le (by omega)

/-- Taking a row passes it. -/
theorem At.take_eq_some (at_ : reader.At page) (taken : reader.take = some (row, after)) :
    page.drop reader.place = row :: page.drop after.place ∧
      after.place = reader.place + 1 ∧ after.At page := by
  obtain ⟨place, ahead, done⟩ := reader
  cases ahead with
  | nil => cases taken
  | cons first ahead =>
    cases taken
    obtain ⟨rest, split⟩ := at_.ahead
    have behind : page.drop (place + 1) = ahead ++ rest := by
      rw [← List.tail_drop, ← split, List.cons_append, List.tail_cons]
    refine ⟨?_, rfl, ?_, fun short => ?_⟩
    · rw [← split, behind, List.cons_append]
    · exact ⟨rest, behind.symm⟩
    · have all := at_.done short
      rw [← split, List.cons_append] at all
      rw [behind]
      exact (List.cons.inj all).2

/-- There is nothing to take when nothing was read ahead. -/
theorem take_eq_none (taken : reader.take = none) : reader.ahead = [] := by
  obtain ⟨place, ahead, done⟩ := reader
  cases ahead with
  | nil => rfl
  | cons first ahead => cases taken

/-- The next row is the one behind those that were passed. -/
theorem At.next_eq_some (at_ : reader.At page) (taken : reader.next size rows = some (row, after)) :
    (reader.pageAfter rows page).drop reader.place =
        row :: (reader.pageAfter rows page).drop after.place ∧
      after.place = reader.place + 1 ∧ after.At (reader.pageAfter rows page) := by
  unfold next at taken
  unfold pageAfter
  split at taken
  next reads =>
    rw [if_pos reads]
    exact (at_refill size rows reader).take_eq_some taken
  next ahead =>
    rw [if_neg ahead]
    exact at_.take_eq_some taken

theorem prefix_pageAfter (grown : page <+: rows) (reader : PageReader Row) :
    page <+: reader.pageAfter rows page ∧ reader.pageAfter rows page <+: rows := by
  unfold pageAfter
  split
  next => exact ⟨grown, List.prefix_rfl⟩
  next => exact ⟨List.prefix_rfl, grown⟩

/-- Which row is the next one. -/
theorem At.getElem?_of_next (at_ : reader.At page) (grown : page <+: rows)
    (taken : reader.next size rows = some (row, after)) :
    rows[reader.place]? = some row := by
  have isNext := congrArg List.head? (at_.next_eq_some taken).1
  rw [List.head?_drop, List.head?_cons] at isNext
  obtain ⟨rest, isRows⟩ := (prefix_pageAfter grown reader).2
  rw [← isRows, List.getElem?_append_left (List.getElem?_eq_some_iff.mp isNext).1]
  exact isNext

/-- Without a next row all rows were passed. -/
theorem At.next_eq_none (positive : 0 < size) (at_ : reader.At page)
    (ended : reader.next size rows = none) :
    (reader.pageAfter rows page).drop reader.place = [] := by
  unfold next at ended
  unfold pageAfter
  split at ended
  next reads =>
    have empty : (rows.drop reader.place).take size = [] := take_eq_none ended
    rw [List.take_eq_nil_iff] at empty
    rw [if_pos reads]
    exact empty.resolve_left (Nat.ne_of_gt positive)
  next ahead =>
    have empty : reader.ahead = [] := take_eq_none ended
    have short : reader.done = true := by simpa [reads, empty] using ahead
    rw [if_neg ahead, ← at_.done short, empty]

/-- What a reader from `start` on has given, where the list was the page's list at its
last page.  A reader that has ended has given all rows of that list. -/
structure Gives (start : Nat) (page given : List Row)
    (reader : Option (PageReader Row)) : Prop where
  leading : given <+: page.drop start
  going : ∀ current ∈ reader, current.At page ∧ current.place = start + given.length
  ended : reader = none → given = page.drop start

/-- What has been given is in front of what is still to come. -/
theorem Gives.drop_eq (gives : Gives start page given (some reader)) (grown : page <+: rows) :
    rows.drop start = given ++ rows.drop reader.place := by
  obtain ⟨_, place⟩ := gives.going reader rfl
  obtain ⟨rest, split⟩ := gives.leading.trans (grown.drop start)
  rw [place, ← List.drop_drop, ← split, List.drop_left]

/-- One more row. -/
theorem Gives.more (gives : Gives start page given (some reader)) (grown : page <+: rows)
    (taken : reader.next size rows = some (row, after)) :
    Gives start (reader.pageAfter rows page) (given ++ [row]) (some after) := by
  obtain ⟨at_, place⟩ := gives.going reader rfl
  obtain ⟨isNext, placeAfter, atAfter⟩ := at_.next_eq_some taken
  have split := gives.drop_eq (prefix_pageAfter grown reader).1
  refine ⟨?_, ?_, fun impossible => by cases impossible⟩
  · rw [split, isNext]
    exact ⟨_, List.append_assoc given [row] _⟩
  · intro current isCurrent
    cases isCurrent
    refine ⟨atAfter, ?_⟩
    rw [placeAfter, place, List.length_append, List.length_singleton, Nat.add_assoc]

/-- The end. -/
theorem Gives.finish (positive : 0 < size) (gives : Gives start page given (some reader))
    (grown : page <+: rows) (ended : reader.next size rows = none) :
    Gives start (reader.pageAfter rows page) given none := by
  obtain ⟨at_, _⟩ := gives.going reader rfl
  have split := gives.drop_eq (prefix_pageAfter grown reader).1
  rw [at_.next_eq_none positive ended, List.append_nil] at split
  refine ⟨?_, ?_, fun _ => split.symm⟩
  · rw [split]
  · rintro _ ⟨⟩

end PageReader

end Mnesis.Foundation
