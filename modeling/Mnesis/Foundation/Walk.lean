import Mathlib.Data.List.Forall2
import Mnesis.Foundation.Program

/-!
# Scans that are polled

A scan yields entries one by one.  It takes them from the rows it has at hand, and
fetches a page when it has none.  Each poll is answered at a moment of its own.

If each page holds the next entries, and at least one while there is any, then the
scan yields these entries one behind the other, up to the last one or to the first one
that cannot be decoded.
-/

namespace Mnesis.Foundation

variable {Op : Type} {Ans : Op → Type} {Scan Row Value Item Error Entry : Type}

/-- How a scan stands: it goes on, it has ended, or it has failed. -/
inductive Fate (Scan Error : Type)
  | going (scan : Scan)
  | ended
  | failed (error : Error)

/-- A scan with the pages it has fetched and the items it has yielded. -/
structure Walk (Scan Row Item Error : Type) where
  pages : List (List Row)
  yielded : List Item
  fate : Fate Scan Error

/-- A kind of scans: what a poll does, and the pages among its answers. -/
structure ScanKind (Ans : Op → Type) (Scan Row Item Error : Type) where
  next : Scan → Program Unit Op Ans (Except Error (Option (Item × Scan)))
  page : Sigma Ans → Option (List Row)

namespace Walk

/-- A scan that was opened. -/
def opened (scan : Scan) : Walk Scan Row Item Error where
  pages := []
  yielded := []
  fate := .going scan

/-- A scan that has ended without a page. -/
def empty : Walk Scan Row Item Error where
  pages := []
  yielded := []
  fate := .ended

/-- Poll a scan.  Behind its end and behind a failure it yields nothing more. -/
def poll (kind : ScanKind Ans Scan Row Item Error) (answer : (op : Op) → Ans op)
    (walk : Walk Scan Row Item Error) : Walk Scan Row Item Error :=
  match walk.fate with
  | .going scan =>
    let (served, result) := (kind.next scan).serve answer ()
    let pages := walk.pages ++ served.filterMap kind.page
    match result with
    | .ok (some (item, scan)) => ⟨pages, walk.yielded ++ [item], .going scan⟩
    | .ok none => ⟨pages, walk.yielded, .ended⟩
    | .error error => ⟨pages, walk.yielded, .failed error⟩
  | _ => walk

section Poll

variable {walk : Walk Scan Row Item Error}
theorem poll_of_item (going : walk.fate = .going scan)
    (isPoll : (kind.next scan).serve answer () = (served, .ok (some (item, scanAfter)))) :
    walk.poll kind answer = ⟨walk.pages ++ served.filterMap kind.page, walk.yielded ++ [item],
      .going scanAfter⟩ := by
  unfold poll
  rw [going]
  dsimp only
  rw [isPoll]

theorem poll_of_end (going : walk.fate = .going scan)
    (isPoll : (kind.next scan).serve answer () = (served, .ok none)) :
    walk.poll kind answer = ⟨walk.pages ++ served.filterMap kind.page, walk.yielded, .ended⟩ := by
  unfold poll
  rw [going]
  dsimp only
  rw [isPoll]

theorem poll_of_error (going : walk.fate = .going scan)
    (isPoll : (kind.next scan).serve answer () = (served, .error error)) :
    walk.poll kind answer =
      ⟨walk.pages ++ served.filterMap kind.page, walk.yielded, .failed error⟩ := by
  unfold poll
  rw [going]
  dsimp only
  rw [isPoll]

/-- A scan that does not go on stays as it is. -/
theorem poll_of_stopped (stopped : ∀ scan, walk.fate ≠ .going scan) :
    walk.poll kind answer = walk := by
  unfold poll
  split
  next scan going => exact absurd going (stopped scan)
  next => rfl

end Poll

end Walk

/-- The rows at hand; without any, a page is fetched. -/
def refillRows (rows : List Row) (fetch : ExceptT Error (Program Unit Op Ans) (List Row)) :
    ExceptT Error (Program Unit Op Ans) (List Row) :=
  if rows.isEmpty then fetch else pure rows

/-- What the first of some rows yields, with the state behind it. -/
def popRow (decode : Row → Except Error Value) (item : Value → Item)
    (advance : Value → List Row → Scan) :
    List Row → ExceptT Error (Program Unit Op Ans) (Option (Item × Scan))
  | [] => return none
  | row :: rest => do
    let value ← MonadExcept.ofExcept (decode row)
    return some (item value, advance value rest)

/-- How a kind of scans takes its rows: from its buffer, or else from a page. -/
structure RowWise (kind : ScanKind Ans Scan Row Item Error) (Value : Type) where
  rows : Scan → List Row
  fetch : Scan → ExceptT Error (Program Unit Op Ans) (List Row)
  decode : Row → Except Error Value
  item : Value → Item
  advance : Scan → Value → List Row → Scan
  rows_advance : ∀ scan value rest, rows (advance scan value rest) = rest
  next_eq : ∀ scan, kind.next scan =
    (refillRows (rows scan) (fetch scan) >>= popRow decode item (advance scan)).run

namespace RowWise

variable {kind : ScanKind Ans Scan Row Item Error}

/-- What an entry yields. -/
def entryItem (rowWise : RowWise kind Value) (rowOf : Entry → Row) (entry : Entry) :
    Except Error Item :=
  (rowWise.decode (rowOf entry)).map rowWise.item

/-- What the first of some rows yields. -/
def popped (rowWise : RowWise kind Value) (scan : Scan) :
    List Row → Except Error (Option (Item × Scan))
  | [] => .ok none
  | row :: rest =>
    (rowWise.decode row).map fun value =>
      some (rowWise.item value, rowWise.advance scan value rest)

section Popped

variable {rowWise : RowWise kind Value}

theorem popped_cons_error (decoded : rowWise.decode row = .error error)
    (scan : Scan) (rest : List Row) :
    rowWise.popped scan (row :: rest) = .error error := by
  rw [popped, decoded]
  rfl

theorem popped_cons_ok (decoded : rowWise.decode row = .ok value) (scan : Scan) (rest : List Row) :
    rowWise.popped scan (row :: rest) =
      .ok (some (rowWise.item value, rowWise.advance scan value rest)) := by
  rw [popped, decoded]
  rfl

end Popped

variable (rowWise : RowWise kind Value)

theorem serve_popRow (scan : Scan) (rows : List Row) :
    (popRow rowWise.decode rowWise.item (rowWise.advance scan) rows).run.serve answer () =
      ([], rowWise.popped scan rows) := by
  cases rows with
  | nil => rfl
  | cons row rest =>
    cases decoded : rowWise.decode row with
    | error error =>
      rw [popped_cons_error decoded, popRow, decoded]
      rfl
    | ok value =>
      rw [popped_cons_ok decoded, popRow, decoded]
      rfl

/-- A poll with rows at hand. -/
theorem serve_next_of_rows (atHand : rowWise.rows scan ≠ []) :
    (kind.next scan).serve answer () = ([], rowWise.popped scan (rowWise.rows scan)) := by
  have refilled : refillRows (rowWise.rows scan) (rowWise.fetch scan) = pure (rowWise.rows scan) :=
    if_neg (by simpa using atHand)
  rw [rowWise.next_eq, refilled]
  exact rowWise.serve_popRow scan _

/-- A poll that fetches a page. -/
theorem serve_next_of_page (empty : rowWise.rows scan = [])
    (fetched : (rowWise.fetch scan).run.serve answer () = (served, .ok page)) :
    (kind.next scan).serve answer () = (served, rowWise.popped scan page) := by
  have refilled : refillRows (rowWise.rows scan) (rowWise.fetch scan) = rowWise.fetch scan :=
    if_pos (by simpa using empty)
  rw [rowWise.next_eq, refilled, Program.serve_run_bind_of_ok fetched, rowWise.serve_popRow scan,
    List.append_nil]

/-- A poll that fails to fetch a page. -/
theorem serve_next_of_error (empty : rowWise.rows scan = [])
    (refused : (rowWise.fetch scan).run.serve answer () = (served, .error error)) :
    (kind.next scan).serve answer () = (served, .error error) := by
  have refilled : refillRows (rowWise.rows scan) (rowWise.fetch scan) = rowWise.fetch scan :=
    if_pos (by simpa using empty)
  rw [rowWise.next_eq, refilled, Program.serve_run_bind_of_error refused]

/-- What a fetch returns at a moment to a scan that has yielded some of the entries: a
page of those that are left, or a failure. -/
structure FetchesAt (rowOf : Entry → Row) (entries : List Entry) (isAt : Nat → Scan → Prop)
    (failure : Option Error) (answer : (op : Op) → Ans op) : Prop where
  refused : ∀ {scan error}, failure = some error → ∃ served,
    (rowWise.fetch scan).run.serve answer () = (served, .error error) ∧
      served.filterMap kind.page = []
  fetched : ∀ {scan count}, failure = none → isAt count scan → ∃ served page,
    (rowWise.fetch scan).run.serve answer () = (served, .ok (page.map rowOf)) ∧
      served.filterMap kind.page = [page.map rowOf] ∧
      page <+: entries.drop count ∧ (page = [] → entries.drop count = [])

/-- With every item a scan is one entry further. -/
def Advances (rowOf : Entry → Row) (entries : List Entry) (isAt : Nat → Scan → Prop) : Prop :=
  ∀ {count scan entry value rest}, isAt count scan → entries[count]? = some entry →
    rowWise.decode (rowOf entry) = .ok value → isAt (count + 1) (rowWise.advance scan value rest)

end RowWise

namespace Walk

variable {kind : ScanKind Ans Scan Row Item Error}

/-- What a scan has done after some polls. -/
structure Covers (rowWise : RowWise kind Value) (rowOf : Entry → Row) (entries : List Entry)
    (isAt : Nat → Scan → Prop) (failures : List Error) (polls : Nat)
    (walk : Walk Scan Row Item Error) : Prop where
  yielded : List.Forall₂ (fun entry item => rowWise.entryItem rowOf entry = .ok item)
    (entries.take walk.yielded.length) walk.yielded
  going : ∀ scan, walk.fate = .going scan → isAt walk.yielded.length scan ∧
    walk.yielded.length = polls ∧
    ∃ ahead, ahead <+: entries.drop walk.yielded.length ∧
      rowWise.rows scan = ahead.map rowOf ∧
      walk.pages.flatten = (entries.take walk.yielded.length ++ ahead).map rowOf
  ended : walk.fate = .ended → walk.yielded.length = entries.length ∧
    walk.pages.flatten = entries.map rowOf
  failed : ∀ error, walk.fate = .failed error → walk.pages.flatten <+: entries.map rowOf ∧
    (error ∈ failures ∨ ∃ entry, entries[walk.yielded.length]? = some entry ∧
      rowWise.entryItem rowOf entry = .error error)

variable {rowWise : RowWise kind Value} {rowOf : Entry → Row} {entries : List Entry}
variable {isAt : Nat → Scan → Prop} {failure : Option Error} {failures : List Error}
variable {walk : Walk Scan Row Item Error}

theorem covers_opened (started : isAt 0 scan) (empty : rowWise.rows scan = []) :
    (opened scan).Covers rowWise rowOf entries isAt failures 0 where
  yielded := .nil
  going := by
    rintro _ ⟨⟩
    exact ⟨started, rfl, [], List.nil_prefix, empty, rfl⟩
  ended impossible := by cases impossible
  failed _ impossible := by cases impossible

section

variable (covers : walk.Covers rowWise rowOf entries isAt failures polls)
include covers

/-- A scan that does not go on covers the same after more polls. -/
theorem Covers.stopped (stopped : ∀ scan, walk.fate ≠ .going scan) (more : Nat) :
    walk.Covers rowWise rowOf entries isAt failures more where
  yielded := covers.yielded
  going scan going := absurd going (stopped scan)
  ended := covers.ended
  failed := covers.failed

/-- A poll takes the first of the rows at hand, or ends without any. -/
theorem Covers.take
    (going : walk.fate = .going scan) (advances : rowWise.Advances rowOf entries isAt)
    (isPoll : (kind.next scan).serve answer () = (served, rowWise.popped scan (ahead.map rowOf)))
    (isPages : (walk.pages ++ served.filterMap kind.page).flatten =
      (entries.take walk.yielded.length ++ ahead).map rowOf)
    (isPrefix : ahead <+: entries.drop walk.yielded.length)
    (progress : ahead = [] → entries.drop walk.yielded.length = []) :
    (walk.poll kind answer).Covers rowWise rowOf entries isAt failures (polls + 1) := by
  obtain ⟨isAtScan, isPolls, -⟩ := covers.going scan going
  have counted := covers.yielded.length_eq
  rw [List.length_take] at counted
  have front : entries.take walk.yielded.length ++ ahead <+: entries := by
    nth_rewrite 2 [← List.take_append_drop walk.yielded.length entries]
    exact (List.prefix_append_right_inj _).mpr isPrefix
  cases ahead with
  | nil =>
    have empty := List.drop_eq_nil_iff.mp (progress rfl)
    have all : walk.yielded.length = entries.length := by omega
    rw [poll_of_end going isPoll]
    refine ⟨covers.yielded, nofun, fun _ => ⟨all, ?_⟩, nofun⟩
    rw [isPages, List.append_nil, List.take_of_length_le empty]
  | cons entry rest =>
    have isNext : entries[walk.yielded.length]? = some entry := by
      obtain ⟨others, split⟩ := isPrefix
      rw [← List.head?_drop, ← split, List.cons_append, List.head?_cons]
    rw [List.map_cons] at isPoll
    cases decoded : rowWise.decode (rowOf entry) with
    | error error =>
      rw [RowWise.popped_cons_error decoded] at isPoll
      rw [poll_of_error going isPoll]
      refine ⟨covers.yielded, nofun, nofun, ?_⟩
      rintro _ ⟨⟩
      refine ⟨?_, .inr ⟨entry, isNext, by rw [RowWise.entryItem, decoded]; rfl⟩⟩
      rw [isPages]
      exact front.map _
    | ok value =>
      have isItem : rowWise.entryItem rowOf entry = .ok (rowWise.item value) := by
        rw [RowWise.entryItem, decoded]
        rfl
      have taken : entries.take (walk.yielded.length + 1) =
          entries.take walk.yielded.length ++ [entry] := by
        rw [List.take_add_one, isNext, Option.toList_some]
      rw [RowWise.popped_cons_ok decoded] at isPoll
      rw [poll_of_item going isPoll]
      refine ⟨?_, ?_, nofun, nofun⟩
      · rw [List.length_append, List.length_singleton, taken]
        exact List.rel_append covers.yielded (.cons isItem .nil)
      · rintro _ ⟨⟩
        rw [List.length_append, List.length_singleton]
        refine ⟨advances isAtScan isNext decoded, by rw [isPolls], rest, ?_,
          rowWise.rows_advance _ _ _, ?_⟩
        · obtain ⟨others, split⟩ := isPrefix
          refine ⟨others, ?_⟩
          rw [← List.drop_drop, ← split]
          rfl
        · rw [isPages, taken, List.append_assoc, List.singleton_append]

/-- One more poll. -/
theorem Covers.poll (fetchesAt : rowWise.FetchesAt rowOf entries isAt failure answer)
    (known : ∀ error, failure = some error → error ∈ failures)
    (advances : rowWise.Advances rowOf entries isAt) :
    (walk.poll kind answer).Covers rowWise rowOf entries isAt failures (polls + 1) := by
  cases fate : walk.fate with
  | ended =>
    have stopped : ∀ scan, walk.fate ≠ .going scan := by simp [fate]
    rw [poll_of_stopped stopped]
    exact covers.stopped stopped _
  | failed error =>
    have stopped : ∀ scan, walk.fate ≠ .going scan := by simp [fate]
    rw [poll_of_stopped stopped]
    exact covers.stopped stopped _
  | going scan =>
    obtain ⟨isAtScan, isPolls, ahead, isPrefix, isRows, isPages⟩ := covers.going scan fate
    by_cases atHand : rowWise.rows scan = []
    · have empty : ahead = [] := List.map_eq_nil_iff.mp (isRows.symm.trans atHand)
      subst empty
      rw [List.append_nil] at isPages
      cases isFailure : failure with
      | none =>
        obtain ⟨served, page, isFetch, isPage, isPrefix, progress⟩ :=
          fetchesAt.fetched isFailure isAtScan
        apply covers.take fate advances (rowWise.serve_next_of_page atHand isFetch) ?_ isPrefix
          progress
        rw [isPage, List.flatten_append, isPages, List.map_append, List.flatten_singleton]
      | some error =>
        obtain ⟨served, isFetch, noPage⟩ := fetchesAt.refused isFailure
        rw [poll_of_error fate (rowWise.serve_next_of_error atHand isFetch), noPage,
          List.append_nil]
        refine ⟨covers.yielded, nofun, nofun, ?_⟩
        rintro _ ⟨⟩
        refine ⟨?_, .inl (known error isFailure)⟩
        rw [isPages]
        exact (List.take_prefix _ _).map _
    · have isPoll : (kind.next scan).serve answer () = _ := rowWise.serve_next_of_rows atHand
      rw [isRows] at isPoll
      apply covers.take fate advances isPoll ?_ isPrefix ?_
      · rw [List.filterMap_nil, List.append_nil, isPages]
      · rintro rfl
        exact absurd isRows atHand

end

/-- What a scan of some entries has done after some polls.  It has yielded the first of
them from pages that hold them one behind the other, and with every poll one more, until
it has yielded all of them.  It fails with a fetch, or at the first entry that cannot be
decoded. -/
structure Yields (rowOf : Entry → Row) (decode : Entry → Except Error Item) (entries : List Entry)
    (failures : List Error) (polls : Nat) (walk : Walk Scan Row Item Error) : Prop where
  yielded : List.Forall₂ (fun entry item => decode entry = .ok item)
    (entries.take walk.yielded.length) walk.yielded
  pages : walk.pages.flatten <+: entries.map rowOf
  going : ∀ scan, walk.fate = .going scan → walk.yielded.length = polls ∧ polls ≤ entries.length
  ended : walk.fate = .ended → walk.yielded.length = entries.length ∧
    walk.pages.flatten = entries.map rowOf
  failed : ∀ error, walk.fate = .failed error → error ∈ failures ∨
    ∃ entry, entries[walk.yielded.length]? = some entry ∧ decode entry = .error error

theorem Covers.yields (covers : walk.Covers rowWise rowOf entries isAt failures polls) :
    walk.Yields rowOf (rowWise.entryItem rowOf) entries failures polls where
  yielded := covers.yielded
  pages := by
    cases fate : walk.fate with
    | going scan =>
      obtain ⟨_, _, ahead, isPrefix, _, isPages⟩ := covers.going scan fate
      rw [isPages]
      apply List.IsPrefix.map
      nth_rewrite 2 [← List.take_append_drop walk.yielded.length entries]
      exact (List.prefix_append_right_inj _).mpr isPrefix
    | ended => exact (covers.ended fate).2 ▸ List.prefix_refl _
    | failed error => exact (covers.failed error fate).1
  going scan fate := by
    have isLength := (covers.going scan fate).2.1
    have counted := covers.yielded.length_eq
    rw [List.length_take] at counted
    exact ⟨isLength, by omega⟩
  ended := covers.ended
  failed error fate := (covers.failed error fate).2

/-- Without entries there is nothing to scan. -/
theorem yields_empty (decode : Entry → Except Error Item) (failures : List Error) (polls : Nat) :
    (empty : Walk Scan Row Item Error).Yields rowOf decode [] failures polls where
  yielded := .nil
  pages := List.nil_prefix
  going := nofun
  ended _ := ⟨rfl, rfl⟩
  failed := nofun

section Moments

variable {Moment : Type} {answerAt : Moment → (op : Op) → Ans op}
variable {failureAt : Moment → Option Error} {moments : List Moment}

/-- Polls at some moments. -/
theorem Covers.foldl (covers : walk.Covers rowWise rowOf entries isAt failures polls)
    (fetchesAt : ∀ moment ∈ moments,
      rowWise.FetchesAt rowOf entries isAt (failureAt moment) (answerAt moment))
    (known : ∀ moment ∈ moments, ∀ error, failureAt moment = some error → error ∈ failures)
    (advances : rowWise.Advances rowOf entries isAt) :
    (moments.foldl (fun walk moment => walk.poll kind (answerAt moment)) walk).Covers rowWise
      rowOf entries isAt failures (polls + moments.length) := by
  induction moments generalizing walk polls with
  | nil => exact covers
  | cons moment moments step =>
    obtain ⟨fetchesNow, fetchesLater⟩ := List.forall_mem_cons.mp fetchesAt
    obtain ⟨knownNow, knownLater⟩ := List.forall_mem_cons.mp known
    have later := step (covers.poll fetchesNow knownNow advances) fetchesLater knownLater
    rw [Nat.add_assoc, Nat.add_comm 1] at later
    exact later

/-- A scan from its opening on. -/
theorem yields_foldl (started : isAt 0 scan) (empty : rowWise.rows scan = [])
    (fetchesAt : ∀ moment ∈ moments,
      rowWise.FetchesAt rowOf entries isAt (failureAt moment) (answerAt moment))
    (advances : rowWise.Advances rowOf entries isAt) :
    (moments.foldl (fun walk moment => walk.poll kind (answerAt moment)) (opened scan)).Yields
      rowOf (rowWise.entryItem rowOf) entries (moments.filterMap failureAt) moments.length := by
  have started : (opened scan).Covers rowWise rowOf entries isAt (moments.filterMap failureAt) 0 :=
    covers_opened started empty
  have covers := started.foldl fetchesAt
    (fun moment present error failed => List.mem_filterMap.mpr ⟨moment, present, failed⟩) advances
  rw [Nat.zero_add] at covers
  exact covers.yields

end Moments

end Walk

end Mnesis.Foundation
