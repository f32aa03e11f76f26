import Mnesis.Fjall.Worker

/-!
# A stream yields the rows of its cursor

Whatever the batches are and however a stream is polled, it yields the rows of its
cursor up to the first failure and then ends.  The cursor is in one place at any
time, it is not asked again behind its end or its first failure, and the place is the
cleanup queue as soon as it is not needed any more.
-/

namespace Mnesis.Fjall

open Foundation

variable {Cursor Item : Type}

/-- The rows that a cursor returns one by one. -/
inductive Lists (nextRow : NextRow Cursor Item) :
    Cursor → List (SizedRow StoreError Item) → Prop
  | ended : (nextRow cursor).1 = none → Lists nextRow cursor []
  | row : (nextRow cursor).1 = some row →
      Lists nextRow (nextRow cursor).2 rows →
      Lists nextRow cursor (row :: rows)

/-- How often a cursor is asked for its rows up to its end or its first failure. -/
def callsNeeded : List (SizedRow StoreError Item) → Nat
  | (.ok _, _) :: rows => callsNeeded rows + 1
  | _ => 1

/-- A cursor that was asked some times. -/
def afterCalls (nextRow : NextRow Cursor Item) (calls : Nat) (cursor : Cursor) : Cursor :=
  (fun cursor => (nextRow cursor).2)^[calls] cursor

theorem afterCalls_succ (nextRow : NextRow Cursor Item) (calls : Nat) (cursor : Cursor) :
    afterCalls nextRow (calls + 1) cursor = (nextRow (afterCalls nextRow calls cursor)).2 :=
  Function.iterate_succ_apply' _ calls cursor

theorem callsNeeded_pos (rows : List (SizedRow StoreError Item)) : 0 < callsNeeded rows := by
  fun_cases callsNeeded rows <;> exact Nat.succ_pos _

section Cursors

variable (nextRow : NextRow Cursor Item) (start : Cursor) (all : List (SizedRow StoreError Item))

/-- A cursor that was not asked more often than needed. -/
def Spared (cursor : Cursor) : Prop :=
  ∃ calls ≤ callsNeeded all, cursor = afterCalls nextRow calls start

/-- The rows that are left of a cursor. -/
def IsAhead (cursor : Cursor) (rows : List (SizedRow StoreError Item)) : Prop :=
  Lists nextRow cursor rows ∧
    ∃ calls, cursor = afterCalls nextRow calls start ∧ calls + callsNeeded rows = callsNeeded all

variable {nextRow start all}

theorem IsAhead.spared (isAhead : IsAhead nextRow start all cursor rows) :
    Spared nextRow start all cursor := by
  obtain ⟨_, calls, isCursor, counted⟩ := isAhead
  exact ⟨calls, by omega, isCursor⟩

theorem cursorRows_follows :
    (cursorRows nextRow).Follows (IsAhead nextRow start all) (Spared nextRow start all) where
  ended isAhead := by
    obtain ⟨isNone⟩ := isAhead.1
    exact isNone
  row isAhead := by
    cases isAhead.1 with
    | row isRow _ => exact isRow
  asked {_ rows} isAhead := by
    obtain ⟨_, calls, rfl, counted⟩ := isAhead
    have positive := callsNeeded_pos rows
    exact ⟨calls + 1, by omega, (afterCalls_succ nextRow calls start).symm⟩
  advanced isAhead isAfter := by
    cases isAfter
    obtain ⟨lists, calls, rfl, counted⟩ := isAhead
    cases lists with
    | row _ later =>
      refine ⟨later, calls + 1, (afterCalls_succ nextRow calls start).symm, ?_⟩
      rw [callsNeeded] at counted
      omega
  exhausted _ impossible := by cases impossible

end Cursors

section Streams

variable {remains : Cursor → List (Except StoreError Item) → Prop}
/-- What a request brings is what remains of its cursor, or what is in its answer. -/
def Request.Brings (remains : Cursor → List (Except StoreError Item) → Prop)
    (upcoming : List (Except StoreError Item)) : FetchRequest Cursor Item → Prop
  | .reserving cursor => remains cursor upcoming
  | .queued cursor => remains cursor upcoming
  | .running cursor => remains cursor upcoming
  | .answered (.ok batch) =>
    Batch.Precedes remains batch upcoming ∧ (batch.rows = [] → batch.scan = none)
  | .answered (.error _) => False

/-- Which rows a stream is going to yield. -/
structure BlockingStream.Stands (remains : Cursor → List (Except StoreError Item) → Prop)
    (upcoming : List (Except StoreError Item)) (stream : BlockingStream Cursor Item) : Prop where
  idle : stream.pending = none →
    Batch.Precedes remains ⟨stream.cursor, stream.rows⟩ upcoming ∧
      stream.executor = stream.cursor.isSome
  waiting : ∀ request, stream.pending = some request →
    stream.rows = [] ∧ stream.cursor = none ∧ stream.executor = true ∧
      request.Brings remains upcoming

namespace BlockingStream

theorem stands_waiting (brings : request.Brings remains upcoming) :
    Stands remains upcoming ⟨none, true, [], some request⟩ where
  idle impossible := by cases impossible
  waiting _ isRequest := by
    cases isRequest
    exact ⟨rfl, rfl, rfl, brings⟩

/-- What a poll of a stream does, if it reaches the worker. -/
structure PollsTo (remains : Cursor → List (Except StoreError Item) → Prop)
    (upcoming : List (Except StoreError Item)) (stream : BlockingStream Cursor Item)
    (polled : Polled Cursor Item) : Prop where
  kept : polled.2.2 = [] ∧ polled.2.1.cursors = stream.cursors
  pending : polled.1 = .pending → polled.2.1.Stands remains upcoming
  row : ∀ row, polled.1 = .ready (some row) → ∃ later, upcoming = row :: later ∧
    polled.2.1.Stands remains later ∧ ((∃ error, row = .error error) → stream.cursors = [])
  ended : polled.1 = .ready none → upcoming = [] ∧ polled.2.1.Stands remains [] ∧
    stream.cursors = []

theorem pollsTo_pop {cursor : Option Cursor} {rows : List (Except StoreError Item)}
    (precedes : Batch.Precedes remains ⟨cursor, row :: rows⟩ upcoming)
    (same : stream.cursors = cursor.toList) :
    PollsTo remains upcoming stream
      (.ready (some row), ⟨cursor, cursor.isSome, rows, none⟩, []) where
  kept := ⟨rfl, (List.append_nil _).trans same.symm⟩
  pending impossible := by cases impossible
  row _ isRow := by
    cases isRow
    obtain ⟨later, isUpcoming, behind⟩ := precedes.pop rfl
    refine ⟨later, isUpcoming, ⟨fun _ => ⟨behind, rfl⟩, nofun⟩, ?_⟩
    rintro ⟨error, rfl⟩
    cases cursor with
    | none => exact same
    | some cursor =>
      obtain ⟨item, impossible⟩ := precedes.items nofun (.error error) List.mem_cons_self
      cases impossible
  ended impossible := by cases impossible

theorem pollsTo_end (precedes : Batch.Precedes remains ⟨none, []⟩ upcoming)
    (dropped : stream.cursors = []) :
    PollsTo remains upcoming stream (.ready none, ⟨none, false, [], none⟩, []) where
  kept := ⟨rfl, dropped.symm⟩
  pending impossible := by cases impossible
  row _ impossible := by cases impossible
  ended _ := by
    obtain rfl := precedes.exhausted rfl
    exact ⟨rfl, ⟨fun _ => ⟨precedes, rfl⟩, nofun⟩, dropped⟩

theorem pollsTo_pending
    (brings : request.Brings remains upcoming) (same : stream.cursors = request.cursors) :
    PollsTo remains upcoming stream (.pending, ⟨none, true, [], some request⟩, []) where
  kept := ⟨rfl, same.symm⟩
  pending _ := stands_waiting brings
  row _ impossible := by cases impossible
  ended impossible := by cases impossible

theorem pollsTo_request {request : FetchRequest Cursor Item}
    (brings : request.Brings remains upcoming) (reaches : reservation ≠ .closed)
    (same : stream.cursors = request.cursors) :
    PollsTo remains upcoming stream
      (pollRequest reservation request ⟨none, true, [], some request⟩) := by
  cases request with
  | reserving cursor =>
    cases reservation with
    | waiting => exact pollsTo_pending brings same
    | granted => exact pollsTo_pending brings same
    | closed => exact absurd rfl reaches
  | queued cursor => exact pollsTo_pending brings same
  | running cursor => exact pollsTo_pending brings same
  | answered result =>
    cases result with
    | error error => exact brings.elim
    | ok batch =>
      obtain ⟨scan, rows⟩ := batch
      cases rows with
      | nil =>
        obtain rfl : scan = none := brings.2 rfl
        exact pollsTo_end brings.1 same
      | cons row rows => exact pollsTo_pop brings.1 same

theorem Stands.pollNext (stands : stream.Stands remains upcoming) {reservation : Reservation}
    (reaches : reservation ≠ .closed) :
    PollsTo remains upcoming stream (stream.pollNext reservation) := by
  obtain ⟨cursor, executor, rows, pending⟩ := stream
  cases pending with
  | some request =>
    obtain ⟨rfl, rfl, rfl, brings⟩ := stands.waiting request rfl
    exact pollsTo_request brings reaches rfl
  | none =>
    obtain ⟨precedes, isExecutor⟩ := stands.idle rfl
    obtain rfl : executor = cursor.isSome := isExecutor
    cases rows with
    | cons row rows => exact pollsTo_pop precedes (List.append_nil _)
    | nil =>
      cases cursor with
      | none => exact pollsTo_end precedes rfl
      | some cursor =>
        have brings : (Request.reserving cursor).Brings remains upcoming :=
          precedes.remains_of_nil rfl rfl
        exact pollsTo_request brings reaches rfl

end BlockingStream

end Streams

section Worker

variable (nextRow : NextRow Cursor Item) (config : BlockingConfig)
variable (start : Cursor) (all : List (SizedRow StoreError Item))

/-- The rows that remain of a cursor. -/
def Remains (cursor : Cursor) (upcoming : List (Except StoreError Item)) : Prop :=
  ∃ rows, IsAhead nextRow start all cursor rows ∧
    upcoming = config.streamLimits.delivered config.streamLimits.fresh rows

variable {nextRow config start all}
/-- A batch has the next rows, and the cursor is with it or in the cleanup queue. -/
theorem Remains.fetch (remains : Remains nextRow config start all cursor upcoming) :
    (Batch.Precedes (Remains nextRow config start all) (fetch nextRow config cursor).1 upcoming ∧
      ((fetch nextRow config cursor).1.rows = [] → (fetch nextRow config cursor).1.scan = none)) ∧
    ∃ behind, Spared nextRow start all behind ∧
      (fetch nextRow config cursor).1.scan.toList ++ (fetch nextRow config cursor).2 =
        [behind] := by
  obtain ⟨rows, isAhead, rfl⟩ := remains
  have follows := @cursorRows_follows _ _ nextRow start all
  have continues : ∀ {cursor rows}, IsAhead nextRow start all cursor rows →
      Remains nextRow config start all (id cursor)
        (config.streamLimits.delivered config.streamLimits.fresh rows) :=
    fun isAhead => ⟨_, isAhead, rfl⟩
  refine ⟨follows.batch continues isAhead, _,
    follows.past_fill IsAhead.spared isAhead config.streamLimits, ?_⟩
  simp only [Fjall.fetch, Filled.batch]
  split <;> rfl

end Worker

/-- A cursor that is held is still held behind a step, or it was released. -/
structure Moves (past : Cursor → Prop) (held heldAfter released : List Cursor) : Prop where
  moved : ∀ cursor, held = [cursor] → past cursor →
    ∃ behind, past behind ∧ heldAfter ++ released = [behind]
  rested : held = [] → heldAfter = [] ∧ released = []

section Custody

variable {past : Cursor → Prop}

theorem moves_of_eq (same : heldAfter ++ released = held) : Moves past held heldAfter released where
  moved cursor isHeld isPast := ⟨cursor, isPast, same.trans isHeld⟩
  rested none := List.append_eq_nil_iff.mp (same.trans none)

theorem Moves.custody (moves : Moves past held heldAfter released)
    (custody : ∃ cursor, past cursor ∧ held ++ cleanup = [cursor]) :
    ∃ cursor, past cursor ∧ heldAfter ++ (cleanup ++ released) = [cursor] := by
  obtain ⟨cursor, isPast, one⟩ := custody
  rcases List.append_eq_singleton_iff.mp one with ⟨empty, rfl⟩ | ⟨isHeld, rfl⟩
  · obtain ⟨rfl, rfl⟩ := moves.rested empty
    exact ⟨cursor, isPast, rfl⟩
  · exact moves.moved cursor isHeld isPast

end Custody

variable {stream : BlockingStream Cursor Item}

section Events

variable {request : FetchRequest Cursor Item}

/-- A request brings the next rows through the worker. -/
theorem Request.Brings.work (brings : request.Brings (Remains nextRow config start all) upcoming)
    (reaches : event.Reaches) :
    ∃ after, (request.work nextRow config false event).1 = some after ∧
      after.Brings (Remains nextRow config start all) upcoming ∧
      Moves (Spared nextRow start all) request.cursors after.cursors
        (request.work nextRow config false event).2 := by
  have unchanged : ∃ after, some request = some after ∧
      after.Brings (Remains nextRow config start all) upcoming ∧
      Moves (Spared nextRow start all) request.cursors after.cursors [] :=
    ⟨request, rfl, brings, moves_of_eq (List.append_nil _)⟩
  cases event with
  | poll reservation => exact unchanged
  | drop => exact unchanged
  | lose error => exact reaches.elim
  | take =>
    cases request with
    | queued cursor => exact ⟨.running cursor, rfl, brings, moves_of_eq rfl⟩
    | _ => exact unchanged
  | finish =>
    cases request with
    | running cursor =>
      obtain ⟨isBatch, behind, spared, one⟩ := Remains.fetch brings
      exact ⟨_, rfl, isBatch, fun _ _ _ => ⟨behind, spared, one⟩, nofun⟩
    | _ => exact unchanged

/-- A request that its caller has left behind is a job of the worker. -/
def Request.Orphaned (nextRow : NextRow Cursor Item) (config : BlockingConfig) (start : Cursor)
    (all : List (SizedRow StoreError Item)) (request : FetchRequest Cursor Item) : Prop :=
  ∃ cursor upcoming, (request = .queued cursor ∨ request = .running cursor) ∧
    Remains nextRow config start all cursor upcoming

/-- The cursor of a dropped stream goes to the cleanup queue once. -/
theorem Request.Orphaned.work (orphaned : request.Orphaned nextRow config start all)
    (reaches : event.Reaches) :
    (∀ after, (request.work nextRow config true event).1 = some after →
      after.Orphaned nextRow config start all) ∧
    Moves (Spared nextRow start all) request.cursors
      ((request.work nextRow config true event).1.elim [] Request.cursors)
      (request.work nextRow config true event).2 := by
  have unchanged : (∀ after, some request = some after → after.Orphaned nextRow config start all) ∧
      Moves (Spared nextRow start all) request.cursors request.cursors [] := by
    refine ⟨?_, moves_of_eq (List.append_nil _)⟩
    rintro _ ⟨⟩
    exact orphaned
  obtain ⟨cursor, upcoming, rfl | rfl, remains⟩ := orphaned
  · cases event with
    | lose error => exact reaches.elim
    | take => exact ⟨nofun, moves_of_eq rfl⟩
    | _ => exact unchanged
  · cases event with
    | lose error => exact reaches.elim
    | finish =>
      obtain ⟨_, behind, spared, one⟩ := remains.fetch
      exact ⟨nofun, fun _ _ _ => ⟨behind, spared, one⟩, nofun⟩
    | _ => exact unchanged

theorem Request.Brings.abandon
    (brings : request.Brings (Remains nextRow config start all) upcoming) :
    (∀ orphan, request.abandon.1 = some orphan → orphan.Orphaned nextRow config start all) ∧
      Moves (Spared nextRow start all) request.cursors
        (request.abandon.1.elim [] Request.cursors) request.abandon.2 := by
  cases request with
  | queued cursor =>
    refine ⟨?_, moves_of_eq rfl⟩
    rintro _ ⟨⟩
    exact ⟨cursor, upcoming, .inl rfl, brings⟩
  | running cursor =>
    refine ⟨?_, moves_of_eq rfl⟩
    rintro _ ⟨⟩
    exact ⟨cursor, upcoming, .inr rfl, brings⟩
  | reserving cursor => exact ⟨nofun, moves_of_eq rfl⟩
  | answered result => exact ⟨nofun, moves_of_eq rfl⟩

theorem BlockingStream.Stands.worked
    (stands : stream.Stands (Remains nextRow config start all) upcoming) (reaches : event.Reaches) :
    (stream.worked nextRow config event).1.Stands (Remains nextRow config start all) upcoming ∧
      Moves (Spared nextRow start all) stream.cursors
        (stream.worked nextRow config event).1.cursors
        (stream.worked nextRow config event).2 := by
  obtain ⟨cursor, executor, rows, pending⟩ := stream
  cases pending with
  | none => exact ⟨stands, moves_of_eq (List.append_nil _)⟩
  | some request =>
    obtain ⟨rfl, rfl, rfl, brings⟩ := stands.waiting request rfl
    obtain ⟨after, isAfter, bringsAfter, moves⟩ := brings.work reaches
    have isWorked : BlockingStream.worked nextRow config event ⟨none, true, [], some request⟩ =
        (⟨none, true, [], some after⟩, (request.work nextRow config false event).2) := by
      rw [BlockingStream.worked, ← isAfter]
      rfl
    rw [isWorked]
    exact ⟨BlockingStream.stands_waiting bringsAfter, moves⟩

theorem BlockingStream.Stands.dropped
    (stands : stream.Stands (Remains nextRow config start all) upcoming) :
    (∀ orphan, stream.abandoned.1 = some orphan → orphan.Orphaned nextRow config start all) ∧
      Moves (Spared nextRow start all) stream.cursors
        (stream.abandoned.1.elim [] Request.cursors)
        (stream.cursor.toList ++ stream.abandoned.2) := by
  obtain ⟨cursor, executor, rows, pending⟩ := stream
  cases pending with
  | none => exact ⟨nofun, moves_of_eq rfl⟩
  | some request =>
    obtain ⟨rfl, rfl, rfl, brings⟩ := stands.waiting request rfl
    exact brings.abandon

end Events

namespace StreamWorld

/-- The rows that a stream yields, those it has yielded, those that it is still going to
yield, and where its cursor is. -/
structure Sound (nextRow : NextRow Cursor Item) (config : BlockingConfig) (start : Cursor)
    (all : List (SizedRow StoreError Item)) (expected : List (Except StoreError Item))
    (world : StreamWorld Cursor Item) : Prop where
  answered : ∃ taken upcoming ended, expected = taken ++ upcoming ∧
    world.answers = taken.map some ++ List.replicate ended none ∧
    (ended ≠ 0 → upcoming = []) ∧
    (∀ stream, world.stream = some stream →
      stream.Stands (Remains nextRow config start all) upcoming) ∧
    ((ended ≠ 0 ∨ ∃ error, .error error ∈ taken) → world.held = [])
  alone : ∀ stream, world.stream = some stream → world.orphan = none
  orphaned : ∀ request, world.orphan = some request → request.Orphaned nextRow config start all
  custody : ∃ cursor, Spared nextRow start all cursor ∧ world.held ++ world.cleanup = [cursor]

variable {nextRow : NextRow Cursor Item} {start : Cursor}
variable {all : List (SizedRow StoreError Item)} {expected : List (Except StoreError Item)}
variable {world : StreamWorld Cursor Item}

theorem sound_new (lists : Lists nextRow start all)
    (isExpected : expected = config.streamLimits.delivered config.streamLimits.fresh all) :
    (new start).Sound nextRow config start all expected where
  answered := by
    refine ⟨[], expected, 0, rfl, rfl, nofun, ?_, by simp⟩
    rintro _ ⟨⟩
    refine ⟨fun _ => ⟨Batch.precedes_scan ?_, rfl⟩, nofun⟩
    exact ⟨all, ⟨lists, 0, rfl, Nat.zero_add _⟩, isExpected⟩
  alone _ _ := rfl
  orphaned := nofun
  custody := ⟨start, ⟨0, Nat.zero_le _, rfl⟩, rfl⟩

theorem held_of_stream (isStream : world.stream = some stream) (alone : world.orphan = none) :
    world.held = stream.cursors := by
  rw [held, isStream, alone]
  exact List.append_nil _

theorem held_of_orphan (dropped : world.stream = none) :
    world.held = world.orphan.elim [] Request.cursors := by
  rw [held, dropped]
  rfl

section

variable (sound : world.Sound nextRow config start all expected)
include sound

/-- A poll keeps the stream sound. -/
theorem Sound.polled (isStream : world.stream = some stream) (reaches : reservation ≠ .closed) :
    (world.polled reservation stream).Sound nextRow config start all expected := by
  obtain ⟨taken, upcoming, ended, isExpected, isAnswers, last, stands, finished⟩ := sound.answered
  have polls := (stands stream isStream).pollNext reaches
  have alone := sound.alone stream isStream
  have isHeld := held_of_stream isStream alone
  rcases isPolled : stream.pollNext reservation with ⟨answer, after, released⟩
  rw [isPolled] at polls
  obtain ⟨rfl, kept⟩ : released = [] ∧ after.cursors = stream.cursors := polls.kept
  have heldAfter : (world.polled reservation stream).held = world.held := by
    rw [isHeld, ← kept, StreamWorld.polled, isPolled]
    exact held_of_stream rfl alone
  refine ⟨?_, fun _ _ => ?_, ?_, ?_⟩
  · rw [heldAfter, isHeld]
    rw [isHeld] at finished
    cases answer with
    | pending =>
      refine ⟨taken, upcoming, ended, isExpected, ?_, last, ?_, finished⟩
      · rw [StreamWorld.polled, isPolled]
        exact isAnswers
      · rw [StreamWorld.polled, isPolled]
        rintro _ ⟨⟩
        exact polls.pending rfl
    | ready row =>
      cases row with
      | none =>
        obtain ⟨rfl, standsAfter, empty⟩ := polls.ended rfl
        refine ⟨taken, [], ended + 1, isExpected, ?_, fun _ => rfl, ?_, fun _ => empty⟩
        · simp only [StreamWorld.polled, isPolled, isAnswers, List.replicate_succ',
            List.append_assoc]
        · rw [StreamWorld.polled, isPolled]
          rintro _ ⟨⟩
          exact standsAfter
      | some row =>
        obtain ⟨later, rfl, standsAfter, failed⟩ := polls.row row rfl
        obtain rfl : ended = 0 := by
          by_contra some
          cases last some
        refine ⟨taken ++ [row], later, 0, ?_, ?_, nofun, ?_, ?_⟩
        · rw [isExpected, List.append_assoc, List.singleton_append]
        · simp [StreamWorld.polled, isPolled, isAnswers]
        · rw [StreamWorld.polled, isPolled]
          rintro _ ⟨⟩
          exact standsAfter
        · rintro (impossible | ⟨error, present⟩)
          · exact absurd rfl impossible
          · rcases List.mem_append.mp present with before | now
            · exact finished (.inr ⟨error, before⟩)
            · exact failed ⟨error, (List.mem_singleton.mp now).symm⟩
  · rw [StreamWorld.polled, isPolled]
    exact alone
  · rw [StreamWorld.polled, isPolled]
    exact sound.orphaned
  · rw [heldAfter, StreamWorld.polled, isPolled]
    simpa using sound.custody

/-- A step that answers nothing. -/
theorem Sound.moved {after : StreamWorld Cursor Item} (sameAnswers : after.answers = world.answers)
    (isCleanup : after.cleanup = world.cleanup ++ released)
    (moves : Moves (Spared nextRow start all) world.held after.held released)
    (stands : ∀ stream, after.stream = some stream → after.orphan = none ∧
      ∃ before, world.stream = some before ∧
        ∀ {upcoming}, before.Stands (Remains nextRow config start all) upcoming →
          stream.Stands (Remains nextRow config start all) upcoming)
    (orphaned : ∀ request, after.orphan = some request →
      request.Orphaned nextRow config start all) :
    after.Sound nextRow config start all expected where
  answered := by
    obtain ⟨taken, upcoming, ended, isExpected, isAnswers, last, stood, finished⟩ := sound.answered
    refine ⟨taken, upcoming, ended, isExpected, sameAnswers.trans isAnswers, last,
      fun stream isStream => ?_, fun isFinished => (moves.rested (finished isFinished)).1⟩
    obtain ⟨_, before, isBefore, kept⟩ := stands stream isStream
    exact kept (stood before isBefore)
  alone stream isStream := (stands stream isStream).1
  orphaned := orphaned
  custody := by
    rw [isCleanup]
    exact moves.custody sound.custody

/-- So does a move of the worker. -/
theorem Sound.worked {event : StreamEvent} (reaches : event.Reaches) :
    (world.worked nextRow config event).Sound nextRow config start all expected := by
  cases isStream : world.stream with
  | none =>
    have isWorked : world.worked nextRow config event = { world with
        orphan := (world.orphan.elim (none, []) (Request.work nextRow config true event)).1
        cleanup := world.cleanup ++
          (world.orphan.elim (none, []) (Request.work nextRow config true event)).2 } := by
      rw [StreamWorld.worked, isStream]
    rw [isWorked]
    refine sound.moved rfl rfl ?_ (fun _ impossible => ?_) fun after isAfter => ?_
    · simp only [held, isStream, Option.elim_none, List.nil_append]
      cases isOrphan : world.orphan with
      | none => exact moves_of_eq rfl
      | some request => exact ((sound.orphaned request isOrphan).work reaches).2
    · cases isStream.symm.trans impossible
    · cases isOrphan : world.orphan with
      | none => simp [isOrphan] at isAfter
      | some request =>
        simp only [isOrphan, Option.elim_some] at isAfter
        exact ((sound.orphaned request isOrphan).work reaches).1 after isAfter
  | some stream =>
    obtain ⟨_, upcoming, _, _, _, _, stands, _⟩ := sound.answered
    have alone := sound.alone stream isStream
    have isWorked : world.worked nextRow config event = { world with
        stream := some (stream.worked nextRow config event).1
        cleanup := world.cleanup ++ (stream.worked nextRow config event).2 } := by
      rw [StreamWorld.worked, isStream]
    rw [isWorked]
    refine sound.moved rfl rfl ?_ (fun after isAfter => ⟨alone, stream, isStream, ?_⟩) ?_
    · simp only [held, isStream, alone, Option.elim_some, Option.elim_none, List.append_nil]
      exact ((stands stream isStream).worked reaches).2
    · cases isAfter
      exact fun standsNow => (standsNow.worked reaches).1
    · exact sound.orphaned

theorem Sound.dropped (isStream : world.stream = some stream) :
    (world.dropped stream).Sound nextRow config start all expected := by
  obtain ⟨_, upcoming, _, _, _, _, stands, _⟩ := sound.answered
  obtain ⟨orphaned, moves⟩ := (stands stream isStream).dropped
  refine sound.moved rfl (List.append_assoc _ _ _) ?_ nofun orphaned
  rw [held_of_stream isStream (sound.alone stream isStream), held_of_orphan rfl]
  exact moves

theorem Sound.step (reaches : event.Reaches) :
    (world.step nextRow config event).Sound nextRow config start all expected := by
  cases event with
  | poll reservation =>
    cases isStream : world.stream with
    | none => simpa [StreamWorld.step, isStream] using sound
    | some stream => simpa [StreamWorld.step, isStream] using sound.polled isStream reaches
  | drop =>
    cases isStream : world.stream with
    | none => simpa [StreamWorld.step, isStream] using sound
    | some stream => simpa [StreamWorld.step, isStream] using sound.dropped isStream
  | take => exact sound.worked reaches
  | finish => exact sound.worked reaches
  | lose error => exact sound.worked reaches

theorem Sound.run (reaches : ∀ event ∈ events, event.Reaches) :
    (world.run nextRow config events).Sound nextRow config start all expected := by
  induction events generalizing world with
  | nil => exact sound
  | cons event events later =>
    obtain ⟨reachesNow, reachesLater⟩ := List.forall_mem_cons.mp reaches
    exact later (sound.step reachesNow) reachesLater

end

theorem length_answers_le_step (world : StreamWorld Cursor Item) (event : StreamEvent) :
    world.answers.length ≤ (world.step nextRow config event).answers.length := by
  cases event with
  | poll reservation =>
    cases isStream : world.stream with
    | none => simp [step, isStream]
    | some stream =>
      simp only [step, isStream, Option.elim_some, polled]
      split <;> simp
  | drop => cases isStream : world.stream <;> simp [step, isStream, dropped]
  | _ =>
    simp only [step, worked]
    split <;> exact Nat.le_refl _

theorem length_answers_le_run (world : StreamWorld Cursor Item) (events : List StreamEvent) :
    world.answers.length ≤ (world.run nextRow config events).answers.length := by
  induction events generalizing world with
  | nil => exact Nat.le_refl _
  | cons event events later =>
    exact Nat.le_trans (length_answers_le_step world event) (later _)

/-- The events by which the worker answers a stream. -/
def round : List StreamEvent := [.poll .granted, .take, .finish, .poll .granted]

/-- Every round of polls and moves yields an answer. -/
theorem Sound.progress (sound : world.Sound nextRow config start all expected)
    (isStream : world.stream = some stream) :
    world.answers.length < (world.run nextRow config round).answers.length := by
  obtain ⟨_, upcoming, _, _, _, _, allStand, _⟩ := sound.answered
  have stands := allStand stream isStream
  obtain ⟨_, orphan, cleanup, answers⟩ := world
  obtain ⟨cursor, executor, rows, pending⟩ := stream
  subst isStream
  have answeredAtOnce : ∀ {answer : Option (Except StoreError Item)}
      {world : StreamWorld Cursor Item},
      (world.step nextRow config (.poll .granted)).answers = world.answers ++ [answer] →
      world.answers.length < (world.run nextRow config round).answers.length := by
    intro answer world isAnswer
    refine Nat.lt_of_lt_of_le ?_ (length_answers_le_run _ [.take, .finish, .poll .granted])
    simp [isAnswer]
  have answeredLast : ∀ {answer : Option (Except StoreError Item)}
      {world : StreamWorld Cursor Item},
      (world.run nextRow config round).answers = world.answers ++ [answer] →
      world.answers.length < (world.run nextRow config round).answers.length := by
    intro answer world isAnswer
    simp [isAnswer]
  cases pending with
  | none =>
    obtain ⟨_, isExecutor⟩ := stands.idle rfl
    obtain rfl : executor = cursor.isSome := isExecutor
    cases rows with
    | cons row rows => exact answeredAtOnce rfl
    | nil =>
      cases cursor with
      | none => exact answeredAtOnce rfl
      | some cursor => exact answeredLast rfl
  | some request =>
    obtain ⟨rfl, rfl, rfl, brings⟩ := stands.waiting request rfl
    cases request with
    | reserving cursor => exact answeredLast rfl
    | queued cursor => exact answeredLast rfl
    | running cursor => exact answeredLast rfl
    | answered result =>
      cases result with
      | error error => exact brings.elim
      | ok batch => exact answeredAtOnce rfl

theorem Sound.held_of_dropped (sound : world.Sound nextRow config start all expected)
    (dropped : world.stream = none) :
    (world.run nextRow config [.take, .finish]).held = [] := by
  obtain ⟨_, orphan, cleanup, answers⟩ := world
  subst dropped
  cases orphan with
  | none => rfl
  | some request =>
    obtain ⟨cursor, _, rfl | rfl, _⟩ := sound.orphaned request rfl
    · rfl
    · rfl

/-- What a stream over a cursor with some rows has done. -/
structure Reads (nextRow : NextRow Cursor Item) (config : BlockingConfig) (start : Cursor)
    (rows : List (SizedRow StoreError Item)) (world : StreamWorld Cursor Item) : Prop where
  /-- It has yielded rows of the cursor in their order, up to and including the first
  failure, and behind all of them nothing any more. -/
  answers : ∃ count ended,
    world.answers = ((uptoFailure rows).take count).map some ++ List.replicate ended none ∧
      (ended ≠ 0 → (uptoFailure rows).length ≤ count)
  /-- It answers once more when it is polled and served. -/
  progress : ∀ stream, world.stream = some stream →
    world.answers.length < (world.run nextRow config round).answers.length
  /-- The cursor is in one place, and it was not asked behind its end or its first
  failure. -/
  custody : ∃ calls ≤ callsNeeded rows,
    world.held ++ world.cleanup = [afterCalls nextRow calls start]
  /-- At the end and behind a failure the place is the cleanup queue. -/
  released : none ∈ world.answers ∨ (∃ error, some (.error error) ∈ world.answers) → world.held = []
  /-- It is the cleanup queue, too, when the stream was dropped and the worker has done
  with it. -/
  dropped : world.stream = none → (world.run nextRow config [.take, .finish]).held = []

end StreamWorld

/-- A stream yields the rows of its cursor up to the first failure and then ends, for
all batches and in all interleavings with the worker, and it hands its cursor to the
cleanup queue once. -/
theorem stream_yields_cursor_rows (nextRow : NextRow Cursor Item) (config : BlockingConfig)
    {start : Cursor} {rows : List (SizedRow StoreError Item)} (lists : Lists nextRow start rows)
    (fits : config.streamLimits.Fits config.streamLimits.fresh rows) {events : List StreamEvent}
    (reaches : ∀ event ∈ events, event.Reaches) :
    ((StreamWorld.new start).run nextRow config events).Reads nextRow config start rows := by
  have isExpected := (BatchLimits.delivered_of_fits fits).symm
  have sound := (StreamWorld.sound_new lists isExpected).run reaches
  obtain ⟨taken, upcoming, ended, split, isAnswers, last, _, finished⟩ := sound.answered
  refine ⟨⟨taken.length, ended, ?_, fun hasEnded => ?_⟩, fun stream => sound.progress, ?_, ?_,
    sound.held_of_dropped⟩
  · rw [split, List.take_left]
    exact isAnswers
  · rw [split, last hasEnded, List.append_nil]
  · obtain ⟨_, ⟨calls, few, rfl⟩, one⟩ := sound.custody
    exact ⟨calls, few, one⟩
  · rw [isAnswers]
    rintro (present | ⟨error, present⟩)
    · refine finished (.inl ?_)
      rintro rfl
      simp at present
    · refine finished (.inr ⟨error, ?_⟩)
      simpa using present

/-- A cursor that is a list of rows. -/
def nextOfList : NextRow (List (SizedRow StoreError Item)) Item
  | [] => (none, [])
  | row :: rows => (some row, rows)

theorem lists_nextOfList (rows : List (SizedRow StoreError Item)) : Lists nextOfList rows rows := by
  induction rows with
  | nil => exact .ended rfl
  | cons row rows rest => exact .row rfl rest

/-- A row, a failure and another row. -/
def failingRows : List (SizedRow StoreError Nat) :=
  [(.ok 1, 5), (.error .workerQueueClosed, 0), (.ok 2, 1)]

/-- Behind its first failure a stream yields nothing more, and its cursor has been
released without the row behind the failure. -/
theorem failing_cursor_is_released :
    ((StreamWorld.new failingRows).run nextOfList .single
        (StreamWorld.round ++ StreamWorld.round ++ StreamWorld.round)).answers =
      [some (.ok 1), some (.error .workerQueueClosed), none, none] ∧
    ((StreamWorld.new failingRows).run nextOfList .single
        (StreamWorld.round ++ StreamWorld.round ++ StreamWorld.round)).cleanup = [[(.ok 2, 1)]] ∧
    ((StreamWorld.new failingRows).run nextOfList .single
        (StreamWorld.round ++ StreamWorld.round ++ StreamWorld.round)).Reads nextOfList .single
      failingRows failingRows :=
  ⟨by decide, by decide, stream_yields_cursor_rows nextOfList .single
    (lists_nextOfList failingRows) ⟨by decide, trivial⟩ (by decide)⟩

end Mnesis.Fjall
