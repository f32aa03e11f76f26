import Mnesis.Foundation.Growing
import Mnesis.InMemory.Invariants
import Mnesis.InMemory.Snapshot

/-!
# What cursors read

A cursor of the in-memory store reads the rows of a stream, or those of the index,
as a reader of a growing list does.  It therefore yields the events from its start
on, in order and each of them once.
-/

namespace Mnesis.InMemory

open Foundation Kernel Store Wire

variable {State α Row : Type}

/-- The log that calls lead to. -/
def logAfter (calls : List Call) : Log := (logMachine limits).run calls

theorem logAfter_grows (further : calls <+: more) :
    (logAfter calls).entries <+: (logAfter more).entries := by
  obtain ⟨added, rfl⟩ := further
  induction added using List.reverseRecOn with
  | nil => rw [List.append_nil]
  | append_singleton added call grown =>
    unfold logAfter
    rw [← List.append_assoc, Machine.run_snoc]
    exact grown.trans (EventLog.prefix_answer _ call.toLog)

/-- A cursor does what a reader of the rows does whose states its own ones
simulate. -/
structure Follows (cursor : Cursor State α) (size : Nat) (rowsOf : Log → List Row)
    (simulates : State → PageReader Row → Prop) (shows : α → Row) : Prop where
  grows : ∀ {log later : Log}, log.entries <+: later.entries → rowsOf log <+: rowsOf later
  positive : 0 < size
  reads : ∀ {state reader}, simulates state reader → cursor.reads state = reader.reads
  ended : ∀ {inner log state reader}, Represents inner log → simulates state reader →
    reader.next size (rowsOf log) = none → cursor.next inner state = none
  yielded : ∀ {inner log state reader row after}, Represents inner log →
    simulates state reader → (rowsOf log)[reader.place]? = some row →
    reader.next size (rowsOf log) = some (row, after) →
    ∃ item stateAfter, cursor.next inner state = some (.ok item, stateAfter) ∧
      shows item = row ∧ simulates stateAfter after

/-- What a cursor has yielded: a run of the rows from its start on, all of which were
there at its last page, and all that were there if it has ended.  It ends when
nothing more is written, and it stays ended. -/
structure Reading.Reads (cursor : Cursor State α) (rowsOf : Log → List Row) (shows : α → Row)
    (start : Nat) (reading : Reading State α) : Prop where
  yields : ∃ items : List α, reading.yielded = items.map .ok ∧
    items.map shows <+: (rowsOf (logAfter reading.paged)).drop start ∧
    (reading.cursor = none → items.map shows = (rowsOf (logAfter reading.paged)).drop start)
  paged : reading.paged <+: reading.calls
  ends : ∃ polls, (reading.run cursor (List.replicate polls .poll)).cursor = none
  stays : reading.cursor = none → ∀ moves,
    (reading.run cursor moves).cursor = none ∧ (reading.run cursor moves).yielded = reading.yielded

/-- A cursor in the middle of its rows, with the reader it follows. -/
structure Reading.Keeps (rowsOf : Log → List Row) (simulates : State → PageReader Row → Prop)
    (shows : α → Row) (start : Nat) (items : List α) (reader : Option (PageReader Row))
    (reading : Reading State α) : Prop where
  yielded : reading.yielded = items.map .ok
  paged : reading.paged <+: reading.calls
  gives : PageReader.Gives start (rowsOf (logAfter reading.paged)) (items.map shows) reader
  related : Option.Rel simulates reading.cursor reader

section Runs

variable {cursor : Cursor State α} {rowsOf : Log → List Row}
variable {simulates : State → PageReader Row → Prop} {shows : α → Row} {reading : Reading State α}
theorem Reading.step_poll_of_ended (cursor : Cursor State α) (ended : reading.cursor = none) :
    reading.step cursor .poll = reading := by
  obtain ⟨calls, paged, state, yielded⟩ := reading
  obtain rfl : state = none := ended
  simp [Reading.step, pollFused]

theorem Reading.Keeps.cursor_eq_none
    (keeps : reading.Keeps rowsOf simulates shows start items none) :
    reading.cursor = none := by
  cases isState : reading.cursor with
  | none => rfl
  | some state =>
    have impossible := keeps.related
    rw [isState] at impossible
    cases impossible

theorem Reading.Keeps.exists_cursor
    (keeps : reading.Keeps rowsOf simulates shows start items (some reader)) :
    ∃ state, reading.cursor = some state ∧ simulates state reader := by
  have related := keeps.related
  cases isState : reading.cursor with
  | none =>
    rw [isState] at related
    cases related
  | some state =>
    rw [isState] at related
    cases related with
    | some related => exact ⟨state, rfl, related⟩

theorem Reading.Keeps.call {reader : Option (PageReader Row)}
    (keeps : reading.Keeps rowsOf simulates shows start items reader) (call : Call) :
    (reading.step cursor (.call call)).Keeps rowsOf simulates shows start items reader where
  yielded := keeps.yielded
  paged := keeps.paged.trans (List.prefix_append _ _)
  gives := keeps.gives
  related := keeps.related

theorem Reading.step_poll_none (isState : reading.cursor = some state)
    (isNext : cursor.next (machine.run reading.calls) state = none) :
    reading.step cursor .poll =
      { calls := reading.calls
        paged := if cursor.reads state then reading.calls else reading.paged
        cursor := none
        yielded := reading.yielded } := by
  unfold Reading.step
  rw [isState, Option.any_some, pollFused, isNext]
  simp

theorem Reading.step_poll_some (isState : reading.cursor = some state)
    (isNext : cursor.next (machine.run reading.calls) state = some (item, after)) :
    reading.step cursor .poll =
      { calls := reading.calls
        paged := if cursor.reads state then reading.calls else reading.paged
        cursor := some after
        yielded := reading.yielded ++ [item] } := by
  unfold Reading.step
  rw [isState, Option.any_some, pollFused, isNext]
  rfl

section

variable (follows : Follows cursor size rowsOf simulates shows)
include follows

theorem Follows.pageAfter (related : simulates state reader) (calls paged : List Call) :
    rowsOf (logAfter (if cursor.reads state then calls else paged)) =
      reader.pageAfter (rowsOf (logAfter calls)) (rowsOf (logAfter paged)) := by
  rw [follows.reads related, PageReader.pageAfter]
  split <;> rfl

/-- A poll yields the next row or ends. -/
theorem Follows.poll (keeps : reading.Keeps rowsOf simulates shows start items (some reader)) :
    (∃ item after, (reading.step cursor .poll).Keeps rowsOf simulates shows start
        (items ++ [item]) (some after) ∧ after.place = reader.place + 1 ∧
        reader.place < (rowsOf (logAfter reading.calls)).length) ∨
      (reading.step cursor .poll).Keeps rowsOf simulates shows start items none := by
  have represents : Represents (machine.run reading.calls) (logAfter reading.calls) :=
    implements.refines.run reading.calls
  have grown := follows.grows (logAfter_grows keeps.paged)
  obtain ⟨state, isState, related⟩ := keeps.exists_cursor
  have pagedAfter : (if cursor.reads state then reading.calls else reading.paged) <+:
      reading.calls := by
    split
    · exact List.prefix_refl _
    · exact keeps.paged
  cases taken : reader.next size (rowsOf (logAfter reading.calls)) with
  | none =>
    right
    rw [reading.step_poll_none isState (follows.ended represents related taken)]
    refine ⟨keeps.yielded, pagedAfter, ?_, .none⟩
    rw [follows.pageAfter related]
    exact keeps.gives.finish follows.positive grown taken
  | some next =>
    left
    obtain ⟨row, after⟩ := next
    obtain ⟨at_, _⟩ := keeps.gives.going reader rfl
    have isRow := at_.getElem?_of_next grown taken
    obtain ⟨item, stateAfter, isNext, shown, relatedAfter⟩ :=
      follows.yielded represents related isRow taken
    refine ⟨item, after, ?_, (at_.next_eq_some taken).2.1, (List.getElem?_eq_some_iff.mp isRow).1⟩
    rw [reading.step_poll_some isState isNext]
    refine ⟨?_, pagedAfter, ?_, .some relatedAfter⟩
    · rw [keeps.yielded, List.map_append, List.map_singleton]
    · rw [follows.pageAfter related, List.map_append, List.map_singleton, shown]
      exact keeps.gives.more grown taken

theorem Follows.run {reader : Option (PageReader Row)}
    (keeps : reading.Keeps rowsOf simulates shows start items reader) (moves : List Move) :
    ∃ items reader, (reading.run cursor moves).Keeps rowsOf simulates shows start items reader := by
  induction moves generalizing reading items reader with
  | nil => exact ⟨items, reader, keeps⟩
  | cons move moves step =>
    cases move with
    | call call => exact step (keeps.call call)
    | poll =>
      cases reader with
      | some reader =>
        obtain ⟨_, _, after, _⟩ | after := follows.poll keeps
        · exact step after
        · exact step after
      | none =>
        unfold Reading.run
        rw [List.foldl_cons, reading.step_poll_of_ended cursor keeps.cursor_eq_none]
        exact step keeps

end

end Runs

section Streams

variable {batchSize : BatchSize} {id : StreamKey} {state : ReadState} {inner : Inner}

/-- The states of a cursor over a stream as those of a reader of its events. -/
structure ReadState.Simulates (batchSize : BatchSize) (id : StreamKey) (state : ReadState)
    (reader : PageReader PendingEnvelope) : Prop where
  streamId : state.streamId = id
  size : state.batchSize = batchSize
  next : ∃ version, state.nextReadVersion = .ok version ∧ version.toNat = reader.place + 1
  buffer : state.buffer = reader.ahead.map storedFrame
  done : state.done = reader.done
  previous : ∀ previous ∈ state.prevVersion, previous.toNat ≤ reader.place

theorem Represents.scanBatch (represents : Represents inner log) (id : StreamKey) {start : Version}
    (isStart : start.toNat = place + 1) (size : Nat) :
    (((inner.history id).map fun rows => InMemory.scanBatch rows start.asU64 size).getD []) =
      (((log.stream id).drop place).take size).map storedFrame := by
  rw [Inner.history, represents.streams.rows id]
  change (Option.map _ (if log.stream id = [] then none
    else some ((log.stream id).map storedFrame))).getD [] = _
  split
  next empty =>
    rw [empty]
    simp
  next =>
    have numbered : ((log.stream id).map storedFrame).map (fun row => row.version.toNat) =
        List.range' 1 ((log.stream id).map storedFrame).length := by
      rw [List.map_map, List.length_map]
      exact log.numbered id
    rw [Option.map_some, Option.getD_some, InMemory.scanBatch, drop_below_numbered numbered isStart,
      List.map_take, List.map_drop]

theorem ReadState.Simulates.refill (simulates : state.Simulates batchSize id reader)
    (represents : Represents inner log) {start : Version}
    (isStart : state.nextReadVersion = .ok start) :
    (state.refill inner start).Simulates batchSize id
      (reader.refill batchSize.get (log.stream id)) := by
  obtain ⟨version, isNext, place⟩ := simulates.next
  rw [isStart] at isNext
  cases isNext
  have batch := represents.scanBatch id place batchSize.get
  refine ⟨simulates.streamId, simulates.size, ⟨start, isStart, place⟩, ?_, ?_, simulates.previous⟩
  · simp only [ReadState.refill, simulates.streamId, simulates.size]
    exact batch
  · simp only [ReadState.refill, PageReader.refill, simulates.streamId, simulates.size, batch,
      List.length_map]

end Streams

/-- The events with their positions. -/
def positioned (log : Log) : List (Nat × StreamKey × PendingEnvelope) :=
  (log.entries.zipIdx 1).map Prod.swap

theorem mem_positioned :
    row ∈ positioned log ↔ 1 ≤ row.1 ∧ log.entries[row.1 - 1]? = some row.2 := by
  rw [positioned, List.mem_map, ← List.mk_mem_zipIdx_iff_le_and_getElem?_sub]
  constructor
  · rintro ⟨entry, present, rfl⟩
    exact present
  · intro present
    exact ⟨_, present, rfl⟩

theorem positioned_numbered (log : Log) :
    (positioned log).map Prod.fst = List.range' 1 (positioned log).length := by
  rw [positioned, List.map_map, List.length_map, List.length_zipIdx]
  exact List.zipIdx_map_snd 1 log.entries

/-- The row of an event in the index. -/
def indexRow (row : Nat × StreamKey × PendingEnvelope) : Nat × StreamKey × StoredFrame :=
  (row.1, row.2.1, storedFrame row.2.2)

/-- A row of the index with the number of its position. -/
def numberedRow (row : InMemoryAllPos × StreamKey × StoredFrame) :
    Nat × StreamKey × StoredFrame :=
  (row.1.toNat, row.2)

section All

variable {batchSize : BatchSize} {state : GlobalReadState}
variable {reader after : PageReader (Nat × StreamKey × PendingEnvelope)} {inner : Inner}

theorem Represents.index_toList (represents : Represents inner log) :
    inner.globalIndex.toList.map numberedRow = (positioned log).map indexRow := by
  have indexSorted : Increasing Prod.fst (inner.globalIndex.toList.map numberedRow) := by
    have increasing := represents.coherent.increasing
    rw [List.pairwise_map] at increasing
    exact List.pairwise_map.mpr increasing
  have eventsSorted : Increasing Prod.fst ((positioned log).map indexRow) := by
    have increasing : (List.range' 1 (positioned log).length).Pairwise (· < ·) :=
      List.pairwise_lt_range'
    rw [← positioned_numbered log, List.pairwise_map] at increasing
    exact List.pairwise_map.mpr increasing
  refine increasing_ext indexSorted eventsSorted fun row => ?_
  rw [List.mem_map, List.mem_map]
  constructor
  · rintro ⟨entry, present, rfl⟩
    obtain ⟨envelope, isEntry, isFrame⟩ := represents.mem_index.mp present
    refine ⟨(entry.1.toNat, entry.2.1, envelope),
      mem_positioned.mpr ⟨entry.1.toNat_pos, isEntry⟩, ?_⟩
    rw [indexRow, isFrame]
    rfl
  · rintro ⟨⟨number, key, envelope⟩, present, rfl⟩
    obtain ⟨positive, isEntry⟩ := mem_positioned.mp present
    obtain ⟨inside, _⟩ := List.getElem?_eq_some_iff.mp isEntry
    obtain ⟨position, isPosition⟩ := represents.exists_position inside
    have isNumber : position.toNat = number := by
      change 1 ≤ number at positive
      rw [isPosition]
      exact Nat.sub_add_cancel positive
    refine ⟨(position, key, storedFrame envelope), represents.mem_index.mpr ⟨envelope, ?_, rfl⟩, ?_⟩
    · rw [isNumber]
      exact isEntry
    · rw [numberedRow, isNumber]
      rfl

/-- The states of a cursor over all events as those of a reader. -/
structure GlobalReadState.Simulates (batchSize : BatchSize) (state : GlobalReadState)
    (reader : PageReader (Nat × StreamKey × PendingEnvelope)) : Prop where
  size : state.batchSize = batchSize
  place : depth state.after = reader.place
  buffer : state.buffer.map numberedRow = reader.ahead.map indexRow
  done : state.done = reader.done

theorem Represents.index_behind (represents : Represents inner log)
    (position : Option InMemoryAllPos) (size : Nat) :
    ((inner.globalIndex.toList.filter fun entry =>
        position.all fun bound => bound.asU64 < entry.1.asU64).take size).map numberedRow =
      (((positioned log).drop (depth position)).take size).map indexRow := by
  have isBehind : (fun entry : InMemoryAllPos × StreamKey × StoredFrame =>
      position.all fun bound => decide (bound.asU64 < entry.1.asU64)) =
        (fun row => decide (depth position < row.1)) ∘ numberedRow := by
    funext entry
    cases position with
    | none => simp [numberedRow, depth_none, entry.1.toNat_pos]
    | some bound => simp [numberedRow, UInt64.lt_iff_toNat_lt, depth_some]; rfl
  have behind := filter_numbered (positioned_numbered log) (depth position)
  rw [Nat.add_sub_cancel] at behind
  rw [List.map_take, isBehind, ← List.filter_map, represents.index_toList, List.filter_map,
    ← List.map_take]
  change List.map indexRow (List.take size ((positioned log).filter
    fun row => decide (depth position < row.1))) = _
  rw [behind]

theorem GlobalReadState.Simulates.refill (simulates : state.Simulates batchSize reader)
    (represents : Represents inner log) :
    (state.refill inner).Simulates batchSize (reader.refill batchSize.get (positioned log)) := by
  have batch := represents.index_behind state.after batchSize.get
  have sameLength := congrArg List.length batch
  rw [List.length_map, List.length_map] at sameLength
  refine ⟨simulates.size, simulates.place, ?_, ?_⟩
  · simp only [GlobalReadState.refill, simulates.size]
    rw [batch, simulates.place]
    rfl
  · simp only [GlobalReadState.refill, PageReader.refill, simulates.size, sameLength,
      simulates.place]

end All

end Mnesis.InMemory
