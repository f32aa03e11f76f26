import Mathlib
import Mnesis.Store.Contract
import Mnesis.Store.Persisted

/-!
# The in-memory store

A call that writes first checks and encodes everything under the single lock of the
store, and then advances the position counter, the index of all events and the rows of
the streams it writes to.

A cursor reads one page at a time under the lock and resumes behind the last event it
has yielded.  A page that is not full is its last one.  An export session keeps the last
version that every stream had when it was opened, and its cursors read up to these.
-/

namespace Mnesis.InMemory

open Foundation Kernel Store Wire

/-- Failures of the store. -/
inductive InMemoryStoreError
  | corruptVersion
  | versionOverflow
  | globalSeqOverflow
  | wire (error : WireError)
  | envelopeCorrupt (version : UInt64) (source : EnvelopeError)
  deriving DecidableEq

/-- A position of the store. -/
abbrev InMemoryAllPos := AllPosition

instance : Ord InMemoryAllPos where
  compare := compareOn Version.asU64

instance : Std.TransOrd InMemoryAllPos :=
  inferInstanceAs (Std.TransCmp (compareOn Version.asU64))

instance : Std.LawfulEqOrd InMemoryAllPos where
  eq_of_compare {left right} same := by
    have sameNumber : left.asU64 = right.asU64 := Std.LawfulEqOrd.eq_of_compare same
    exact Version.toNat_injective (congrArg UInt64.toNat sameNumber)

/-- A stored event. -/
structure StoredFrame where
  version : UInt64
  value : Bytes
  offsets : FrameOffsets
  schemaVersion : SchemaVersion
  deriving DecidableEq

/-- The state behind the lock. -/
structure Inner where
  streams : Std.ExtHashMap StreamKey (List StoredFrame)
  nextGlobalSeq : InMemoryAllPos
  globalIndex : Std.ExtTreeMap InMemoryAllPos (StreamKey × StoredFrame) compare

/-- The state of a new store. -/
def Inner.default : Inner where
  streams := ∅
  nextGlobalSeq := .initial
  globalIndex := ∅

/-- Encode an envelope. -/
def encodePendingToFrame (envelope : PendingEnvelope) :
    Except InMemoryStoreError StoredFrame := do
  let frame ← (encodeFrame envelope.schemaVersion envelope.eventType envelope.payload
    envelope.metadata).mapError .wire
  return {
    version := envelope.version.asU64
    value := frame.value
    offsets := frame.offsets
    schemaVersion := envelope.schemaVersion }

/-- The append contract in terms of the store. -/
def inmemoryValidationErr (id : StreamKey) :
    AppendValidationError → AppendError InMemoryStoreError
  | .conflict _ expected actual => .conflict id expected actual
  | .versionOverflow => .store .versionOverflow

/-- The number of rows of a stream. -/
def Inner.streamLen (inner : Inner) (id : StreamKey) : Nat :=
  (inner.streams[id]?.map List.length).getD 0

/-- A length as a 64-bit number. -/
def lenAsU64 (len : Nat) : Except InMemoryStoreError UInt64 :=
  okOr ((narrow (2 ^ 64) len).map UInt64.ofNat) .versionOverflow

/-- Encode envelopes and assign them the positions from `seq` on.  The answer
names the last position assigned and the next one. -/
def assignPositions :
    InMemoryAllPos → InMemoryAllPos → List PendingEnvelope →
      Except InMemoryStoreError
        (List (InMemoryAllPos × StoredFrame) × InMemoryAllPos × InMemoryAllPos)
  | lastAssigned, seq, [] => return ([], lastAssigned, seq)
  | _, seq, envelope :: rest => do
    let frame ← encodePendingToFrame envelope
    let next ← okOr seq.next .globalSeqOverflow
    let (rows, lastAssigned, seqAfter) ← assignPositions seq next rest
    return ((seq, frame) :: rows, lastAssigned, seqAfter)

/-- Index rows of a stream by their position. -/
def indexRows (id : StreamKey) (rows : List (InMemoryAllPos × StoredFrame))
    (index : Std.ExtTreeMap InMemoryAllPos (StreamKey × StoredFrame) compare) :
    Std.ExtTreeMap InMemoryAllPos (StreamKey × StoredFrame) compare :=
  rows.foldl (fun index row => index.insert row.1 (id, row.2)) index

/-- Add rows to a stream, which is created if it is not there. -/
def extendStream (id : StreamKey) (frames : List StoredFrame)
    (streams : Std.ExtHashMap StreamKey (List StoredFrame)) :
    Std.ExtHashMap StreamKey (List StoredFrame) :=
  streams.insert id (streams[id]?.getD [] ++ frames)

/-- Append a batch to one stream. -/
def append (id : StreamKey) (expectedVersion : Option Version) (envelopes : PendingBatch) :
    Locked Inner (AppendError InMemoryStoreError) InMemoryAllPos := do
  let guard ← get
  let current ← Locked.ofResult ((lenAsU64 (guard.streamLen id)).mapError AppendError.store)
  Locked.ofResult ((validateAppendVersions current expectedVersion envelopes id).mapError
    (inmemoryValidationErr id))
  let (rows, lastAssigned, seq) ← Locked.ofResult
    ((assignPositions guard.nextGlobalSeq guard.nextGlobalSeq envelopes.toList).mapError
      AppendError.store)
  modify fun guard => { guard with nextGlobalSeq := seq }
  modify fun guard => { guard with globalIndex := indexRows id rows guard.globalIndex }
  modify fun guard => { guard with
    streams := extendStream id (rows.map Prod.snd) guard.streams }
  return lastAssigned

/-- Every run must build on the current version of its stream. -/
def validateHeads (inner : Inner) :
    Nat → List PlannedAppend → Except (AtomicAppendError InMemoryStoreError) Unit
  | _, [] => return ()
  | index, write :: writes => do
    let actual ← (lenAsU64 (inner.streamLen write.target)).mapError .store
    rejectIf (actual ≠ rawHead write.expectedVersion) (.conflict index (Version.new actual))
    validateHeads inner (index + 1) writes

/-- Encode runs and assign them the positions from `seq` on. -/
def stageRuns :
    InMemoryAllPos → InMemoryAllPos → List PlannedAppend →
      Except InMemoryStoreError
        (List (StreamKey × List (InMemoryAllPos × StoredFrame)) × InMemoryAllPos × InMemoryAllPos)
  | lastAssigned, seq, [] => return ([], lastAssigned, seq)
  | lastAssigned, seq, write :: writes => do
    let (rows, lastAssigned, seq) ← assignPositions lastAssigned seq write.batch.toList
    let (staged, lastAssigned, seq) ← stageRuns lastAssigned seq writes
    return ((write.target, rows) :: staged, lastAssigned, seq)

/-- Append runs to several streams, all of them or none. -/
def atomicAppendMany (writes : List PlannedAppend) :
    Locked Inner (AtomicAppendError InMemoryStoreError) (Option InMemoryAllPos) := do
  if writes.isEmpty then
    return none
  Locked.ofResult ((validateDistinctTargets (writes.map PlannedAppend.target)).mapError
    AtomicAppendError.invalidRoute)
  Locked.ofResult ((validateAtomicRuns writes).mapError AtomicAppendError.invalidRun)
  let guard ← get
  Locked.ofResult (validateHeads guard 0 writes)
  let (staged, lastAssigned, seq) ← Locked.ofResult
    ((stageRuns guard.nextGlobalSeq guard.nextGlobalSeq writes).mapError AtomicAppendError.store)
  modify fun guard => { guard with nextGlobalSeq := seq }
  modify fun guard => { guard with
    globalIndex := staged.foldl (fun index run => indexRows run.1 run.2 index) guard.globalIndex }
  modify fun guard => { guard with
    streams := staged.foldl
      (fun streams run => extendStream run.1 (run.2.map Prod.snd) streams) guard.streams }
  return some lastAssigned

/-- The store and the calls that write to it. -/
def machine : Machine Inner Call (Answer InMemoryStoreError) :=
  writeMachine .default
    (fun id expected envelopes => (append id expected envelopes).exec)
    (fun writes => (atomicAppendMany writes).exec)

/-- The rows of a stream, if it has any. -/
def Inner.history (inner : Inner) (id : StreamKey) : Option (List StoredFrame) :=
  inner.streams[id]?

/-- The last versions of the streams. -/
def Inner.heads (inner : Inner) : Std.ExtHashMap StreamKey UInt64 :=
  inner.streams.filterMap fun _ rows => rows.getLast?.map StoredFrame.version

/-- The last version of a stream among some. -/
def headAmong (heads : Std.ExtHashMap StreamKey UInt64) (id : StreamKey) : Option UInt64 :=
  heads[id]?

/-- Failures of an export. -/
inductive ExportError (AdapterError : Type)
  | store (error : AdapterError)
  | invalidLifetime (lifetime : Nat)
  | expired
  deriving DecidableEq

/-- The envelope of a stored event. -/
def frameToEnvelope (frame : StoredFrame) : Except InMemoryStoreError PersistedEnvelope := do
  let version ← okOr (Version.new frame.version) .corruptVersion
  (PersistedEnvelope.tryNew version frame.value frame.schemaVersion frame.offsets.eventType
    frame.offsets.payload frame.offsets.metadata).mapError (.envelopeCorrupt frame.version)

/-- The last versions of the streams, and the instant at which they expire. -/
structure InMemoryExportSession where
  heads : Std.ExtHashMap StreamKey UInt64
  deadline : Nat

/-- Open a session.  An instant is a number below the limit of the clock. -/
def openExportSession (clockLimit lifetime now : Nat) (guard : Inner) :
    Except (ExportError InMemoryStoreError) InMemoryExportSession := do
  rejectIf (lifetime = 0) (.invalidLifetime lifetime)
  let deadline ← okOr (narrow clockLimit (now + lifetime)) (.invalidLifetime lifetime)
  return { heads := guard.heads, deadline }

/-- A session is of use before its deadline only. -/
def InMemoryExportSession.checkLive (session : InMemoryExportSession) (now : Nat) :
    Except (ExportError InMemoryStoreError) Unit :=
  rejectIf (session.deadline ≤ now) .expired

/-- A cursor over the states of a stream of items; without a state it is
exhausted. -/
structure InMemoryExportCursor (State : Type) where
  inner : Option State
  deadline : Nat

/-- What a stream yields next, with the state behind it. -/
abbrev Yield (α State : Type) := Option (Except (ExportError InMemoryStoreError) α × State)

section Poll

variable {State α : Type}

/-- Ask a cursor for its next item.  At its end and with the first failure it
gives up its state. -/
def InMemoryExportCursor.pollNext (next : State → Yield α State) (now : Nat)
    (cursor : InMemoryExportCursor State) :
    Option (Except (ExportError InMemoryStoreError) α) × InMemoryExportCursor State :=
  match cursor.inner with
  | none => (none, cursor)
  | some state =>
    if cursor.deadline ≤ now then
      (some (.error .expired), { cursor with inner := none })
    else
      match next state with
      | none => (none, { cursor with inner := none })
      | some (.error error, _) => (some (.error error), { cursor with inner := none })
      | some (.ok value, state) => (some (.ok value), { cursor with inner := some state })

/-- The items of a list one after the other. -/
def nextOf : List α → Yield α (List α)
  | [] => none
  | item :: items => some (.ok item, items)

end Poll

/-- List the streams of a session, in the given order. -/
def InMemoryExportSession.listStreams {Key : Type} (session : InMemoryExportSession) (now : Nat)
    (order : List Key) :
    Except (ExportError InMemoryStoreError) (InMemoryExportCursor (List Key)) := do
  session.checkLive now
  return ⟨some order, session.deadline⟩

/-- A stream and its last version in the session, the next version to read and the
rows that were read ahead. -/
structure ExportState where
  key : StreamKey
  head : Option UInt64
  next : Option Version
  buffer : List StoredFrame

/-- The rows from a version on, as far as the ceiling and a page go. -/
def exportPage (batchSize : BatchSize) (start ceiling : UInt64)
    (history : List StoredFrame) : List StoredFrame :=
  -- the rows are ordered by version, and the search finds the first one from `start` on
  ((history.drop (history.takeWhile fun row => row.version < start).length).takeWhile
    fun row => row.version ≤ ceiling).take batchSize.get

/-- The rows to take the next one from: those read ahead, or else another page. -/
def refill (batchSize : BatchSize) (guard : Inner)
    (state : ExportState) : Option (List StoredFrame) :=
  if state.buffer.isEmpty then do
    let start ← state.next
    let ceiling ← state.head
    if ceiling < start.asU64 then
      none
    else
      let history ← guard.history state.key
      some (exportPage batchSize start.asU64 ceiling history)
  else
    some state.buffer

/-- The next event of a stream. -/
def nextExported (batchSize : BatchSize) (guard : Inner)
    (state : ExportState) : Yield PersistedEnvelope ExportState :=
  match refill batchSize guard state with
  | some (row :: buffer) =>
    let envelope := (frameToEnvelope row).mapError ExportError.store
    let following := envelope.toOption.bind fun event => event.version.next
    some (envelope, { state with next := following, buffer })
  | _ => none

/-- Read a stream from a version on. -/
def InMemoryExportSession.exportStream (session : InMemoryExportSession) (now : Nat)
    (id : StreamKey) (start : Version) :
    Except (ExportError InMemoryStoreError) (InMemoryExportCursor ExportState) := do
  session.checkLive now
  return ⟨some ⟨id, headAmong session.heads id, some start, []⟩, session.deadline⟩

/-- What a cursor yields instead of an event: a failure of the store, or the panic
of a debug assertion. -/
inductive ReadFailure
  | store (error : InMemoryStoreError)
  | assertion
  deriving DecidableEq

/-- What an unfolded state yields next, with the state behind it. -/
abbrev Unfolded (α State : Type) := Option (Except ReadFailure α × State)

/-- The rows from a version on, at most a page of them. -/
def scanBatch (rows : List StoredFrame) (start : UInt64) (batchSize : Nat) : List StoredFrame :=
  -- the rows are ordered by version, and the search finds the first one from `start` on
  (rows.drop (rows.takeWhile fun row => row.version < start).length).take batchSize

/-- The state of a cursor over one stream.  The previous version is only kept where
debug assertions are enabled. -/
structure ReadState where
  streamId : StreamKey
  start : Version
  lastVersion : Option Version
  batchSize : BatchSize
  buffer : List StoredFrame
  done : Bool
  prevVersion : Option UInt64

namespace ReadState

/-- The version to go on with. -/
def nextReadVersion (state : ReadState) : Except InMemoryStoreError Version :=
  state.lastVersion.elim (.ok state.start) fun version => okOr version.next .versionOverflow

/-- Read a page. -/
def refill (guard : Inner) (start : Version) (state : ReadState) : ReadState :=
  let batch := ((guard.history state.streamId).map fun rows =>
    scanBatch rows start.asU64 state.batchSize.get).getD []
  { state with done := batch.length < state.batchSize.get, buffer := batch }

/-- Yield a row that was read. -/
def yieldRow (debugAssertions : Bool) (row : StoredFrame)
    (state : ReadState) : Except ReadFailure PersistedEnvelope × ReadState :=
  if debugAssertions && state.prevVersion.any fun previous => row.version ≤ previous then
    (.error .assertion, state)
  else
    let state := if debugAssertions then { state with prevVersion := some row.version } else state
    match frameToEnvelope row with
    | .ok envelope => (.ok envelope, { state with lastVersion := some envelope.version })
    | .error error => (.error (.store error), { state with done := true })

/-- Yield the first row of the buffer. -/
def popFront (debugAssertions : Bool) (state : ReadState) : Unfolded PersistedEnvelope ReadState :=
  match state.buffer with
  | [] => none
  | row :: buffer => some (yieldRow debugAssertions row { state with buffer })

/-- The next event of a stream. -/
def next (debugAssertions : Bool) (guard : Inner)
    (state : ReadState) : Unfolded PersistedEnvelope ReadState :=
  if state.buffer.isEmpty && !state.done then
    match state.nextReadVersion with
    | .ok nextFrom => (state.refill guard nextFrom).popFront debugAssertions
    | .error error => some (.error (.store error), { state with done := true })
  else
    state.popFront debugAssertions

end ReadState

/-- A cursor over a stream from a version on. -/
def readStream (batchSize : BatchSize) (id : StreamKey) (start : Version) : ReadState where
  streamId := id
  start := start
  lastVersion := none
  batchSize := batchSize
  buffer := []
  done := false
  prevVersion := none

/-- The state of a cursor over all events. -/
structure GlobalReadState where
  after : Option InMemoryAllPos
  batchSize : BatchSize
  buffer : List (InMemoryAllPos × StreamKey × StoredFrame)
  done : Bool

namespace GlobalReadState

/-- Read a page. -/
def refill (guard : Inner) (state : GlobalReadState) : GlobalReadState :=
  let batch := (guard.globalIndex.toList.filter fun entry =>
    state.after.all fun bound => bound.asU64 < entry.1.asU64).take state.batchSize.get
  { state with done := batch.length < state.batchSize.get, buffer := batch }

/-- Yield a row that was read. -/
def yieldRow (row : InMemoryAllPos × StreamKey × StoredFrame) (state : GlobalReadState) :
    Except ReadFailure (InMemoryAllPos × StreamKey × PersistedEnvelope) × GlobalReadState :=
  match frameToEnvelope row.2.2 with
  | .ok envelope => (.ok (row.1, row.2.1, envelope), { state with after := some row.1 })
  | .error error => (.error (.store error), { state with done := true })

/-- Yield the first row of the buffer. -/
def popFront (state : GlobalReadState) :
    Unfolded (InMemoryAllPos × StreamKey × PersistedEnvelope) GlobalReadState :=
  match state.buffer with
  | [] => none
  | row :: buffer => some (yieldRow row { state with buffer })

/-- The next event. -/
def next (guard : Inner) (state : GlobalReadState) :
    Unfolded (InMemoryAllPos × StreamKey × PersistedEnvelope) GlobalReadState :=
  if state.buffer.isEmpty && !state.done then (state.refill guard).popFront else state.popFront

end GlobalReadState

/-- A cursor over the events strictly behind a position. -/
def readAll (batchSize : BatchSize) (start : Option InMemoryAllPos) : GlobalReadState where
  after := start
  batchSize := batchSize
  buffer := []
  done := false

section Polls

variable {State α : Type}

/-- Poll a stream of `futures::stream::unfold` under `StreamExt::fuse`.  The unfolded
stream gives up its state at its end, and the fused one does not poll it again. -/
def pollFused (next : State → Unfolded α State) :
    Option State → Option (Except ReadFailure α) × Option State
  | none => (none, none)
  | some state =>
    match next state with
    | none => (none, none)
    | some (item, state) => (some item, some state)

/-- A kind of cursor: what a state yields next, and whether it reads a page for it. -/
structure Cursor (State α : Type) where
  next : Inner → State → Unfolded α State
  reads : State → Bool

/-- A cursor and the store it reads: the calls so far, those before the last page
that the cursor has read, and what the cursor has yielded. -/
structure Reading (State α : Type) where
  calls : List Call
  paged : List Call
  cursor : Option State
  yielded : List (Except ReadFailure α)

/-- Something is written to the store, or the cursor is polled. -/
inductive Move
  | call (call : Call)
  | poll

namespace Reading

/-- A cursor that was opened after some calls. -/
def opened (calls : List Call) (state : State) : Reading State α where
  calls := calls
  paged := []
  cursor := some state
  yielded := []

/-- A poll takes effect when it has the lock. -/
def step (cursor : Cursor State α) (reading : Reading State α) : Move → Reading State α
  | .call call => { reading with calls := reading.calls ++ [call] }
  | .poll =>
    let (item, after) := pollFused (cursor.next (machine.run reading.calls)) reading.cursor
    { calls := reading.calls
      paged := if reading.cursor.any cursor.reads then reading.calls else reading.paged
      cursor := after
      yielded := reading.yielded ++ item.toList }

/-- The cursor and the store after some moves. -/
def run (cursor : Cursor State α) (reading : Reading State α) (moves : List Move) :
    Reading State α :=
  moves.foldl (step cursor) reading

end Reading

end Polls

end Mnesis.InMemory
