import Mnesis.Fjall.Key
import Mnesis.Foundation.OrderedMap
import Mnesis.Store.Append
import Mnesis.Store.Persisted

/-!
# Partitions

The storage engine keeps ordered maps from byte strings to byte strings.  The
store uses four of them: the version of every stream, the events by stream, the
events by position, and the position counter.  Inside of a writer transaction every
frame gets the next version of its stream, the next position and the keys of both.
-/

namespace Mnesis.Fjall

open Foundation Kernel Store Wire

/-- An encoded event with its keys. -/
structure StagedRow where
  eventKey : Bytes
  globalKey : Bytes
  frame : Bytes
  deriving DecidableEq

/-- The rows of a run, and both counters behind it. -/
structure PlannedRun where
  rows : List StagedRow
  newVersion : UInt64
  endingGlobal : UInt64
  deriving DecidableEq

/-- Why an event cannot be encoded. -/
inductive Reason
  | wire (error : WireError)
  | key (error : EncodeError)
  deriving DecidableEq

/-- Failures of a plan. -/
inductive PlanError
  | versionOverflow
  | globalSeqOverflow
  | invalidInput (version : UInt64) (reason : Reason)
  deriving DecidableEq

/-- Encode envelopes. -/
def prepareEnvelopes : List PendingEnvelope → Except PlanError (List Bytes)
  | [] => return []
  | envelope :: rest => do
    let frame ← (encodeFrame envelope.schemaVersion envelope.eventType envelope.payload
      envelope.metadata).mapError fun error =>
        .invalidInput envelope.version.asU64 (.wire error)
    return frame.value :: (← prepareEnvelopes rest)

/-- Encode the envelopes of a batch. -/
def prepareRun (envelopes : PendingBatch) : Except PlanError (List Bytes) :=
  prepareEnvelopes envelopes.toList

/-- Assign versions, positions and keys to frames. -/
def planPreparedRun (currentVersion currentGlobal : UInt64)
    (id : StreamKey) : List Bytes → Except PlanError PlannedRun
  | [] => return ⟨[], currentVersion, currentGlobal⟩
  | frame :: frames => do
    let version ← okOr (checkedAdd currentVersion 1) .versionOverflow
    let globalSeq ← okOr (checkedAdd currentGlobal 1) .globalSeqOverflow
    let eventKey ← (encodeEventKey id version).mapError fun error =>
      .invalidInput version (.key error)
    let globalKey ← (encodeGlobalKey globalSeq id version).mapError fun error =>
      .invalidInput version (.key error)
    let planned ← planPreparedRun version globalSeq id frames
    return { planned with rows := ⟨eventKey, globalKey, frame⟩ :: planned.rows }

/-- The stored bytes of an envelope. -/
def frameBytes (envelope : PendingEnvelope) : Bytes := (frameOf envelope).value

theorem prepareEnvelopes_eq_ok :
    prepareEnvelopes envelopes = .ok frames ↔
      (∀ envelope ∈ envelopes, envelopeLen envelope < 2 ^ 32) ∧
        envelopes.map frameBytes = frames := by
  induction envelopes generalizing frames with
  | nil => simp [prepareEnvelopes]
  | cons envelope rest step =>
    simp only [prepareEnvelopes, bind_eq_ok, mapError_eq_ok, encodeFrame_envelope,
      pure_eq_ok, Except.ok.injEq, step, List.forall_mem_cons, List.map_cons]
    constructor
    · rintro ⟨_, ⟨first, rfl⟩, _, ⟨others, rfl⟩, rfl⟩
      exact ⟨⟨first, others⟩, rfl⟩
    · rintro ⟨⟨first, others⟩, rfl⟩
      exact ⟨_, ⟨first, rfl⟩, _, ⟨others, rfl⟩, rfl⟩

/-- The row of an event. -/
def stagedRow (id : StreamKey) (version position : UInt64) (frame : Bytes) : StagedRow :=
  ⟨eventKey id version, globalKey position id version, frame⟩

/-- One frame is planned when neither counter overflows and the id fits into both
keys. -/
theorem planPreparedRun_cons_eq_ok {id : StreamKey} :
    planPreparedRun currentVersion currentGlobal id (frame :: frames) = .ok run ↔
      ∃ version globalSeq rest,
        version.toNat = currentVersion.toNat + 1 ∧
        globalSeq.toNat = currentGlobal.toNat + 1 ∧
        id.length ≤ maxStreamIdLen ∧
        planPreparedRun version globalSeq id frames = .ok rest ∧
        run = { rest with rows := stagedRow id version globalSeq frame :: rest.rows } := by
  have one : (1 : UInt64).toNat = 1 := rfl
  simp only [planPreparedRun, bind_eq_ok, okOr_eq_ok, checkedAdd_eq_some, one,
    mapError_eq_ok, encodeEventKey_eq_ok, encodeGlobalKey_eq_ok, pure_eq_ok,
    Except.ok.injEq]
  constructor
  · rintro ⟨version, isVersion, globalSeq, isGlobal, _, ⟨_, rfl⟩, _, ⟨fits, rfl⟩, rest, isRest, rfl⟩
    exact ⟨version, globalSeq, rest, isVersion, isGlobal, fits, isRest, rfl⟩
  · rintro ⟨version, globalSeq, rest, isVersion, isGlobal, fits, isRest, rfl⟩
    have eventFits : id.length ≤ maxEventKeyIdLen := Nat.le_trans fits (by decide)
    exact ⟨version, isVersion, globalSeq, isGlobal, _, ⟨eventFits, rfl⟩, _, ⟨fits, rfl⟩,
      rest, isRest, rfl⟩

theorem counters_of_planPreparedRun {id : StreamKey}
    (planned : planPreparedRun currentVersion currentGlobal id frames = .ok run) :
    run.newVersion.toNat = currentVersion.toNat + frames.length ∧
      run.endingGlobal.toNat = currentGlobal.toNat + frames.length := by
  induction frames generalizing currentVersion currentGlobal run with
  | nil =>
    cases planned
    exact ⟨rfl, rfl⟩
  | cons frame frames step =>
    obtain ⟨version, globalSeq, rest, isVersion, isGlobal, _, isRest, rfl⟩ :=
      planPreparedRun_cons_eq_ok.mp planned
    obtain ⟨lastVersion, lastGlobal⟩ := step isRest
    simp only [List.length_cons]
    omega

theorem exists_planPreparedRun {currentVersion currentGlobal : UInt64} {id : StreamKey}
    {frames : List Bytes} (fits : id.length ≤ maxStreamIdLen)
    (versionRoom : currentVersion.toNat + frames.length < 2 ^ 64)
    (globalRoom : currentGlobal.toNat + frames.length < 2 ^ 64) :
    ∃ run, planPreparedRun currentVersion currentGlobal id frames = .ok run := by
  induction frames generalizing currentVersion currentGlobal with
  | nil => exact ⟨_, rfl⟩
  | cons frame frames step =>
    rw [List.length_cons] at versionRoom globalRoom
    have one : (1 : UInt64).toNat = 1 := rfl
    have nextVersion := @toNat_add_of_lt currentVersion 1 (by omega)
    have nextGlobal := @toNat_add_of_lt currentGlobal 1 (by omega)
    rw [one] at nextVersion nextGlobal
    obtain ⟨run, planned⟩ := @step (currentVersion + 1) (currentGlobal + 1) (by omega) (by omega)
    exact ⟨_, planPreparedRun_cons_eq_ok.mpr
      ⟨_, _, run, nextVersion, nextGlobal, fits, planned, rfl⟩⟩

/-- A failure of the storage engine, by a number. -/
structure IoError where
  code : Nat
  deriving DecidableEq

/-- Failures of the store.  A stream is named by its id; the failures that do not
belong to a stream name the empty one. -/
inductive FjallError
  | io (error : IoError)
  | scanLengthOverflow
  | invalidKey (len max : Nat)
  | corruptValue (streamId : StreamKey) (version : Option UInt64)
  | envelopeCorrupt (streamId : StreamKey) (version : UInt64) (source : EnvelopeError)
  | corruptMeta (streamId : StreamKey)
  | invalidInput (streamId : StreamKey) (version : UInt64) (reason : Reason)
  | versionOverflow
  | globalSeqOverflow
  | allIndexDisabled
  deriving DecidableEq

/-- A key must not be empty or longer than its layout allows. -/
def validateKey (key : Bytes) (max : Nat) : Except FjallError Unit :=
  rejectIf (key = [] ∨ max < key.length) (.invalidKey key.length max)

/-- A position of the store. -/
abbrev GlobalSeq := AllPosition

/-- Whether the store keeps a second copy of every event by position. -/
inductive AllIndex
  | denormalized
  | disabled
  deriving DecidableEq

/-- An ordered map of the storage engine. -/
abbrev Keyspace := Std.ExtTreeMap Bytes Bytes compare

/-- The maps of the store. -/
structure Partitions where
  streams : Keyspace
  events : Keyspace
  eventsGlobal : Keyspace
  global : Keyspace
  mode : AllIndex

namespace Partitions

/-- The maps of a new store. -/
def new (mode : AllIndex) : Partitions where
  streams := ∅
  events := ∅
  eventsGlobal := ∅
  global := ∅
  mode := mode

/-- Where the position counter is stored. -/
def globalSeqKey : Bytes := utf8Bytes "global_seq"

/-- The version of a stream; zero for a stream that does not exist. -/
def readVersion (tx : Partitions) (id : StreamKey) : Except FjallError UInt64 :=
  match tx.streams[id]? with
  | none => return 0
  | some bytes => (decodeStreamVersion bytes).mapError fun _ => .corruptMeta id

/-- The position counter; zero if it was never written. -/
def readGlobal (tx : Partitions) (id : StreamKey) : Except FjallError UInt64 :=
  match tx.global[globalSeqKey]? with
  | none => return 0
  | some bytes => do
    rejectIf (bytes.length ≠ 8) (.corruptMeta id)
    return UInt64.ofNat (ofLittleEndian bytes)

/-- Stage an event under its key, and under its position if the store keeps that
index. -/
def stageEvent (tx : Partitions) (row : StagedRow) : Partitions :=
  let tx := { tx with events := tx.events.insert row.eventKey row.frame }
  if tx.mode = .denormalized then
    { tx with eventsGlobal := tx.eventsGlobal.insert row.globalKey row.frame }
  else
    tx

/-- Stage the version of a stream. -/
def setVersion (tx : Partitions) (id : StreamKey) (version : UInt64) : Partitions :=
  { tx with streams := tx.streams.insert id (encodeStreamVersion version) }

/-- Stage the position counter. -/
def setGlobal (tx : Partitions) (globalSeq : UInt64) : Partitions :=
  { tx with global := tx.global.insert globalSeqKey (littleEndian 8 globalSeq.toNat) }

end Partitions

theorem validateKey_eq_ok {max : Nat} :
    validateKey key max = .ok result ↔ key ≠ [] ∧ key.length ≤ max := by
  rw [validateKey, rejectIf_eq_ok, not_or, Nat.not_lt]

end Mnesis.Fjall
