import Mnesis.Store.Append
import Mnesis.Store.Persisted

/-!
# Appending

The two calls that append, as programs that suspend at each statement they send.
Both read the heads of all their streams before they write anything: the first row
they write takes the id of their transaction.
-/

namespace Mnesis.Postgres

open Foundation Kernel Store Wire

/-- The identity of an event history. -/
structure History where
  asBytes : Bytes
  length_eq : asBytes.length = 16
  deriving DecidableEq

/-- A position within a history. -/
structure PgAllPos where
  history : History
  txid : Nat
  seq : Nat
  deriving DecidableEq

/-- The order of positions.  Between histories it has no meaning. -/
def PgAllPos.Before (position other : PgAllPos) : Prop :=
  position.history.asBytes < other.history.asBytes ∨
    position.history = other.history ∧
      (position.txid < other.txid ∨ position.txid = other.txid ∧ position.seq < other.seq)

/-- The limits of a page; the second one also bounds a single row. -/
structure Limits where
  rows : BatchSize
  bytes : Nat
  bytes_pos : 0 < bytes
  bytes_lt : bytes < 2 ^ 32

/-- Failures of the connection: the database reports one, a row that must be there
is missing, or the connection itself failed. -/
inductive SqlxError
  | database (code : String) (schema table constraint : Option String)
  | rowNotFound
  | connection
  deriving DecidableEq

/-- Why a row is corrupt. -/
inductive CorruptReason
  | text (reason : String)
  | value (error : ValueError)
  deriving DecidableEq

/-- Failures of the store. -/
inductive PostgresError
  | historyMismatch (expected actual : History)
  | rowLimit (actual limit : Nat)
  | sizeOverflow
  | durability (setting : String)
  | sqlx (error : SqlxError)
  | commitUnknown (error : SqlxError)
  | envelopeCorrupt (streamId : StreamKey) (version : UInt64) (source : EnvelopeError)
  | corruptRow (streamId : StreamKey) (reason : CorruptReason)
  | frame (streamId : StreamKey) (version : UInt64) (reason : WireError)
  deriving DecidableEq

/-- A corrupt row. -/
def corrupt (streamId : StreamKey) (reason : String) : PostgresError :=
  .corruptRow streamId (.text reason)

/-- Only the intended constraint proves contention. -/
def isStreamConflict : SqlxError → Bool
  | .database code schema table constraint =>
    code = "23505" && schema = some "mnesis" && table = some "events" &&
      constraint = some "events_stream_id_version_key"
  | _ => false

/-- A failed commit.  Only a rollback that the server reports proves rejection. -/
def PostgresError.commit (source : SqlxError) : PostgresError :=
  match source with
  | .database code _ _ _ =>
    if code.startsWith "23" || code = "40001" || code = "40P01" then
      .sqlx source
    else
      .commitUnknown source
  | _ => .commitUnknown source

/-- A failed append. -/
def appendError (id : StreamKey) (expected : Option Version)
    (error : PostgresError) : AppendError PostgresError :=
  match error with
  | .sqlx source => if isStreamConflict source then .conflict id expected none else .store error
  | _ => .store error

/-- The append contract in terms of the store. -/
def postgresValidationErr (id : StreamKey) :
    AppendValidationError → AppendError PostgresError
  | .conflict _ expected actual => .conflict id expected actual
  | .versionOverflow => .store (corrupt id "version overflow")

/-- A row must be within the limit; its size is a signed 64-bit number. -/
def validateBytes (lengths : List Nat) (limits : Limits) : Except PostgresError Unit := do
  let actual ← lengths.foldlM (fun total length => do
    let size ← okOr (narrow (2 ^ 63) length) .sizeOverflow
    okOr (narrow (2 ^ 63) (total + size)) .sizeOverflow) 32
  rejectIf (limits.bytes < actual) (.rowLimit actual limits.bytes)

/-- Every event must be within the limit. -/
def validateSizes (id : StreamKey) (limits : Limits) :
    List PendingEnvelope → Except PostgresError Unit
  | [] => return ()
  | event :: events => do
    validateBytes [id.length, event.eventType.asBytes.length, event.payload.asSlice.length,
      (event.metadata.map fun metadata => metadata.asSlice.length).getD 0] limits
    validateSizes id limits events

/-- The statements that appends send.  The last one is sent outside of their
transaction. -/
inductive Statement
  | begin
  | readHead (id : StreamKey)
  | insertKey (id : StreamKey)
  | readKey (id : StreamKey)
  | insertEvent (number : Nat) (row : PendingEnvelope)
  | setConstraints
  | durabilitySetting
  | commit
  | rollback
  | observeHead (id : StreamKey)

/-- A key and its last version. -/
abbrev Head := Option (Nat × Option Nat)

/-- What a statement returns. -/
def Statement.Reply : Statement → Type
  | .begin => Unit
  | .readHead _ => Head
  | .insertKey _ => Option Nat
  | .readKey _ => Option Nat
  | .insertEvent _ _ => Nat × Nat
  | .setConstraints => Unit
  | .durabilitySetting => Option String
  | .commit => Unit
  | .rollback => Unit
  | .observeHead _ => Head

/-- The answer to a statement. -/
def Statement.Answer (statement : Statement) : Type :=
  Except SqlxError statement.Reply

/-- Code of the store. -/
abbrev Code (Error α : Type) := ExceptT Error (Program Unit Statement Statement.Answer) α

/-- Send a statement. -/
def query (statement : Statement) : Code SqlxError statement.Reply :=
  ExceptT.mk (.await statement .done)

/-- Send a statement, with a failure as one of the store. -/
def execute (statement : Statement) : Code PostgresError statement.Reply :=
  ExceptT.adapt PostgresError.sqlx (query statement)

/-- The last version of a stream; a key may have none. -/
def headVersion (head : Head) (id : StreamKey) : Except PostgresError (Option Version) :=
  match head.bind Prod.snd with
  | none => return none
  | some raw => do
    let version ← okOr ((narrow (2 ^ 64) raw).bind fun number =>
      Version.new (UInt64.ofNat number)) (corrupt id "invalid stored version")
    return some version

/-- Find or make the key of a stream. -/
def createKey (id : StreamKey) : Code PostgresError Nat := do
  match ← execute (.insertKey id) with
  | some number => return number
  | none =>
    -- another statement sees the key that won
    let found ← execute (.readKey id)
    MonadExcept.ofExcept (okOr found (.sqlx .rowNotFound))

/-- The key that was found with the head of a stream, or else a new one. -/
def keyFor (id : StreamKey) : Option Nat → Code PostgresError Nat
  | some number => return number
  | none => createKey id

/-- Insert an event; the answer is its position. -/
def insertOne (id : StreamKey) (number : Nat) (row : PendingEnvelope) :
    Code PostgresError (Nat × Nat) := do
  let (globalSeq, txid) ← execute (.insertEvent number row)
  let seq ← MonadExcept.ofExcept
    (okOr (narrow (2 ^ 64) globalSeq) (corrupt id "assigned global_seq is negative"))
  let txid ← MonadExcept.ofExcept
    (okOr (narrow (2 ^ 64) txid) (corrupt id "assigned txid out of range"))
  return (txid, seq)

/-- Insert events behind one whose position is known. -/
def insertRest (id : StreamKey) (number : Nat) :
    Nat × Nat → List PendingEnvelope → Code PostgresError (Nat × Nat)
  | assigned, [] => return assigned
  | _, row :: rows => do
    let assigned ← insertOne id number row
    insertRest id number assigned rows

/-- Insert a run; the answer is its last position. -/
def insertRun (id : StreamKey) (number : Nat) (envelopes : PendingBatch) :
    Code PostgresError (Nat × Nat) := do
  let assigned ← insertOne id number envelopes.first
  insertRest id number assigned envelopes.rest

/-- Commit, unless a setting of the database forbids it. -/
def durableCommit : Code PostgresError Unit := do
  let _ ← execute .setConstraints
  match ← execute .durabilitySetting with
  | some setting => throw (.durability setting)
  | none => ExceptT.adapt PostgresError.commit (query .commit)

/-- Append to one stream. -/
def append (limits : Limits) (history : History) (id : StreamKey) (expectedVersion : Option Version)
    (envelopes : PendingBatch) : Code (AppendError PostgresError) PgAllPos := do
  MonadExcept.ofExcept ((validateSizes id limits envelopes.toList).mapError .store)
  let _ ← ExceptT.adapt AppendError.store (execute .begin)
  let head ← ExceptT.adapt AppendError.store (execute (.readHead id))
  let current ← MonadExcept.ofExcept ((headVersion head id).mapError .store)
  MonadExcept.ofExcept ((validateAppendVersions (rawHead current) expectedVersion
    envelopes id).mapError (postgresValidationErr id))
  let number ← ExceptT.adapt AppendError.store (keyFor id (head.map Prod.fst))
  let assigned ← ExceptT.adapt (appendError id expectedVersion) (insertRun id number envelopes)
  ExceptT.adapt AppendError.store durableCommit
  return ⟨history, assigned.1, assigned.2⟩

/-- A run must build on the current version of its stream. -/
def prepare (index : Nat) (write : PlannedAppend) :
    Code (AtomicAppendError PostgresError) (Option Nat) := do
  let head ← ExceptT.adapt AtomicAppendError.store (execute (.readHead write.target))
  let actual ← MonadExcept.ofExcept ((headVersion head write.target).mapError .store)
  if actual ≠ write.expectedVersion then
    throw (.conflict index actual)
  return head.map Prod.fst

/-- Prepare the runs from an index on. -/
def prepareAll : Nat → List PlannedAppend →
    Code (AtomicAppendError PostgresError) (List (Nat × PlannedAppend × Option Nat))
  | _, [] => return []
  | index, write :: writes => do
    let key ← prepare index write
    let prepared ← prepareAll (index + 1) writes
    return (index, write, key) :: prepared

/-- Insert a run; a stream without a key gets one first. -/
def insert (write : PlannedAppend) (key : Option Nat) : Code PostgresError (Nat × Nat) := do
  let number ← keyFor write.target key
  insertRun write.target number write.batch

/-- Insert runs behind one whose position is known.  A failure names its run. -/
def insertAll : Nat × Nat → List (Nat × PlannedAppend × Option Nat) →
    Code (Nat × PlannedAppend × PostgresError) (Nat × Nat)
  | assigned, [] => return assigned
  | _, (index, write, key) :: prepared => do
    let assigned ← ExceptT.adapt (fun error => (index, write, error)) (insert write key)
    insertAll assigned prepared

/-- The failure of a run.  After a rollback the head of its stream is looked up for
a conflict. -/
def rejected (index : Nat) (write : PlannedAppend) (error : PostgresError) :
    Program Unit Statement Statement.Answer (AtomicAppendError PostgresError) := do
  match error with
  | .sqlx source =>
    if isStreamConflict source then
      match ← (query .rollback).run with
      | .ok _ =>
        match ← (do
          let head ← execute (.observeHead write.target)
          MonadExcept.ofExcept (headVersion head write.target) :
            Code PostgresError (Option Version)).run with
        | .ok (some actual) => return .conflict index (some actual)
        | _ => return .store error
      | .error _ => return .store error
    else
      return .store error
  | _ => return .store error

/-- Append to several streams. -/
def atomicAppendMany (limits : Limits) (history : History) (writes : List PlannedAppend) :
    Code (AtomicAppendError PostgresError) (Option PgAllPos) := do
  MonadExcept.ofExcept ((validateDistinctTargets (writes.map PlannedAppend.target)).mapError
    .invalidRoute)
  MonadExcept.ofExcept ((validateAtomicRuns writes).mapError .invalidRun)
  MonadExcept.ofExcept ((writes.forM fun write =>
    validateSizes write.target limits write.batch.toList).mapError .store)
  match writes with
  | [] => return none
  | first :: tail => do
    let _ ← ExceptT.adapt AtomicAppendError.store (execute .begin)
    let firstKey ← prepare 0 first
    let prepared ← prepareAll 1 tail
    let staged ← ExceptT.lift (do
      let assigned ← ExceptT.adapt (fun error => (0, first, error)) (insert first firstKey)
      insertAll assigned prepared : Code (Nat × PlannedAppend × PostgresError) _).run
    match staged with
    | .ok assigned => do
      ExceptT.adapt AtomicAppendError.store durableCommit
      return some ⟨history, assigned.1, assigned.2⟩
    | .error (index, write, error) => do
      let failure ← ExceptT.lift (rejected index write error)
      throw failure

/-- A history. -/
def someHistory : History := ⟨List.replicate 16 7, rfl⟩

/-- Pages of one row. -/
def singleRows : Limits := ⟨⟨1, by decide, by decide⟩, 1000, by decide, by decide⟩

end Mnesis.Postgres
