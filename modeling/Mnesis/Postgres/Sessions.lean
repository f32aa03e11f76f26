import Mnesis.Postgres.Append
import Mnesis.Postgres.Database

/-!
# Sessions

What the statements of appends do to the database, and any number of sessions that
serve calls on it.  A statement may fail or be executed without its answer arriving, a
call may be abandoned while a statement of it is still on its way, and every
transaction may be aborted at any moment.
-/

namespace Mnesis.Postgres

open Foundation Kernel Store

variable {Session : Type} [DecidableEq Session]

/-- The key of a stream and its last version, among some rows. -/
def headOf (keys : List KeyRow) (events : List EventRow) (id : StreamKey) : Head :=
  (keys.find? fun key => key.value = id).map fun key =>
    (key.number, ((events.filter fun row => row.streamId = key.number).map EventRow.version).max?)

theorem find_value_eq_some {keys : List KeyRow} {id : StreamKey}
    (found : (keys.find? fun key => key.value = id) = some key) :
    key ∈ keys ∧ key.value = id :=
  ⟨List.mem_of_find?_eq_some found, by simpa using List.find?_some found⟩

/-- The number of a key, among some rows. -/
def keyOf (keys : List KeyRow) (id : StreamKey) : Option Nat :=
  (keys.find? fun key => key.value = id).map KeyRow.number

/-- The row of an event. -/
def eventRow (number globalSeq txid : Nat) (envelope : PendingEnvelope) : EventRow where
  globalSeq := globalSeq
  version := envelope.version.toNat
  txid := txid
  eventType := envelope.eventType.asBytes
  schemaVersion := envelope.schemaVersion.get.toNat
  payload := envelope.payload.asSlice
  metadata := envelope.metadata.map fun metadata => metadata.asSlice
  streamId := number

/-- The steps of any writers: those of their sessions, and ids that are taken elsewhere. -/
inductive Writes : Transition (Database Session) (Option Session)
  | session {session : Session} (step : db.Step session after) : Writes db (some session) after
  | elsewhere (later : db.nextTxid ≤ nextTxid) : Writes db none { db with nextTxid := nextTxid }

/-- Before its first row a transaction takes its id. -/
inductive Identifies (session : Session) (db : Database Session) : Database Session → Prop
  | already {txid : Nat} (active : db.active session = some tx) (identified : tx.txid = some txid) :
      Identifies session db db
  | now {tx : Transaction} {txid : Nat} (active : db.active session = some tx)
      (first : tx.txid = none) (later : db.nextTxid ≤ txid) :
      Identifies session db (db.identify session tx txid)

/-- A statement executed by a session, with what it returns. -/
inductive Executes (session : Session) :
    (statement : Statement) → Database Session → statement.Reply → Database Session → Prop
  | begin (idle : db.active session = none) :
      Executes session .begin db () (db.put session (some .new))
  | readHead {db : Database Session} (id : StreamKey) (active : db.active session = some tx) :
      Executes session (.readHead id) db
        (headOf (db.keys ++ tx.keys) (db.events ++ tx.events) id) db
  | insertKey {db middle : Database Session} {tx : Transaction} (number : Nat) (id : StreamKey)
      (identifies : Identifies session db middle) (active : middle.active session = some tx) :
      Executes session (.insertKey id) db (some number)
        (middle.put session (some (tx.addKey ⟨number, id⟩)))
  | keyExists {db : Database Session} (id : StreamKey) (active : db.active session = some tx)
      (present : id ∈ (db.keys ++ tx.keys).map KeyRow.value) :
      Executes session (.insertKey id) db none db
  | keyExistsIdentified {tx : Transaction} (id : StreamKey)
      (identifies : Identifies session db middle) (active : db.active session = some tx)
      (present : id ∈ (db.keys ++ tx.keys).map KeyRow.value) :
      Executes session (.insertKey id) db none middle
  | readKey {db : Database Session} {tx : Transaction} (id : StreamKey)
      (active : db.active session = some tx) :
      Executes session (.readKey id) db (keyOf (db.keys ++ tx.keys) id) db
  | insertEvent {db middle : Database Session} {tx : Transaction} {number globalSeq txid : Nat}
      {envelope : PendingEnvelope} (identifies : Identifies session db middle)
      (active : middle.active session = some tx) (identified : tx.txid = some txid)
      (checked : (eventRow number globalSeq txid envelope).Checked)
      (increases : ∀ earlier ∈ tx.events, earlier.globalSeq < globalSeq) :
      Executes session (.insertEvent number envelope) db (globalSeq, txid)
        (middle.put session (some (tx.addEvent (eventRow number globalSeq txid envelope))))
  | setConstraints {db : Database Session} : Executes session .setConstraints db () db
  | durabilitySetting {db : Database Session} (setting : Option String) :
      Executes session .durabilitySetting db setting db
  | commit {db : Database Session} {tx : Transaction} (active : db.active session = some tx)
      (constraints : Constraints (db.keys ++ tx.keys) (db.events ++ tx.events)) :
      Executes session .commit db () (db.commit session tx)
  | rollback {db : Database Session} {tx : Transaction} (active : db.active session = some tx) :
      Executes session .rollback db () (db.put session none)
  | observeHead {db : Database Session} (id : StreamKey) :
      Executes session (.observeHead id) db (headOf db.keys db.events id) db

variable {db middle after : Database Session}

theorem Identifies.exists_txid (identifies : Identifies session db middle)
    (active : middle.active session = some tx) :
    ∃ txid, tx.txid = some txid := by
  cases identifies with
  | already isActive identified =>
    cases active.symm.trans isActive
    exact ⟨_, identified⟩
  | now isActive first later =>
    have isNew := active.symm.trans (Database.put_active_self _)
    cases isNew
    exact ⟨_, rfl⟩

theorem Identifies.exists_writes (identifies : Identifies session db middle) :
    ∃ labels, Run Writes db labels middle := by
  cases identifies with
  | already active identified => exact ⟨_, .refl⟩
  | now active first later => exact ⟨_, .single (.session (.identify active first later))⟩

/-- A statement is a run of a writer. -/
theorem Executes.exists_writes (executes : Executes session statement db reply after) :
    ∃ labels, Run Writes db labels after := by
  cases executes with
  | begin idle => exact ⟨_, .single (.session (.begin idle))⟩
  | insertKey number id identifies active =>
    obtain ⟨labels, run⟩ := identifies.exists_writes
    obtain ⟨txid, identified⟩ := identifies.exists_txid active
    exact ⟨_, run.snoc (.session (.addKey _ active identified))⟩
  | keyExistsIdentified id identifies active present => exact identifies.exists_writes
  | insertEvent identifies active identified checked increases =>
    obtain ⟨labels, run⟩ := identifies.exists_writes
    exact ⟨_, run.snoc (.session (.addEvent active identified checked increases))⟩
  | commit active constraints => exact ⟨_, .single (.session (.commit active constraints))⟩
  | rollback active => exact ⟨_, .single (.session (.abort active))⟩
  | _ => exact ⟨_, .refl⟩

/-- A call of the store, with the limits and the history of the store it is made on. -/
inductive Call
  | append (limits : Limits) (history : History) (id : StreamKey)
      (expectedVersion : Option Version) (envelopes : PendingBatch)
  | atomicAppendMany (limits : Limits) (history : History) (writes : List PlannedAppend)

/-- The answer to a call. -/
inductive Outcome
  | append (result : Except (AppendError PostgresError) PgAllPos)
  | atomicAppendMany (result : Except (AtomicAppendError PostgresError) (Option PgAllPos))

/-- The code of a call. -/
def Call.code : Call → Program Unit Statement Statement.Answer Outcome
  | .append limits history id expectedVersion envelopes =>
    .append <$> (Postgres.append limits history id expectedVersion envelopes).run
  | .atomicAppendMany limits history writes =>
    .atomicAppendMany <$> (Postgres.atomicAppendMany limits history writes).run

/-- What a session is doing.  An orphaned statement was sent for a call that was
abandoned. -/
inductive Control
  | idle
  | serving (pause : Pause Unit Statement Statement.Answer Outcome)
  | orphaned (statement : Statement)

/-- A database and its sessions. -/
structure System (Session : Type) where
  db : Database Session
  controls : Session → Control

namespace System

/-- No rows, and every session idle. -/
def initial : System Session where
  db := .empty
  controls _ := .idle

/-- Another database, and another control of one session. -/
def become (s : System Session) (db : Database Session) (session : Session) (control : Control) :
    System Session where
  db := db
  controls := Function.update s.controls session control

/-- The control of a session that runs some code up to its next statement. -/
def running (code : Program Unit Statement Statement.Answer Outcome) : Control :=
  .serving (code.advance ()).2

/-- What happens in a step. -/
inductive Label (Session : Type)
  | call (session : Session) (call : Call)
  | answered (session : Session)
  | unacknowledged (session : Session)
  | failed (session : Session)
  | returned (session : Session)
  | abandoned (session : Session)
  | late (session : Session)
  | lost (session : Session)
  | aborted (session : Session)
  | elsewhere

/-- The steps of a system. -/
inductive Step : Transition (System Session) (Label Session)
  | call {s : System Session} {session : Session} (call : Call)
      (idle : s.controls session = .idle) :
      Step s (.call session call) (s.become s.db session (running call.code))
  | answered {session : Session} {after : Database Session}
      (waiting : s.controls session = .serving (.waiting statement next))
      (executes : Executes session statement s.db reply after) :
      Step s (.answered session) (s.become after session (running (next (.ok reply))))
  | unacknowledged {session : Session} {after : Database Session}
      (waiting : s.controls session = .serving (.waiting statement next))
      (executes : Executes session statement s.db reply after) :
      Step s (.unacknowledged session)
        (s.become after session (running (next (.error .connection))))
  | failed {session : Session}
      {next : statement.Answer → Program Unit Statement Statement.Answer Outcome}
      (error : SqlxError) (waiting : s.controls session = .serving (.waiting statement next)) :
      Step s (.failed session) (s.become s.db session (running (next (.error error))))
  | returned {session : Session} (finished : s.controls session = .serving (.finished outcome)) :
      Step s (.returned session) (s.become s.db session .idle)
  | abandoned {session : Session}
      {next : statement.Answer → Program Unit Statement Statement.Answer Outcome}
      (waiting : s.controls session = .serving (.waiting statement next)) :
      Step s (.abandoned session) (s.become s.db session (.orphaned statement))
  | late {s : System Session} {session : Session} {statement : Statement} {reply : statement.Reply}
      {after : Database Session} (orphaned : s.controls session = .orphaned statement)
      (executes : Executes session statement s.db reply after) :
      Step s (.late session) (s.become after session .idle)
  | lost {session : Session} (orphaned : s.controls session = .orphaned statement) :
      Step s (.lost session) (s.become s.db session .idle)
  | aborted {session : Session} (active : s.db.active session = some tx) :
      Step s (.aborted session) { s with db := s.db.put session none }
  | elsewhere (later : s.db.nextTxid ≤ nextTxid) :
      Step s .elsewhere { s with db := { s.db with nextTxid := nextTxid } }

theorem Step.exists_writes {s : System Session} (step : Step s label t) :
    ∃ labels, Run Writes s.db labels t.db := by
  cases step with
  | answered waiting executes => exact executes.exists_writes
  | unacknowledged waiting executes => exact executes.exists_writes
  | late orphaned executes => exact executes.exists_writes
  | aborted active => exact ⟨_, .single (.session (.abort active))⟩
  | elsewhere later => exact ⟨_, .single (.elsewhere later)⟩
  | _ => exact ⟨_, .refl⟩

/-- Sessions that serve calls are writers. -/
theorem exists_writes {t : System Session} {trace : List (Label Session)}
    (run : Run Step s trace t) :
    ∃ labels, Run Writes s.db labels t.db := by
  induction run with
  | refl => exact ⟨_, .refl⟩
  | snoc _ step reached =>
    obtain ⟨labels, reached⟩ := reached
    obtain ⟨more, onward⟩ := step.exists_writes
    exact ⟨_, reached.trans onward⟩

end System

end Mnesis.Postgres
