import Mathlib.Logic.Function.Basic
import Mnesis.Aggregates.Procedures
import Mnesis.Store.Append

/-!
# Aggregates of one stream

Any number of clients share the stream of one aggregate.  Each holds at most one
root; a call may be abandoned wherever it is suspended.  An append that was issued
stays in flight until the store acts on it: it takes effect exactly when it passes
the append contract.  A read delivers the stream as it was at some moment, and a
snapshot may be stored late, out of order or never.

Every append, those that took effect, and all intents that were returned are kept
beside the stream.  No code reads them.
-/

namespace Mnesis.Aggregates

open Foundation Kernel Store

/-- The events of an append, the version they build on and their envelopes. -/
structure Batch (S : EventStore) where
  events : List S.A.Event
  expected : Option Version
  envelopes : PendingBatch

/-- What the store has done with an append. -/
inductive Fate
  | inFlight
  | landed
  | refused
  deriving DecidableEq

/-- What came of the call that issued an append. -/
inductive Outcome
  | pending
  | succeeded
  | conflict
  | uncertain
  deriving DecidableEq

/-- An append that was issued. -/
structure Attempt (S : EventStore) where
  batch : Batch S
  fate : Fate
  outcome : Outcome

/-- An append that took effect, and its place among all that were issued. -/
structure Effect (S : EventStore) where
  index : Nat
  batch : Batch S

/-- The events of appends, one after the other. -/
def eventsOf {S : EventStore} (effects : List (Effect S)) : List S.A.Event :=
  effects.flatMap fun effect => effect.batch.events

/-- The envelopes of appends, one after the other. -/
def envelopesOf {S : EventStore} (effects : List (Effect S)) : List PendingEnvelope :=
  effects.flatMap fun effect => effect.batch.envelopes.toList

/-- A snapshot that was committed. -/
structure Snapshot (S : EventStore) where
  schemaVersion : SchemaVersion
  position : Version
  state : S.A.State

/-- The stream, and what was done to it. -/
structure World (S : EventStore) where
  history : List PendingEnvelope
  attempts : List (Attempt S)
  effects : List (Effect S)
  snapshots : List (Snapshot S)

namespace World

/-- The events that were stored, in order. -/
def events (world : World S) : List S.A.Event :=
  eventsOf world.effects

/-- The number of the last version of a stream. -/
def head (history : List PendingEnvelope) : UInt64 :=
  rawHead (history.getLast?.map PendingEnvelope.version)

/-- The store acts on an append in flight. -/
def settle (stream : StreamKey) (world : World S) (index : Nat) (attempt : Attempt S) :
    World S :=
  match validateAppendVersions (head world.history) attempt.batch.expected
      attempt.batch.envelopes stream with
  | .ok () =>
    { world with
      history := world.history ++ attempt.batch.envelopes.toList
      attempts := world.attempts.set index { attempt with fate := .landed }
      effects := world.effects ++ [⟨index, attempt.batch⟩] }
  | .error _ =>
    { world with attempts := world.attempts.set index { attempt with fate := .refused } }

/-- Note what came of the call that issued an append. -/
def close (world : World S) (issued : Option Nat) (outcome : Outcome) : World S :=
  match issued with
  | none => world
  | some index =>
    { world with
      attempts := world.attempts.modify index fun attempt => { attempt with outcome } }

end World

/-- The world as a call sees it, with the append the call has issued. -/
structure View (S : EventStore) where
  world : World S
  issued : Option Nat

section Calls

variable {S : EventStore}

/-- A call is sent out. -/
def issue : Call S → View S → View S
  | .append events expected envelopes, ⟨world, _⟩ =>
    { world := { world with
        attempts := world.attempts ++ [⟨⟨events, expected, envelopes⟩, .inFlight, .pending⟩] }
      issued := some world.attempts.length }
  | .commit schemaVersion position state, ⟨world, issued⟩ =>
    { world := { world with
        snapshots := world.snapshots ++ [⟨schemaVersion, position, state⟩] }
      issued }
  | .readStream _, view => view
  | .hydrate _, view => view

/-- The answers that a call may receive.

A read delivers the rows of some moment, or some of them and a failure.  An
append is confirmed once it has landed, and denied once it was refused; a failure
says nothing about it.  A snapshot read finds any snapshot that was ever
committed with its schema. -/
inductive Answers : (call : Call S) → View S → call.Answer → Prop
  | read (moment : List PendingEnvelope) (earlier : moment <+: view.world.history) :
      Answers (.readStream start) view ⟨rowsFrom start moment, none⟩
  | readFailed (rows : List PendingEnvelope) (error : S.AdapterError)
      (partly : rows <+: rowsFrom start view.world.history) :
      Answers (.readStream start) view ⟨rows, some error⟩
  | appended (position : S.Position) (issued : view.issued = some index)
      (isAttempt : view.world.attempts[index]? = some attempt) (landed : attempt.fate = .landed) :
      Answers (.append events expected envelopes) view (.ok position)
  | conflict {view : View S} {events : List S.A.Event} {expected : Option Version}
      {envelopes : PendingBatch} {index : Nat} {attempt : Attempt S} (streamId : Bytes)
      (reported actual : Option Version) (issued : view.issued = some index)
      (isAttempt : view.world.attempts[index]? = some attempt) (refused : attempt.fate = .refused) :
      Answers (.append events expected envelopes) view (.error (.conflict streamId reported actual))
  | appendFailed (error : S.AdapterError) :
      Answers (.append events expected envelopes) view (.error (.store error))
  | hydrateFailed (error : S.SnapshotError) : Answers (.hydrate schemaVersion) view (.error error)
  | absent : Answers (.hydrate schemaVersion) view (.ok .absent)
  | stale (storedSchema : SchemaVersion) :
      Answers (.hydrate schemaVersion) view (.ok (.stale storedSchema))
  | found {view : View S} {schemaVersion : SchemaVersion} {position : Version} {state : S.A.State}
      (committed : ⟨schemaVersion, position, state⟩ ∈ view.world.snapshots) :
      Answers (.hydrate schemaVersion) view (.ok (.found position state))
  | commit {view : View S} {schemaVersion : SchemaVersion} {position : Version} {state : S.A.State}
      (result : Except S.SnapshotError Unit) :
      Answers (.commit schemaVersion position state) view result

end Calls

/-- What a client may call. -/
inductive Procedure (S : EventStore)
  | load (repo : Repo)
  | save (repo : Repo) (events : Events S.A.Event N)
  | saveWith (currentVersion : EventStore.Schemas) (events : Events S.A.Event N)
  | react (repo : Repo) (handler : S.Handler N)
  | dispatch (repo : Repo) (handler : S.Handler N)

/-- What a call returns. -/
inductive Reply (S : EventStore) (Command : Type)
  | loaded (result : Except S.Error S.Root)
  | saved (result : Except S.Error S.Position)
  | reacted (result : Saga.Result S Command N)

section Replies

variable {S : EventStore} {Command : Type}

/-- The code of a procedure. -/
def Procedure.code (intentFor : S.A.Event → Option Command) :
    Procedure S → Code S (Reply S Command)
  | .load repo => return .loaded (← repo.load)
  | .save repo events => return .saved (← repo.save events)
  | .saveWith currentVersion events => return .saved (← S.saveEvents currentVersion events)
  | .react repo handler => return .reacted (← Saga.reactAndSave repo intentFor handler)
  | .dispatch repo handler => return .reacted (← Saga.dispatch repo intentFor handler)

/-- What a failure says about the append of its call. -/
def outcomeOfError : S.Error → Outcome
  | .conflict _ _ _ => .conflict
  | _ => .uncertain

/-- What a reply says about the append of its call. -/
def Reply.outcome : Reply S Command → Outcome
  | .loaded _ => .uncertain
  | .saved (.ok _) => .succeeded
  | .saved (.error error) => outcomeOfError error
  | .reacted (.ok _) => .succeeded
  | .reacted (.error (.returned (.store error))) => outcomeOfError error
  | .reacted (.error _) => .uncertain

/-- The intents that a reply returns. -/
def Reply.intents : Reply S Command → List (ProjectedIntent Command)
  | .reacted (.ok (.reacted _ _ intents)) => intents.toList
  | _ => []

/-- Where a client is: without a root, with one, or in a call.  Of a call, the root
it started with is kept for reference. -/
inductive Control (S : EventStore) (Command : Type)
  | vacant
  | holding (root : S.Root)
  | busy
      (procedure : Procedure S)
      (before root : S.Root)
      (issued : Option Nat)
      (pause : Pause S.Root (Call S) Call.Answer (Reply S Command))

/-- The root a procedure starts with: a new one to load into, or the one that the
client holds. -/
def Procedure.start : Procedure S → Control S Command → Option S.Root
  | .load _, .vacant => some .new
  | .dispatch _ _, .vacant => some .new
  | .save _ _, .holding root => some root
  | .saveWith _ _, .holding root => some root
  | .react _ _, .holding root => some root
  | _, _ => none

/-- What a client holds after a reply. -/
def Procedure.release (procedure : Procedure S) (root : S.Root) :
    Reply S Command → Control S Command
  | .loaded (.ok loaded) => .holding loaded
  | .loaded (.error _) => .vacant
  | _ =>
    match procedure with
    | .dispatch _ _ => .vacant
    | _ => .holding root

/-- What a client holds after it abandoned a call. -/
def Procedure.abandoned (root : S.Root) : Procedure S → Control S Command
  | .load _ => .vacant
  | .dispatch _ _ => .vacant
  | _ => .holding root

end Replies

/-- A stream, its clients and all intents they were given. -/
structure System (S : EventStore) (Command Client : Type) where
  world : World S
  clients : Client → Control S Command
  intents : List (ProjectedIntent Command)

namespace System

variable {Command Client : Type} [DecidableEq Client]

/-- An empty stream and clients without roots. -/
def initial (S : EventStore) (Command Client : Type) : System S Command Client where
  world := ⟨[], [], [], []⟩
  clients _ := .vacant
  intents := []

/-- Put a client somewhere. -/
def place (system : System S Command Client) (client : Client) (control : Control S Command) :
    System S Command Client :=
  { system with clients := Function.update system.clients client control }

/-- Let a client run to its next suspension. -/
def proceed (system : System S Command Client) (client : Client) (procedure : Procedure S)
    (before root : S.Root) (issued : Option Nat) (code : Code S (Reply S Command)) :
    System S Command Client :=
  let (root, pause) := code.advance root
  let view := pause.enter issue ⟨system.world, issued⟩
  { system with world := view.world }.place client (.busy procedure before root view.issued pause)

end System

/-- What can be observed of a step. -/
inductive Label (S : EventStore) (Command Client : Type)
  | create (client : Client)
  | call (client : Client) (procedure : Procedure S)
  | answer (client : Client) (call : Call S) (answer : call.Answer)
  | reply (client : Client) (reply : Reply S Command)
  | abandon (client : Client)
  | discard (client : Client)
  | settle (index : Nat)

variable {S : EventStore} {Command Client : Type} [DecidableEq Client]

/-- The steps of the system; `stream` is the identity of the aggregate. -/
inductive Step (stream : StreamKey) (intentFor : S.A.Event → Option Command) :
    System S Command Client → Label S Command Client → System S Command Client → Prop
  | create {system : System S Command Client} {client : Client}
      (vacant : system.clients client = .vacant) :
      Step stream intentFor system (.create client) (system.place client (.holding .new))
  | call {system : System S Command Client} {client : Client} {root : S.Root}
      (procedure : Procedure S) (starts : procedure.start (system.clients client) = some root) :
      Step stream intentFor system (.call client procedure)
        (system.proceed client procedure root root none (procedure.code intentFor))
  | answer {system : System S Command Client} {client : Client} {procedure : Procedure S}
      {before root : S.Root} {issued : Option Nat} {call : Call S} {answer : call.Answer}
      {next : call.Answer → Code S (Reply S Command)}
      (waiting : system.clients client = .busy procedure before root issued (.waiting call next))
      (answers : Answers call ⟨system.world, issued⟩ answer) :
      Step stream intentFor system (.answer client call answer)
        (system.proceed client procedure before root issued (next answer))
  | reply {system : System S Command Client} {client : Client} {procedure : Procedure S}
      {before root : S.Root} {issued : Option Nat} {reply : Reply S Command}
      (finished : system.clients client = .busy procedure before root issued (.finished reply)) :
      Step stream intentFor system (.reply client reply)
        ({ system with
            world := system.world.close issued reply.outcome
            intents := system.intents ++ reply.intents }.place client
          (procedure.release root reply))
  | abandon {system : System S Command Client} {client : Client} {procedure : Procedure S}
      {before root : S.Root} {issued : Option Nat} {call : Call S}
      {next : call.Answer → Code S (Reply S Command)}
      (waiting : system.clients client = .busy procedure before root issued (.waiting call next)) :
      Step stream intentFor system (.abandon client)
        ({ system with world := system.world.close issued .uncertain }.place client
          (procedure.abandoned root))
  | discard (holding : system.clients client = .holding root) :
      Step stream intentFor system (.discard client) (system.place client .vacant)
  | settle {system : System S Command Client} {index : Nat} {attempt : Attempt S}
      (isAttempt : system.world.attempts[index]? = some attempt)
      (inFlight : attempt.fate = .inFlight) :
      Step stream intentFor system (.settle index)
        { system with world := system.world.settle stream index attempt }

/-- States reached from an empty stream. -/
def Reachable (stream : StreamKey) (intentFor : S.A.Event → Option Command)
    (trace : List (Label S Command Client)) (system : System S Command Client) : Prop :=
  Run (Step stream intentFor) (System.initial S Command Client) trace system

end Mnesis.Aggregates
