import Mnesis.Store.Repository

/-!
# Loading and saving aggregates

Loading an aggregate replays the rows of its stream; saving stamps the decided
events with the versions behind its root, encodes and appends them, and then folds
them into the root.  Both may be abandoned at each call of the store, and the root
is then as it was before the call.

A decorator loads an aggregate from its latest snapshot, and stores snapshots after
saves and full replays.  A saga reacts to upstream events with events of its own,
saves them, and returns the intents that these project.
-/

namespace Mnesis.Aggregates

open Foundation Kernel Store

/-- An aggregate with its adapter, codec and metadata provider. -/
structure EventStore where
  A : Aggregate
  AdapterError : Type
  EncodeError : Type
  DecodeError : Type
  SnapshotError : Type
  /-- Position of an event among those of all streams. -/
  Position : Type
  codec : EventCodec A.Event EncodeError DecodeError
  metadata : Version → A.Event → Payload → Option Metadata

namespace EventStore

/-- Failures of loading and saving. -/
abbrev Error (S : EventStore) : Type :=
  StoreError S.AdapterError S.EncodeError S.DecodeError

/-- Live aggregates. -/
abbrev Root (S : EventStore) : Type := AggregateRoot S.A

/-- Decisions on the state of an aggregate. -/
abbrev Handler (S : EventStore) (N : Nat) : Type :=
  S.A.State → Except S.A.Error (Option (Events S.A.Event N))

end EventStore

/-- What a snapshot store has for an aggregate. -/
inductive Hydrated (State : Type)
  | absent
  | stale (storedSchema : SchemaVersion)
  | found (position : Version) (state : State)

/-- The calls of a repository: on the stream of its aggregate, and on its
snapshots.  The store does not see the events of an append, only their batch. -/
inductive Call (S : EventStore)
  | readStream (start : Version)
  | append (events : List S.A.Event) (expected : Option Version) (batch : PendingBatch)
  | hydrate (schemaVersion : SchemaVersion)
  | commit (schemaVersion : SchemaVersion) (position : Version) (state : S.A.State)

/-- The answers to a call. -/
def Call.Answer {S : EventStore} : Call S → Type
  | .readStream _ => ReadAnswer S.AdapterError
  | .append _ _ _ => Except (AppendError S.AdapterError) S.Position
  | .hydrate _ => Except S.SnapshotError (Hydrated S.A.State)
  | .commit _ _ _ => Except S.SnapshotError Unit

/-- Code of a repository around a root. -/
abbrev Code (S : EventStore) := Program S.Root (Call S) Call.Answer

/-- The rows of a stream from a version on. -/
def rowsFrom (start : Version) (history : List PendingEnvelope) : List PendingEnvelope :=
  history.filter fun row => start ≤ row.version

/-- The last step of the envelope builder. -/
def buildEnvelope (version : Version) (eventType : EventType) (payload : Bytes)
    (schemaVersion : SchemaVersion)
    (metadata : Option Bytes) : Except EnvelopeError PendingEnvelope := do
  let payload ← (Payload.fromBytes payload).mapError .value
  let metadata ← (metadata.mapM Metadata.fromBytes).mapError .value
  return { version, eventType, schemaVersion, payload, metadata }

namespace EventStore

variable {S : EventStore}

/-- Which schema version the events of a name are stored with. -/
abbrev Schemas := EventType → Option SchemaVersion

/-- The envelope of an event at a version. -/
def encodeAt (S : EventStore) (currentVersion : Schemas) (event : S.A.Event)
    (version : Version) : Except S.Error PendingEnvelope := do
  let payloadBytes ← (S.codec.encode event).mapError .encode
  let payload ← (Payload.fromBytes payloadBytes).mapError (.envelope ∘ .value)
  let schemaVersion := (currentVersion (S.codec.name event)).getD .initial
  let metadata := S.metadata version event payload
  (buildEnvelope version (S.codec.name event) payload.asSlice schemaVersion
    (metadata.map Metadata.asSlice)).mapError .envelope

/-- The envelopes of further events behind a version. -/
def encodeRest (S : EventStore) (currentVersion : Schemas) (last : Version) :
    List S.A.Event → Except S.Error (List PendingEnvelope)
  | [] => return []
  | event :: rest => do
    let version ← okOr last.next .versionOverflow
    let envelope ← S.encodeAt currentVersion event version
    return envelope :: (← S.encodeRest currentVersion version rest)

/-- Everything `saveEvents` does before it appends. -/
def prepareBatch (S : EventStore) (currentVersion : Schemas) (aggregate : S.Root)
    (events : Events S.A.Event N) : Except S.Error PendingBatch := do
  let _ ← (aggregate.commitVersion events).mapError fun
    | .versionOverflow => .versionOverflow
    | cause => .kernel cause
  let version ← okOr (following aggregate.version) .versionOverflow
  let head ← S.encodeAt currentVersion events.first version
  let tail ← S.encodeRest currentVersion version events.rest
  return ⟨head, tail⟩

/-- Replay the stream from a version on. -/
def replayFrom (S : EventStore) (root : S.Root) (start : Version) :
    Code S (Except S.Error S.Root) :=
  .await (.readStream start) fun answer =>
    .done (Repository.replayAnswer S.codec root answer)

/-- Rebuild the aggregate from its whole stream. -/
def load (S : EventStore) : Code S (Except S.Error S.Root) :=
  S.replayFrom .new .initial

/-- What a failed append means to the caller of `saveEvents`. -/
def appendFailure : AppendError S.AdapterError → S.Error
  | .conflict streamId expected actual => .conflict streamId expected actual
  | .store error => .adapter error

/-- Append decided events behind the root and fold them into it. -/
def saveEvents (S : EventStore) (currentVersion : Schemas) (events : Events S.A.Event N) :
    Code S (Except S.Error S.Position) := do
  let aggregate ← Program.get
  match S.prepareBatch currentVersion aggregate events with
  | .error error => return .error error
  | .ok batch =>
    .await (.append events.toList aggregate.version batch) fun
      | .error error => return .error (appendFailure error)
      | .ok position =>
        match aggregate.commitPersisted events with
        | .error error => return .error (.kernel error)
        | .ok committed => do
          Program.set committed
          return .ok position

/-- The save of a repository without upcasting: every event has the first schema
version. -/
def save (S : EventStore) (events : Events S.A.Event N) : Code S (Except S.Error S.Position) :=
  S.saveEvents (fun _ => none) events

end EventStore

/-- The settings of a snapshotting repository. -/
structure Snapshotting where
  /-- The trigger: whether to store a snapshot after a save from one version to
  another of events with these names. -/
  shouldPersist : Option Version → Version → List EventType → Bool
  schemaVersion : SchemaVersion
  snapshotOnRead : Bool

namespace Snapshotting

/-- The root of the stored snapshot, with the version to replay from; `none` if
there is no usable snapshot. -/
def tryLoadFromSnapshot (D : Snapshotting) : Code S (Option (S.Root × Option Version)) :=
  .await (.hydrate D.schemaVersion) fun
    | .error _ => return none
    | .ok (.found version state) => return some (.restore state version, version.next)
    | .ok (.stale _) => return none
    | .ok .absent => return none

/-- Store a snapshot, whatever comes of it. -/
def trySaveSnapshot (D : Snapshotting) (aggregate : S.Root) (version : Version) :
    Code S Unit :=
  match aggregate.state with
  | .error _ => return ()
  | .ok currentState =>
    .await (.commit D.schemaVersion version currentState) fun _ => return ()

/-- Store a snapshot of a fully replayed root, if the settings ask for it. -/
def snapshotOfRead (D : Snapshotting) (root : S.Root) : Code S Unit :=
  match D.snapshotOnRead, root.version with
  | true, some version => D.trySaveSnapshot root version
  | _, _ => return ()

/-- Rebuild the aggregate from its snapshot, or from its whole stream. -/
def load (D : Snapshotting) : Code S (Except S.Error S.Root) := do
  match ← D.tryLoadFromSnapshot with
  | some (root, some next) => S.replayFrom root next
  | some (root, none) => return .ok root
  | none =>
    match ← S.load with
    | .error error => return .error error
    | .ok root => do
      D.snapshotOfRead root
      return .ok root

/-- Store a snapshot of a saved root, if the trigger fires. -/
def snapshotOfSave (D : Snapshotting) (oldVersion : Option Version)
    (events : Events S.A.Event N) : Code S Unit := do
  let aggregate ← Program.get
  match aggregate.version with
  | none => return ()
  | some newVersion =>
    if D.shouldPersist oldVersion newVersion (events.toList.map S.codec.name) then
      D.trySaveSnapshot aggregate newVersion
    else
      return ()

/-- Save through the inner repository, then store a snapshot. -/
def save (D : Snapshotting) (events : Events S.A.Event N) :
    Code S (Except S.Error S.Position) := do
  let aggregate ← Program.get
  match ← S.save events with
  | .error error => return .error error
  | .ok position => do
    D.snapshotOfSave aggregate.version events
    return .ok position

end Snapshotting

/-- The repositories of an aggregate: its event store, or a decorator of it. -/
inductive Repo
  | eventStore
  | snapshotting (settings : Snapshotting)

namespace Repo

/-- Load through a repository. -/
def load : Repo → Code S (Except S.Error S.Root)
  | .eventStore => S.load
  | .snapshotting D => D.load

/-- Save through a repository. -/
def save (repo : Repo) (events : Events S.A.Event N) : Code S (Except S.Error S.Position) :=
  match repo with
  | .eventStore => S.save events
  | .snapshotting D => D.save events

end Repo

/-- An outgoing intent and the version of the event it comes from. -/
structure ProjectedIntent (Command : Type) where
  sourceVersion : Version
  intent : Command

/-- At most `N + 1` intents. -/
structure ProjectedIntents (Command : Type) (N : Nat) where
  first : Option (ProjectedIntent Command)
  rest : List (ProjectedIntent Command)
  capacity : rest.length ≤ N

namespace ProjectedIntents

variable {Command : Type}

/-- No intents. -/
def new : ProjectedIntents Command N := ⟨none, [], Nat.zero_le N⟩

/-- Add an intent; there is no result if the capacity is exceeded, where the source
panics. -/
def push (intents : ProjectedIntents Command N) (intent : ProjectedIntent Command) :
    Option (ProjectedIntents Command N) :=
  match intents.first with
  | none => some { intents with first := some intent }
  | some _ =>
    if room : intents.rest.length < N then
      some ⟨intents.first, intents.rest ++ [intent], by simp; omega⟩
    else
      none

/-- All intents in order. -/
def toList (intents : ProjectedIntents Command N) : List (ProjectedIntent Command) :=
  intents.first.toList ++ intents.rest

end ProjectedIntents

/-- What a reaction returns. -/
inductive Reaction (Command Position : Type) (N : Nat)
  | ignored
  | reacted (version : Version) (position : Position) (intents : ProjectedIntents Command N)

/-- Failures of a reaction. -/
inductive SagaError (SagaFailure StoreFailure : Type)
  | kernel (error : KernelError)
  | react (error : SagaFailure)
  | store (error : StoreFailure)
  | versionOverflow

/-- Why a reaction has no result: an error it returns, or a panic. -/
inductive ReactionFailure (S : EventStore)
  | returned (error : SagaError S.A.Error S.Error)
  | panicked

namespace Saga

variable {Command : Type}

/-- The result of a reaction. -/
abbrev Result (S : EventStore) (Command : Type) (N : Nat) : Type :=
  Except (ReactionFailure S) (Reaction Command S.Position N)

/-- Add the intent of one recorded event, if it projects one. -/
def pushIntent (intentFor : S.A.Event → Option Command) (recorded : S.A.Event)
    (current : Version) (intents : ProjectedIntents Command N) :
    Except (ReactionFailure S) (ProjectedIntents Command N) :=
  match intentFor recorded with
  | some intent => okOr (intents.push ⟨current, intent⟩) .panicked
  | none => .ok intents

/-- The intents of recorded events, of which the first has the current version. -/
def projectIntents (intentFor : S.A.Event → Option Command) :
    List S.A.Event → Version → ProjectedIntents Command N →
    Except (ReactionFailure S) (Version × ProjectedIntents Command N)
  | [], current, intents => return (current, intents)
  | recorded :: rest, current, intents => do
    let intents ← pushIntent intentFor recorded current intents
    match rest with
    | [] => return (current, intents)
    | next :: rest => do
      let current ← okOr current.next (.returned .versionOverflow)
      projectIntents intentFor (next :: rest) current intents

/-- React to an upstream event, save what the saga produced, and project the
intents of what was saved. -/
def reactAndSave (repo : Repo) (intentFor : S.A.Event → Option Command)
    (react : S.Handler N) :
    Code S (Result S Command N) := do
  let root ← Program.get
  match root.handle (fun state _ => react state) () with
  | .error (.kernel cause) => return .error (.returned (.kernel cause))
  | .error (.domain cause) => return .error (.returned (.react cause))
  | .ok none => return .ok .ignored
  | .ok (some produced) =>
    match following root.version with
    | none => return .error (.returned .versionOverflow)
    | some first =>
      match ← repo.save produced with
      | .error error => return .error (.returned (.store error))
      | .ok position =>
        match projectIntents intentFor produced.toList first .new with
        | .error failure => return .error failure
        | .ok (current, intents) => return .ok (.reacted current position intents)

/-- Load the saga, then react to an upstream event. -/
def dispatch (repo : Repo) (intentFor : S.A.Event → Option Command)
    (react : S.Handler N) :
    Code S (Result S Command N) := do
  match ← repo.load with
  | .error error => return .error (.returned (.store error))
  | .ok root => do
    Program.set root
    reactAndSave repo intentFor react

end Saga

end Mnesis.Aggregates
