import Mnesis.Foundation.Program
import Mnesis.Kernel.Aggregate
import Mnesis.Store.Envelope

/-!
# The aggregate repository

Loading folds the decoded rows of a stream into an aggregate root; saving
encodes decided events behind the root's version and appends them there.  Both calls
of the store suspend the caller, and may be cut short by its deadline.
-/

namespace Mnesis.Store

open Foundation Kernel

/-- Failures of a conditional append. -/
inductive AppendError (AdapterError : Type)
  | conflict (streamId : Bytes) (expected actual : Option Version)
  | store (error : AdapterError)

/-- Failures of the repository. -/
inductive StoreError (AdapterError EncodeError DecodeError : Type)
  | conflict (streamId : Bytes) (expected actual : Option Version)
  | adapter (error : AdapterError)
  | encode (error : EncodeError)
  | decode (error : DecodeError)
  | kernel (error : KernelError)
  | versionOverflow
  | envelope (error : EnvelopeError)

/-- A conflict between an expected and an actual version. -/
def StoreError.isConflict {AdapterError EncodeError DecodeError : Type} :
    StoreError AdapterError EncodeError DecodeError → Bool
  | .conflict _ _ _ => true
  | _ => false

/-- Failures of executing a command on an aggregate. -/
inductive ExecuteError (DecideError StoreFailure : Type)
  | kernel (error : KernelError)
  | decide (error : DecideError)
  | store (error : StoreFailure)

/-- How the events of an aggregate are named and stored. -/
structure EventCodec (Event EncodeError DecodeError : Type) where
  name : Event → EventType
  encode : Event → Except EncodeError Bytes
  decode : PendingEnvelope → Except DecodeError Event

/-- The calls of a repository on the stream of its aggregate. -/
inductive StoreCall (Event : Type)
  | readStream
  | append (events : List Event) (expected : Option Version) (batch : PendingBatch)

/-- What a read delivers: the rows it produced, and the failure that ended it
early if there was one. -/
structure ReadAnswer (AdapterError : Type) where
  rows : List PendingEnvelope
  failure : Option AdapterError

/-- Answers of the store; `none` when the caller's deadline elapsed first. -/
def StoreCall.Answer (AdapterError : Type) {Event : Type} : StoreCall Event → Type
  | .readStream => Option (ReadAnswer AdapterError)
  | .append _ _ _ => Option (Except (AppendError AdapterError) Unit)

namespace Repository

variable {A : Aggregate} {AdapterError EncodeError DecodeError : Type}
variable (codec : EventCodec A.Event EncodeError DecodeError)

/-- Decode one stored row and fold it. -/
def replayRow (root : AggregateRoot A) (row : PendingEnvelope) :
    Except (StoreError AdapterError EncodeError DecodeError) (AggregateRoot A) := do
  let event ← (codec.decode row).mapError .decode
  (root.replay row.version event).mapError .kernel

/-- Fold the rows of a stream in order. -/
def replayRows (root : AggregateRoot A) (rows : List PendingEnvelope) :
    Except (StoreError AdapterError EncodeError DecodeError) (AggregateRoot A) :=
  rows.foldlM (replayRow codec) root

theorem replayRows_cons (root : AggregateRoot A) (row : PendingEnvelope)
    (rows : List PendingEnvelope) :
    (replayRows codec root (row :: rows) :
      Except (StoreError AdapterError EncodeError DecodeError) _) =
      replayRow codec root row >>= fun next => replayRows codec next rows :=
  List.foldlM_cons

/-- Fold what a read delivered; its own failure comes after its rows. -/
def replayAnswer (root : AggregateRoot A) (answer : ReadAnswer AdapterError) :
    Except (StoreError AdapterError EncodeError DecodeError) (AggregateRoot A) := do
  let loaded ← replayRows codec root answer.rows
  match answer.failure with
  | none => return loaded
  | some error => throw (.adapter error)

/-- The envelope of an event at a version. -/
def encodeAt (event : A.Event) (version : Version) :
    Except (StoreError AdapterError EncodeError DecodeError) PendingEnvelope := do
  let payloadBytes ← (codec.encode event).mapError .encode
  let payload ← (Payload.fromBytes payloadBytes).mapError (.envelope ∘ .value)
  return {
    version
    eventType := codec.name event
    schemaVersion := .initial
    payload
    metadata := none }

/-- The envelopes of further events behind a version. -/
def encodeRest (last : Version) :
    List A.Event →
    Except (StoreError AdapterError EncodeError DecodeError) (List PendingEnvelope)
  | [] => return []
  | event :: rest => do
    let version ← okOr last.next .versionOverflow
    let envelope ← encodeAt codec event version
    return envelope :: (← encodeRest version rest)

/-- Everything `save` does before it appends. -/
def prepareBatch {N : Nat} (root : AggregateRoot A) (events : Events A.Event N) :
    Except (StoreError AdapterError EncodeError DecodeError) PendingBatch := do
  let _ ← (root.commitVersion events).mapError fun
    | .versionOverflow => .versionOverflow
    | cause => .kernel cause
  let version ← okOr (following root.version) .versionOverflow
  let first ← encodeAt codec events.first version
  let rest ← encodeRest codec version events.rest
  return ⟨first, rest⟩

theorem encodeAt_not_conflict (failed : encodeAt codec event version = .error error) :
    error.isConflict = false := by
  simp only [encodeAt, bind_eq_error, mapError_eq_error, pure_eq_ok, reduceCtorEq,
    and_false, exists_false, or_false] at failed
  rcases failed with ⟨_, _, rfl⟩ | ⟨_, _, _, _, rfl⟩ <;> rfl

theorem encodeRest_not_conflict (failed : encodeRest codec last events = .error error) :
    error.isConflict = false := by
  induction events generalizing last with
  | nil => cases failed
  | cons event rest notConflict =>
    simp only [encodeRest, bind_eq_error, okOr_eq_error, pure_eq_ok, reduceCtorEq,
      and_false, exists_false, or_false] at failed
    rcases failed with ⟨_, rfl⟩ | ⟨_, _, atEvent | ⟨_, _, atRest⟩⟩
    · rfl
    · exact encodeAt_not_conflict codec atEvent
    · exact notConflict atRest

theorem prepareBatch_not_conflict (failed : prepareBatch codec root events = .error error) :
    error.isConflict = false := by
  simp only [prepareBatch, bind_eq_error, mapError_eq_error, okOr_eq_error,
    pure_eq_ok, reduceCtorEq, and_false, exists_false, or_false] at failed
  rcases failed with ⟨cause, _, rfl⟩ | ⟨_, _, ⟨_, rfl⟩ | ⟨_, _, atFirst | ⟨_, _, atRest⟩⟩⟩
  · cases cause <;> rfl
  · rfl
  · exact encodeAt_not_conflict codec atFirst
  · exact encodeRest_not_conflict codec atRest

variable {σ : Type}

/-- A repository operation, cut short when the deadline elapses. -/
abbrev Operation (σ : Type) (A : Aggregate) (AdapterError : Type) (α : Type) : Type :=
  Program σ (StoreCall A.Event) (StoreCall.Answer AdapterError) α

/-- Read the whole stream of the aggregate. -/
def readStream :
    Operation σ A AdapterError (Option (ReadAnswer AdapterError)) :=
  .await .readStream .done

/-- Append a batch if the stream still ends at the expected version. -/
def append (events : List A.Event) (expected : Option Version) (batch : PendingBatch) :
    Operation σ A AdapterError (Option (Except (AppendError AdapterError) Unit)) :=
  .await (.append events expected batch) .done

/-- Rebuild the aggregate from its whole stream. -/
def load :
    Operation σ A AdapterError
      (Option (Except (StoreError AdapterError EncodeError DecodeError) (AggregateRoot A))) := do
  let answer ← readStream
  return answer.map (replayAnswer codec AggregateRoot.new)

/-- Append decided events behind the root and adopt them. -/
def save {N : Nat} (root : AggregateRoot A) (events : Events A.Event N) :
    Operation σ A AdapterError
      (Option (Except (StoreError AdapterError EncodeError DecodeError) (AggregateRoot A))) :=
  match prepareBatch codec root events with
  | .error error => return some (.error error)
  | .ok batch => do
    match ← append events.toList root.version batch with
    | none => return none
    | some (.error (.conflict streamId expected actual)) =>
      return some (.error (.conflict streamId expected actual))
    | some (.error (.store error)) =>
      return some (.error (.adapter error))
    | some (.ok ()) =>
      return some ((root.commitPersisted events).mapError .kernel)

/-- Decide a command on the root and save the decided events, if any. -/
def execute {Command : Type} {N : Nat}
    (handle : A.State → Command → Except A.Error (Option (Events A.Event N)))
    (root : AggregateRoot A) (command : Command) :
    Operation σ A AdapterError
      (Option (Except
        (ExecuteError A.Error (StoreError AdapterError EncodeError DecodeError))
        (AggregateRoot A))) :=
  match root.handle handle command with
  | .error (.kernel cause) => return some (.error (.kernel cause))
  | .error (.domain cause) => return some (.error (.decide cause))
  | .ok none => return some (.ok root)
  | .ok (some decided) => do
    let saved ← save codec root decided
    return saved.map (Except.mapError .store)

end Repository

end Mnesis.Store
