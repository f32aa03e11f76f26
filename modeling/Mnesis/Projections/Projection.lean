import Mnesis.Checkpoints

/-!
# Projections

A projection folds events into a state that it owns, and from time to time writes the state
together with the position of the last event to a checkpoint store.  From the moment at which
a write is sent until it is acknowledged the instance is of no use.
-/

namespace Mnesis.Projections

open Foundation Kernel Store Checkpoints

/-- An event with its position, the key of its stream and its name. -/
structure Item (Pos Key Event : Type) where
  position : Pos
  key : Key
  name : String
  event : Event

/-- What a projection does with events. -/
structure Projector (Key Event State Failure : Type) where
  initial : State
  applyAttributed : State → Key → Event → Except Failure State

/-- When to write: from the position of the last checkpoint, the new position and the names of
the events. -/
abbrev PersistTrigger (Pos : Type) := Option Pos → Pos → List String → Bool

/-- Why an instance is of no use. -/
inductive ProjectionStateError
  | poisoned
  | reloadRequired
  deriving DecidableEq

/-- Failures of a projection. -/
inductive ProjectionError (Failure E : Type)
  | state (error : ProjectionStateError)
  | nonIncreasingPosition
  | apply (error : Failure)
  | commit (error : CheckpointError E)

/-- An instance of a projection. -/
structure Projection (State Pos : Type) where
  schemaVersion : SchemaVersion
  state? : Option State
  revision : Option Revision
  checkpoint : Option Pos
  observed : Option Pos
  reloadRequired : Bool
  rebuiltFrom : Option SchemaVersion

variable {Key Event State Pos Failure E : Type}

namespace Projection

/-- An instance that was just assembled has observed what its checkpoint has. -/
def fresh (schemaVersion : SchemaVersion) (state : State) (checkpoint : Option Pos)
    (revision : Option Revision) (rebuiltFrom : Option SchemaVersion) : Projection State Pos where
  schemaVersion := schemaVersion
  state? := some state
  revision := revision
  checkpoint := checkpoint
  observed := checkpoint
  reloadRequired := false
  rebuiltFrom := rebuiltFrom

/-- Make an instance from what the store has. -/
def assemble (projector : Projector Key Event State Failure) (schemaVersion : SchemaVersion) :
    CheckpointMode → CheckpointHydrated State Pos →
      Except CheckpointRejection (Projection State Pos)
  | .advance, .found revision position state =>
    .ok (fresh schemaVersion state (some position) (some revision) none)
  | .advance, .absent => .ok (fresh schemaVersion projector.initial none none none)
  | .advance, .stale _ storedSchema => .error (.schemaMismatch storedSchema schemaVersion)
  | .rebuild, .stale revision storedSchema =>
    .ok (fresh schemaVersion projector.initial none (some revision) (some storedSchema))
  | .rebuild, .absent => .error .invalidRebuild
  | .rebuild, .found _ _ _ => .error .invalidRebuild

/-- The state, while the instance is of use. -/
def state (projection : Projection State Pos) : Except ProjectionStateError State :=
  if projection.reloadRequired then .error .reloadRequired else okOr projection.state? .poisoned

theorem state_eq_ok {projection : Projection State Pos} {state : State} :
    projection.state = .ok state ↔
      projection.reloadRequired = false ∧ projection.state? = some state := by
  rw [Projection.state]
  cases projection.reloadRequired <;> simp [okOr_eq_ok]

/-- The position that is not yet written. -/
def unpersisted [DecidableEq Pos] (projection : Projection State Pos) : Option Pos :=
  projection.observed.filter fun observed => some observed ≠ projection.checkpoint

/-- The mode of the next write. -/
def mode (projection : Projection State Pos) : CheckpointMode :=
  if projection.checkpoint.isNone && projection.revision.isSome then .rebuild else .advance

/-- The write of a state. -/
def write (projection : Projection State Pos) (position : Pos) (state : State) :
    CheckpointWrite State Pos where
  expected := projection.revision
  schemaVersion := projection.schemaVersion
  position := position
  state := state
  mode := projection.mode

end Projection

/-- How far a call comes without waiting: to its result, or to a write that it waits for. -/
inductive Progress (State Pos Failure E : Type)
  | returned (result : Except (ProjectionError Failure E) Unit)
  | awaiting (write : CheckpointWrite State Pos)

section Calls

variable [DecidableEq Pos]

/-- Write what is not yet written.  The instance is of no use until the write is
acknowledged. -/
def flush (projection : Projection State Pos) :
    Projection State Pos × Progress State Pos Failure E :=
  match projection.state with
  | .error error => (projection, .returned (.error (.state error)))
  | .ok state =>
    match projection.unpersisted with
    | none => (projection, .returned (.ok ()))
    | some position =>
      ({ projection with reloadRequired := true }, .awaiting (projection.write position state))

/-- The end of a call whose write is answered. -/
def settle (write : CheckpointWrite State Pos) (answer : Except (CheckpointError E) Revision)
    (projection : Projection State Pos) :
    Projection State Pos × Except (ProjectionError Failure E) Unit :=
  match answer with
  | .error error => (projection, .error (.commit error))
  | .ok revision =>
    ({ projection with
        revision := some revision, checkpoint := some write.position, reloadRequired := false },
      .ok ())

/-- Fold an event, and write if the trigger fires.  The state is taken out first, so that a
projector that fails leaves none. -/
def advance [LE Pos] [DecidableLE Pos] (projector : Projector Key Event State Failure)
    (shouldPersist : PersistTrigger Pos) (item : Item Pos Key Event)
    (projection : Projection State Pos) : Projection State Pos × Progress State Pos Failure E :=
  match projection.state with
  | .error error => (projection, .returned (.error (.state error)))
  | .ok state =>
    if projection.observed.any fun previous => item.position ≤ previous then
      (projection, .returned (.error .nonIncreasingPosition))
    else
      match projector.applyAttributed state item.key item.event with
      | .error error => ({ projection with state? := none }, .returned (.error (.apply error)))
      | .ok folded =>
        let projection := { projection with state? := some folded, observed := some item.position }
        if shouldPersist projection.checkpoint item.position [item.name] then
          flush projection
        else
          (projection, .returned (.ok ()))

end Calls

end Mnesis.Projections
