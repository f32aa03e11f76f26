import Mnesis.Foundation.Result
import Mnesis.Kernel.Version

/-!
# Aggregates, decisions and replay

An aggregate folds the events of one stream into a state.  `AggregateRoot`
tracks that state together with the stream position it stands for.  Replay
admits exactly the next event of the stream, up to the rehydration limit of the
aggregate.
-/

namespace Mnesis.Kernel

open Foundation

/-- Lengths and counters of the source are 64-bit. -/
def usizeLimit : Nat := 2 ^ 64

/-- A state machine over domain events, with the largest history it agrees to
replay. -/
structure Aggregate where
  State : Type
  Event : Type
  Error : Type
  initial : State
  apply : State → Event → State
  maxRehydrationEvents : Nat
  maxRehydrationEvents_pos : 0 < maxRehydrationEvents
  maxRehydrationEvents_lt : maxRehydrationEvents < usizeLimit

/-- A non-empty decision of at most `N` additional events. -/
structure Events (E : Type) (N : Nat) where
  first : E
  rest : List E
  capacity : rest.length ≤ N

namespace Events

variable {E : Type}

/-- A decision of one event. -/
def new (event : E) : Events E N :=
  ⟨event, [], Nat.zero_le N⟩

/-- All events of a decision in order. -/
def toList (events : Events E N) : List E :=
  events.first :: events.rest

/-- Number of events of a decision. -/
def len (events : Events E N) : Nat :=
  events.rest.length + 1

@[simp] theorem toList_new (event : E) : (new event : Events E N).toList = [event] := rfl

@[simp] theorem rest_new (event : E) : (new event : Events E N).rest = [] := rfl

@[simp] theorem length_toList (events : Events E N) : events.toList.length = events.len := rfl

end Events

/-- Failures of the aggregate kernel. -/
inductive KernelError
  | poisonedAggregate
  | versionMismatch (expected actual : Version)
  | rehydrationLimitExceeded (max : Nat)
  | versionOverflow
  deriving DecidableEq

/-- Failures of a decision: the kernel's, or the application's own. -/
inductive DecisionError (E : Type)
  | kernel (error : KernelError)
  | domain (error : E)

/-- A live aggregate: its state, unless an application panic took it away, and
the position of its stream. -/
structure AggregateRoot (A : Aggregate) where
  state? : Option A.State
  version : Option Version
  replayedEvents : Nat

namespace AggregateRoot

/-- An aggregate without history. -/
def new : AggregateRoot A where
  state? := some A.initial
  version := none
  replayedEvents := 0

/-- An aggregate at a known state and version, such as those of a snapshot. -/
def restore (state : A.State) (version : Version) : AggregateRoot A where
  state? := some state
  version := some version
  replayedEvents := 0

/-- The current state, if it is usable. -/
def state (root : AggregateRoot A) : Except KernelError A.State :=
  okOr root.state? .poisonedAggregate

/-- Decide a command on the current state. -/
def handle {Command : Type}
    (decide : A.State → Command → Except A.Error (Option (Events A.Event N)))
    (root : AggregateRoot A) (command : Command) :
    Except (DecisionError A.Error) (Option (Events A.Event N)) := do
  let current ← root.state.mapError .kernel
  (decide current command).mapError .domain

/-- Fold events into the state, all or none. -/
def foldEvents (root : AggregateRoot A)
    (events : List A.Event) : Except KernelError (AggregateRoot A) := do
  let current ← root.state
  return { root with state? := some (events.foldl A.apply current) }

/-- Fold the next stored event. -/
def replay (root : AggregateRoot A) (version : Version)
    (event : A.Event) : Except KernelError (AggregateRoot A) := do
  let _ ← root.state
  let expected ← okOr (following root.version) .versionOverflow
  rejectIf (version ≠ expected) (.versionMismatch expected version)
  let limit := A.maxRehydrationEvents
  rejectIf (root.replayedEvents ≥ limit) (.rehydrationLimitExceeded limit)
  rejectIf (root.replayedEvents + 1 ≥ usizeLimit) (.rehydrationLimitExceeded limit)
  let folded ← root.foldEvents [event]
  return { folded with
    replayedEvents := root.replayedEvents + 1
    version := some version }

/-- The version the last of these events would receive. -/
def commitVersion (root : AggregateRoot A)
    (events : Events A.Event N) : Except KernelError Version := do
  let _ ← root.state
  let count := events.rest.length + 1
  rejectIf (count ≥ usizeLimit) .versionOverflow
  let ending ←
    okOr (checkedAdd (rawHead root.version) (UInt64.ofNat count)) .versionOverflow
  okOr (Version.new ending) .versionOverflow

/-- Adopt events that the store has accepted. -/
def commitPersisted (root : AggregateRoot A)
    (events : Events A.Event N) : Except KernelError (AggregateRoot A) := do
  let version ← root.commitVersion events
  { root with version := some version }.foldEvents events.toList

variable {root : AggregateRoot A} {state : A.State}

theorem state_eq_ok : root.state = .ok state ↔ root.state? = some state :=
  okOr_eq_ok

theorem state_of_usable (usable : root.state? = some state) :
    root.state = .ok state :=
  state_eq_ok.mpr usable

theorem state_of_poisoned (poisoned : root.state? = none) :
    root.state = .error .poisonedAggregate := by
  simp [state, poisoned]

theorem handle_eq_ok {Command : Type}
    {decide : A.State → Command → Except A.Error (Option (Events A.Event N))} {command : Command} :
    root.handle decide command = .ok decided ↔
      ∃ state, root.state? = some state ∧ decide state command = .ok decided := by
  simp only [handle, bind_eq_ok, mapError_eq_ok, state_eq_ok]

variable {version : Version}

/-- A batch may be committed when the root is usable and its last version exists. -/
theorem commitVersion_eq_ok :
    root.commitVersion events = .ok version ↔
      (∃ state, root.state? = some state) ∧
        version.toNat = depth root.version + events.len := by
  have bounded := version.asU64.toNat_lt
  have limit : usizeLimit = 2 ^ 64 := rfl
  simp only [commitVersion, bind_eq_ok, okOr_eq_ok, rejectIf_eq_ok, state_eq_ok,
    checkedAdd_eq_some, Version.new_eq_some, exists_const]
  constructor
  · rintro ⟨state, usable, small, ending, sum, isEnding⟩
    have fits : events.rest.length + 1 < 2 ^ 64 := by omega
    rw [UInt64.toNat_ofNat_of_lt' fits, ← isEnding] at sum
    exact ⟨⟨state, usable⟩, sum⟩
  · rintro ⟨⟨state, usable⟩, sum⟩
    rw [Version.toNat, Events.len] at sum
    have small : events.rest.length + 1 < 2 ^ 64 := by omega
    refine ⟨state, usable, by omega, version.asU64, ?_, rfl⟩
    rw [UInt64.toNat_ofNat_of_lt' small]
    exact sum

/-- A committed batch is folded into the state. -/
theorem commitPersisted_eq_ok :
    root.commitPersisted events = .ok after ↔
      ∃ current version, root.state? = some current ∧
        version.toNat = depth root.version + events.len ∧
        after = { root with
          state? := some (events.toList.foldl A.apply current)
          version := some version } := by
  simp only [commitPersisted, foldEvents, bind_eq_ok, commitVersion_eq_ok, state_eq_ok, pure_eq_ok,
    Except.ok.injEq]
  constructor
  · rintro ⟨version, ⟨_, number⟩, current, usable, rfl⟩
    exact ⟨current, version, usable, number, rfl⟩
  · rintro ⟨current, version, usable, number, rfl⟩
    exact ⟨version, ⟨⟨current, usable⟩, number⟩, current, usable, rfl⟩

/-- Replay takes exactly the next event, below the limit. -/
theorem replay_eq_ok :
    root.replay version event = .ok after ↔
      ∃ state, root.state? = some state ∧
        version.toNat = depth root.version + 1 ∧
        root.replayedEvents < A.maxRehydrationEvents ∧
        after = ⟨some (A.apply state event), some version, root.replayedEvents + 1⟩ := by
  have bounded := A.maxRehydrationEvents_lt
  simp only [replay, foldEvents, bind_eq_ok, okOr_eq_ok, rejectIf_eq_ok, state_eq_ok, pure_eq_ok,
    Except.ok.injEq, exists_const, following_eq_some, Decidable.not_not]
  constructor
  · rintro ⟨_, _, expected, isNext, rfl, below, _, _, ⟨state, usable, rfl⟩, rfl⟩
    exact ⟨state, usable, isNext, by omega, rfl⟩
  · rintro ⟨state, usable, isNext, below, rfl⟩
    exact ⟨state, usable, version, isNext, rfl, by omega, by omega, _, ⟨state, usable, rfl⟩, rfl⟩

/-- The next event is replayed. -/
theorem replay_next (event : A.Event)
    (usable : root.state = .ok state) (isNext : following root.version = some version)
    (below : root.replayedEvents < A.maxRehydrationEvents) :
    root.replay version event = .ok
      { state? := some (A.apply state event)
        version := some version
        replayedEvents := root.replayedEvents + 1 } :=
  replay_eq_ok.mpr ⟨state, state_eq_ok.mp usable, following_eq_some.mp isNext, below, rfl⟩

theorem commitVersion_single (event : A.Event) (usable : root.state = .ok state)
    (isNext : following root.version = some version) :
    root.commitVersion (Events.new event : Events A.Event N) = .ok version := by
  have exact := following_eq_some.mp isNext
  have added : checkedAdd (rawHead root.version) 1 = some version.asU64 :=
    checkedAdd_eq_some.mpr exact
  have isVersion : Version.new version.asU64 = some version := Version.new_eq_some.mpr rfl
  simp [commitVersion, usable, usizeLimit, added, isVersion]

/-- A single event is committed as it is replayed. -/
theorem commitPersisted_single (event : A.Event) (usable : root.state = .ok state)
    (isNext : following root.version = some version) :
    root.commitPersisted (Events.new event : Events A.Event N) = .ok
      { root with
        state? := some (A.apply state event)
        version := some version } := by
  have isUsable := state_eq_ok.mp usable
  rw [commitPersisted, commitVersion_single event usable isNext, ok_bind,
    foldEvents, AggregateRoot.state]
  simp [isUsable]

end AggregateRoot

end Mnesis.Kernel
