import Mnesis.Foundation.Machine
import Mnesis.Kernel.Aggregate

/-!
# Roots under panics of the application

The application's `apply` may panic while it owns the state of a root.  The
operations below change a root in place, in the order of the source, and stop
where a panic unwinds through them: what they changed before stays changed.
`panicAt` is the index of the event whose `apply` panics, if one does; where none
does they are the operations of `AggregateRoot`.
-/

namespace Mnesis.Kernel

open Foundation

/-- What keeps a call from its result: an error it returns, or a panic. -/
inductive Interruption
  | returned (error : KernelError)
  | panicked
  deriving DecidableEq

/-- A call that changes a root in place. -/
abbrev Mutation (A : Aggregate) := Locked (AggregateRoot A) Interruption

namespace Unwind

variable {A : Aggregate}

/-- Return early with an error of the kernel. -/
def check {α : Type} (result : Except KernelError α) : Mutation A α :=
  Locked.ofResult (result.mapError .returned)

/-- Fold events one by one; there is no state if one of them panics. -/
def applyAll (state : A.State) : List A.Event → Option Nat → Option A.State
  | [], _ => some state
  | _ :: _, some 0 => none
  | event :: events, some (index + 1) => applyAll (A.apply state event) events (some index)
  | event :: events, none => applyAll (A.apply state event) events none

/-- Fold events into the state.  Nothing usable stays in the root meanwhile. -/
def foldEvents (events : List A.Event) (panicAt : Option Nat) : Mutation A Unit := do
  let root : AggregateRoot A ← get
  let current ← check root.state
  set { root with state? := none : AggregateRoot A }
  let folded ← Locked.ofResult (okOr (applyAll current events panicAt) .panicked)
  set { root with state? := some folded : AggregateRoot A }

/-- Fold the next stored event. -/
def replay (version : Version) (event : A.Event) (panicAt : Option Nat) :
    Mutation A Unit := do
  let root ← get
  let _ ← check root.state
  let expected ← check (okOr (following root.version) .versionOverflow)
  check (rejectIf (version ≠ expected) (.versionMismatch expected version))
  let limit := A.maxRehydrationEvents
  check (rejectIf (root.replayedEvents ≥ limit) (.rehydrationLimitExceeded limit))
  check (rejectIf (root.replayedEvents + 1 ≥ usizeLimit) (.rehydrationLimitExceeded limit))
  foldEvents [event] panicAt
  let folded ← get
  set { folded with
    replayedEvents := root.replayedEvents + 1
    version := some version }

/-- Adopt events that the store has accepted.  Their version is kept even if
folding them panics. -/
def commitPersisted (events : Events A.Event N) (panicAt : Option Nat) :
    Mutation A Unit := do
  let root ← get
  let version ← check (root.commitVersion events)
  set { root with version := some version }
  foldEvents events.toList panicAt

theorem applyAll_calm (state : A.State) (events : List A.Event) :
    applyAll state events none = some (events.foldl A.apply state) := by
  induction events generalizing state with
  | nil => rfl
  | cons event events folded => exact folded (A.apply state event)

theorem applyAll_eq_some (completed : applyAll state events panicAt = some folded) :
    folded = events.foldl A.apply state := by
  fun_induction applyAll state events panicAt with
  | case1 => exact (Option.some.inj completed).symm
  | case2 => cases completed
  | case3 state index event events inner => exact inner completed
  | case4 state event events inner => exact inner completed

/-- A root that has folded more events. -/
structure Folded (root : AggregateRoot A) (events : List A.Event)
    (after : AggregateRoot A) : Prop where
  state : ∃ current, root.state? = some current ∧ after.state? = some (events.foldl A.apply current)
  version : depth after.version = depth root.version + events.length

/-- What an interrupted call leaves: the same root if it returned an error, and a
root without a state if it panicked. -/
def Interrupted (root : AggregateRoot A) : Interruption → AggregateRoot A → Prop
  | .returned _, after => after = root
  | .panicked, after => after.state? = none

/-- A failed check leaves the root as it was. -/
theorem ends_check_bind {next : α → Mutation A β}
    (rest : ∀ value, result = .ok value → (next value).Ends root succeeded (Interrupted root)) :
    (check result >>= next).Ends root succeeded (Interrupted root) := by
  apply ends_ofResult_bind
  · intro error failed
    obtain ⟨cause, _, rfl⟩ := mapError_eq_error.mp failed
    rfl
  · intro value succeeds
    exact rest value (mapError_eq_ok.mp succeeds)

/-- Events are folded to the last one, or the root is left poisoned. -/
theorem foldEvents_ends
    (usable : root.state? = some current) (events : List A.Event) (panicAt : Option Nat) :
    (foldEvents events panicAt).Ends root
      (fun _ after => after = { root with state? := some (events.foldl A.apply current) })
      (fun interruption after =>
        interruption = .panicked ∧ after = { root with state? := none }) := by
  apply ends_get_bind
  rw [check, AggregateRoot.state_of_usable usable, mapError_ok]
  apply ends_ofResult_bind
  · rintro _ ⟨⟩
  rintro _ ⟨⟩
  apply ends_set_bind
  apply ends_ofResult_bind
  · intro interruption panicked
    exact ⟨(okOr_eq_error.mp panicked).2.symm, rfl⟩
  · intro folded completed
    rw [applyAll_eq_some (okOr_eq_ok.mp completed)]
    rfl

/-- A replay folds its event or is interrupted. -/
theorem replay_ends (root : AggregateRoot A) (version : Version) (event : A.Event)
    (panicAt : Option Nat) :
    (replay version event panicAt).Ends root (fun _ => Folded root [event]) (Interrupted root) := by
  apply ends_get_bind
  apply ends_check_bind
  intro current usable
  apply ends_check_bind
  intro expected isNext
  apply ends_check_bind
  intro _ matching
  apply ends_check_bind
  intro _ _
  apply ends_check_bind
  intro _ _
  rw [AggregateRoot.state_eq_ok] at usable
  refine ((foldEvents_ends usable [event] panicAt).mono (fun _ after folded => folded) ?_).bind ?_
  · rintro _ _ ⟨rfl, rfl⟩
    rfl
  rintro _ _ rfl
  have same : version = expected := Decidable.not_not.mp (rejectIf_eq_ok.mp matching)
  exact {
    state := ⟨current, usable, rfl⟩
    version := same ▸ following_eq_some.mp (okOr_eq_ok.mp isNext) }

/-- A commit folds its events or is interrupted. -/
theorem commitPersisted_ends (root : AggregateRoot A) (events : Events A.Event N)
    (panicAt : Option Nat) :
    (commitPersisted events panicAt).Ends root (fun _ => Folded root events.toList)
      (Interrupted root) := by
  apply ends_get_bind
  apply ends_check_bind
  intro version committed
  obtain ⟨⟨current, usable⟩, number⟩ := AggregateRoot.commitVersion_eq_ok.mp committed
  apply ends_set_bind
  have usable' : { root with version := some version }.state? = some current := usable
  apply (foldEvents_ends usable' events.toList panicAt).mono
  · rintro _ _ rfl
    exact ⟨⟨current, usable, rfl⟩, number⟩
  · rintro _ _ ⟨rfl, rfl⟩
    rfl

/-- A result of the panic-free operations, as a call in place. -/
def settled (root : AggregateRoot A) :
    Except KernelError (AggregateRoot A) → Except Interruption Unit × AggregateRoot A
  | .ok after => (.ok (), after)
  | .error error => (.error (.returned error), root)

theorem exec_check_bind_settled {calm : α → Except KernelError (AggregateRoot A)}
    (agrees : ∀ value, result = .ok value → (next value).exec root = settled root (calm value)) :
    (check result >>= next).exec root = settled root (result >>= calm) := by
  cases result with
  | error error => rfl
  | ok value => exact agrees value rfl

theorem exec_foldEvents_calm (usable : root.state? = some current) (events : List A.Event) :
    (foldEvents events none).exec root =
      (.ok (), { root with state? := some (events.foldl A.apply current) }) := by
  unfold foldEvents
  rw [exec_get_bind, AggregateRoot.state_of_usable usable, check, mapError_ok,
    exec_ofResult_ok_bind, exec_set_bind, applyAll_calm]
  rfl

/-- Without a panic a commit is the one of `AggregateRoot`. -/
theorem exec_commitPersisted_calm (root : AggregateRoot A) (events : Events A.Event N) :
    (commitPersisted events none).exec root = settled root (root.commitPersisted events) := by
  apply exec_check_bind_settled
  intro version committed
  obtain ⟨⟨current, usable⟩, _⟩ := AggregateRoot.commitVersion_eq_ok.mp committed
  have usable' : { root with version := some version }.state? = some current := usable
  rw [exec_set_bind, exec_foldEvents_calm usable', AggregateRoot.foldEvents,
    AggregateRoot.state_of_usable usable']
  rfl

/-- A call that changes a root. -/
inductive Operation (A : Aggregate)
  | replay (version : Version) (event : A.Event) (panicAt : Option Nat)
  | commit {N : Nat} (events : Events A.Event N) (panicAt : Option Nat)

namespace Operation

/-- The events an operation is to fold. -/
def events : Operation A → List A.Event
  | .replay _ event _ => [event]
  | .commit events _ => events.toList

/-- Run an operation. -/
def run : Operation A → Mutation A Unit
  | .replay version event panicAt => Unwind.replay version event panicAt
  | .commit events panicAt => commitPersisted events panicAt

theorem run_ends (operation : Operation A) (root : AggregateRoot A) :
    operation.run.Ends root (fun _ => Folded root operation.events) (Interrupted root) := by
  cases operation with
  | replay version event panicAt => exact replay_ends root version event panicAt
  | commit events panicAt => exact commitPersisted_ends root events panicAt

/-- A poisoned root refuses every operation. -/
theorem exec_run_poisoned (operation : Operation A) (poisoned : root.state? = none) :
    operation.run.exec root = (.error (.returned .poisonedAggregate), root) := by
  cases operation with
  | replay version event panicAt =>
    rw [run, Unwind.replay, exec_get_bind, AggregateRoot.state_of_poisoned poisoned]
    rfl
  | commit events panicAt =>
    have refused : root.commitVersion events = .error .poisonedAggregate := by
      rw [AggregateRoot.commitVersion, AggregateRoot.state_of_poisoned poisoned]
      rfl
    rw [run, commitPersisted, exec_get_bind, refused]
    rfl

end Operation

/-- A root on which operations are called one after the other. -/
def roots (start : AggregateRoot A) :
    Machine (AggregateRoot A) (Operation A) (Except Interruption Unit) where
  initial := start
  step root operation := operation.run.exec root

/-- The events of the operations that succeeded, in order. -/
def foldedEvents :
    List (Operation A) → List (Except Interruption Unit) → List A.Event
  | operation :: operations, .ok () :: answers =>
    operation.events ++ foldedEvents operations answers
  | _ :: operations, .error _ :: answers => foldedEvents operations answers
  | _, _ => []

section Runs

variable {start root : AggregateRoot A}

theorem Folded.nil (usable : root.state? = some current) : Folded root [] root :=
  ⟨⟨current, usable, usable⟩, rfl⟩

/-- Folds compose. -/
theorem Folded.trans (first : Folded root events middle) (second : Folded middle later after) :
    Folded root (events ++ later) after := by
  obtain ⟨current, usable, folded⟩ := first.state
  obtain ⟨current', usable', folded'⟩ := second.state
  rw [folded, Option.some_inj] at usable'
  refine ⟨⟨current, usable, ?_⟩, ?_⟩
  · rw [folded', ← usable', List.foldl_append]
  · rw [second.version, first.version, List.length_append, Nat.add_assoc]

theorem Folded.fits (folded : Folded root events after) :
    depth root.version + events.length < 2 ^ 64 := by
  rw [← folded.version]
  exact depth_lt after.version

/-- An operation folds its events, changes nothing, or panics and poisons the root. -/
theorem step_cases (operation : Operation A) (root : AggregateRoot A) :
    (∃ after, operation.run.exec root = (.ok (), after) ∧ Folded root operation.events after) ∨
      (∃ error, operation.run.exec root = (.error (.returned error), root)) ∨
      ∃ after, operation.run.exec root = (.error .panicked, after) ∧ after.state? = none := by
  have ends := operation.run_ends root
  unfold Locked.Ends at ends
  generalize operation.run.exec root = result at ends ⊢
  rcases result with ⟨(error | panicked) | _, after⟩
  · exact .inr (.inl ⟨error, congrArg _ ends⟩)
  · exact .inr (.inr ⟨after, rfl, ends⟩)
  · exact .inl ⟨after, rfl, ends⟩

/-- A poisoned root stays poisoned. -/
theorem answers_poisoned (poisoned : root.state? = none) (operations : List (Operation A)) :
    (roots start).answers root operations =
      (operations.map fun _ => .error (.returned .poisonedAggregate), root) := by
  induction operations with
  | nil => rfl
  | cons operation operations refused =>
    have step : (roots start).step root operation = (.error (.returned .poisonedAggregate), root) :=
      operation.exec_run_poisoned poisoned
    rw [Machine.answers_cons, step, refused]
    rfl

/-- A sequence of operations folds what it was told to, up to the first panic. -/
theorem answers_cases (usable : root.state? = some current)
    (answered : (roots start).answers root operations = (answers, after)) :
    (.error .panicked ∉ answers ∧ Folded root (foldedEvents operations answers) after) ∨
      (.error .panicked ∈ answers ∧ after.state? = none) := by
  induction operations generalizing root current answers after with
  | nil =>
    cases answered
    exact .inl ⟨List.not_mem_nil, Folded.nil usable⟩
  | cons operation operations later =>
    have step : (roots start).step root operation = operation.run.exec root := rfl
    rw [Machine.answers_cons, step] at answered
    cases answered
    rcases step_cases operation root with
      ⟨middle, ran, folded⟩ | ⟨error, ran⟩ | ⟨middle, ran, poisoned⟩
    · obtain ⟨_, _, usable'⟩ := folded.state
      rw [ran]
      rcases later usable' rfl with ⟨calm, foldedLater⟩ | ⟨panicked, poisoned⟩
      · exact .inl ⟨by simpa using calm, folded.trans foldedLater⟩
      · exact .inr ⟨.tail _ panicked, poisoned⟩
    · rw [ran]
      rcases later usable rfl with ⟨calm, foldedLater⟩ | ⟨panicked, poisoned⟩
      · exact .inl ⟨by simpa using calm, foldedLater⟩
      · exact .inr ⟨.tail _ panicked, poisoned⟩
    · rw [ran, answers_poisoned poisoned]
      exact .inr ⟨.head _, poisoned⟩

/-- Commit events one at a time. -/
def singles (events : List A.Event) : List (Operation A) :=
  events.map fun event => .commit (Events.new event : Events A.Event 0) none

/-- The root after adopting events that fit behind its version. -/
def adopted (root : AggregateRoot A) (current : A.State) (events : List A.Event) :
    AggregateRoot A :=
  { root with
    state? := some (events.foldl A.apply current)
    version := ofDepth (depth root.version + events.length) }

/-- A batch that fits is committed. -/
theorem exec_commitPersisted_of_fits (usable : root.state? = some current)
    (events : Events A.Event N) (fits : depth root.version + events.len < 2 ^ 64) :
    (commitPersisted events none).exec root = (.ok (), adopted root current events.toList) := by
  have number := depth_ofDepth fits
  cases isVersion : ofDepth (depth root.version + events.len) with
  | none =>
    rw [isVersion, depth_none, Events.len] at number
    omega
  | some version =>
    rw [isVersion, depth_some] at number
    have committed : root.commitPersisted events = .ok (adopted root current events.toList) := by
      apply AggregateRoot.commitPersisted_eq_ok.mpr
      refine ⟨current, version, usable, number, ?_⟩
      rw [adopted, Events.length_toList, isVersion]
    rw [exec_commitPersisted_calm, committed]
    rfl

theorem depth_adopted_single (current : A.State) (event : A.Event)
    (fits : depth root.version + 1 < 2 ^ 64) :
    depth (adopted root current [event]).version = depth root.version + 1 :=
  depth_ofDepth fits

/-- So are its events one by one. -/
theorem answers_singles_of_fits (usable : root.state? = some current)
    (events : List A.Event) (fits : depth root.version + events.length < 2 ^ 64) :
    (roots start).answers root (singles events) =
      (events.map fun _ => .ok (), adopted root current events) := by
  induction events generalizing root current with
  | nil =>
    have same : adopted root current [] = root := by
      rw [adopted, List.length_nil, Nat.add_zero, ofDepth_depth, List.foldl_nil, ← usable]
    rw [same]
    rfl
  | cons event events later =>
    rw [List.length_cons] at fits
    have fitsFirst : depth root.version + 1 < 2 ^ 64 := by omega
    have first : (roots start).step root (.commit (Events.new event : Events A.Event 0) none) =
        (.ok (), adopted root current [event]) :=
      exec_commitPersisted_of_fits usable (Events.new event) fitsFirst
    have reached := depth_adopted_single current event fitsFirst
    have isLater := @later (adopted root current [event]) _ rfl (by rw [reached]; omega)
    have same : adopted (adopted root current [event]) (A.apply current event) events =
        adopted root current (event :: events) := by
      simp only [adopted] at reached ⊢
      rw [reached, List.length_cons, List.foldl_cons, Nat.add_assoc, Nat.add_comm 1]
    have cons : singles (event :: events) =
        .commit (Events.new event : Events A.Event 0) none :: singles events := rfl
    rw [cons, Machine.answers_cons, first, isLater]
    exact congrArg _ same

theorem foldedEvents_singles (events : List A.Event) :
    foldedEvents (singles events) (events.map fun _ => .ok ()) = events := by
  induction events with
  | nil => rfl
  | cons event events same => exact congrArg _ same

/-- A batch is committed exactly if its events are, one by one. -/
theorem exec_commitPersisted_iff_singles (events : Events A.Event N) (after : AggregateRoot A) :
    (commitPersisted events none).exec root = (.ok (), after) ↔
      (roots start).answers root (singles events.toList) =
        (events.toList.map fun _ => .ok (), after) := by
  cases usable : root.state? with
  | none =>
    have refused := (Operation.commit events none).exec_run_poisoned usable
    rw [Operation.run] at refused
    rw [refused, answers_poisoned usable]
    simp [singles, Events.toList]
  | some current =>
    constructor
    · intro committed
      have folded := commitPersisted_ends root events none
      rw [Locked.Ends, committed] at folded
      rw [exec_commitPersisted_of_fits usable events folded.fits] at committed
      rw [answers_singles_of_fits usable events.toList folded.fits, (Prod.mk.inj committed).2]
    · intro answered
      have folded := answers_cases usable answered
      rw [foldedEvents_singles] at folded
      rcases folded with ⟨_, folded⟩ | ⟨panicked, _⟩
      · rw [answers_singles_of_fits usable events.toList folded.fits] at answered
        rw [exec_commitPersisted_of_fits usable events folded.fits, (Prod.mk.inj answered).2]
      · simp at panicked

/-- The check before an append foretells whether the commit succeeds. -/
theorem commitVersion_iff_committed (events : Events A.Event N) :
    (∃ version, root.commitVersion events = .ok version) ↔
      ((commitPersisted events none).exec root).1 = .ok () := by
  rw [exec_commitPersisted_calm]
  constructor
  · rintro ⟨version, committed⟩
    obtain ⟨⟨current, usable⟩, number⟩ := AggregateRoot.commitVersion_eq_ok.mp committed
    rw [AggregateRoot.commitPersisted_eq_ok.mpr ⟨current, version, usable, number, rfl⟩]
    rfl
  · intro committed
    cases result : root.commitPersisted events with
    | error error =>
      rw [result] at committed
      cases committed
    | ok after =>
      obtain ⟨current, version, usable, number, _⟩ := AggregateRoot.commitPersisted_eq_ok.mp result
      exact ⟨version, AggregateRoot.commitVersion_eq_ok.mpr ⟨⟨current, usable⟩, number⟩⟩

/-- Behind a passed check a commit fails by a panic only. -/
theorem commitVersion_iff_not_returned (events : Events A.Event N) (panicAt : Option Nat) :
    (∃ version, root.commitVersion events = .ok version) ↔
      ∀ error, ((commitPersisted events panicAt).exec root).1 ≠ .error (.returned error) := by
  have run : (commitPersisted events panicAt).exec root =
      (check (root.commitVersion events) >>= fun version => do
        set { root with version := some version }
        foldEvents events.toList panicAt).exec root := rfl
  rw [run]
  cases committed : root.commitVersion events with
  | error error =>
    constructor
    · rintro ⟨_, ⟨⟩⟩
    · intro never
      exact absurd rfl (never error)
  | ok version =>
    obtain ⟨⟨current, usable⟩, _⟩ := AggregateRoot.commitVersion_eq_ok.mp committed
    have usable' : { root with version := some version }.state? = some current := usable
    have ends := foldEvents_ends usable' events.toList panicAt
    refine ⟨fun _ error returned => ?_, fun _ => ⟨version, rfl⟩⟩
    rw [check, mapError_ok, exec_ofResult_ok_bind, exec_set_bind] at returned
    unfold Locked.Ends at ends
    generalize (foldEvents events.toList panicAt).exec _ = result at ends returned
    rcases result with ⟨_ | _, after⟩
    · cases returned
      cases ends.1
    · cases returned

end Runs

/-- Roots to start from: new ones, and those restored from a snapshot. -/
inductive Fresh : AggregateRoot A → Prop
  | new : Fresh .new
  | restored (state : A.State) (version : Version) : Fresh (.restore state version)

/-- A root that rejects every access to its state, every decision and every call,
and that none of them changes. -/
structure Poisoned (root : AggregateRoot A) : Prop where
  state : root.state = .error .poisonedAggregate
  handle : ∀ {Command : Type} {N : Nat}
    (decide : A.State → Command → Except A.Error (Option (Events A.Event N)))
    (command : Command),
    root.handle decide command = .error (.kernel .poisonedAggregate)
  commitVersion : ∀ {N : Nat} (events : Events A.Event N),
    root.commitVersion events = .error .poisonedAggregate
  answers : ∀ operations : List (Operation A),
    (roots root).answers root operations =
      (operations.map fun _ => .error (.returned .poisonedAggregate), root)

theorem poisoned_of_state (missing : root.state? = none) : Poisoned root where
  state := AggregateRoot.state_of_poisoned missing
  handle decide command := by
    rw [AggregateRoot.handle, AggregateRoot.state_of_poisoned missing]
    rfl
  commitVersion events := by
    rw [AggregateRoot.commitVersion, AggregateRoot.state_of_poisoned missing]
    rfl
  answers := answers_poisoned missing

/-- What holds of a root that has answered operations since its start. -/
structure Guarded (start : AggregateRoot A) (operations : List (Operation A))
    (answers : List (Except Interruption Unit)) (root : AggregateRoot A) : Prop where
  /-- Without a panic, the root has folded the events of the calls that succeeded. -/
  folded : .error .panicked ∉ answers → Folded start (foldedEvents operations answers) root
  /-- A call that returns an error changes nothing, its replay budget included. -/
  unchanged : ∀ {operation : Operation A} {error : KernelError} {after : AggregateRoot A},
    operation.run.exec root = (.error (.returned error), after) → after = root
  /-- A batch is adopted exactly when its events are one at a time, to the same root. -/
  batch : ∀ {N : Nat} (events : Events A.Event N) (after : AggregateRoot A),
    (commitPersisted events none).exec root = (.ok (), after) ↔
      (roots root).answers root (singles events.toList) = (events.toList.map fun _ => .ok (), after)
  /-- A version to commit at exists exactly when committing then succeeds. -/
  committed : ∀ {N : Nat} (events : Events A.Event N),
    (∃ version, root.commitVersion events = .ok version) ↔
      ((commitPersisted events none).exec root).1 = .ok ()
  /-- Whether or not the commit panics, it then returns no error. -/
  unwound : ∀ {N : Nat} (events : Events A.Event N) (panicAt : Option Nat),
    (∃ version, root.commitVersion events = .ok version) ↔
      ∀ error, ((commitPersisted events panicAt).exec root).1 ≠ .error (.returned error)
  /-- After a panic the root rejects everything and stays as it is. -/
  poisoned : .error .panicked ∈ answers → Poisoned root

/-- Every sequence of calls on a root folds or leaves it alone, until a panic after
which it is rejected for good. -/
theorem every_call_folds_or_changes_nothing {start : AggregateRoot A} (fresh : Fresh start)
    {operations : List (Operation A)} {answers : List (Except Interruption Unit)}
    {root : AggregateRoot A} (answered : (roots start).answers start operations = (answers, root)) :
    Guarded start operations answers root := by
  have usable : ∃ current, start.state? = some current := by
    cases fresh with
    | new => exact ⟨A.initial, rfl⟩
    | restored state version => exact ⟨state, rfl⟩
  obtain ⟨current, usable⟩ := usable
  have cases := answers_cases usable answered
  constructor
  · intro calm
    exact cases.elim And.right fun panicked => absurd panicked.1 calm
  · intro operation error after returned
    rcases step_cases operation root with ⟨_, ran, _⟩ | ⟨_, ran⟩ | ⟨_, ran, _⟩
    · cases returned.symm.trans ran
    · cases returned.symm.trans ran
      rfl
    · cases returned.symm.trans ran
  · exact exec_commitPersisted_iff_singles
  · exact commitVersion_iff_committed
  · exact commitVersion_iff_not_returned
  · intro panicked
    exact poisoned_of_state (cases.elim (fun calm => absurd panicked calm.1) And.right)

/-- An aggregate that counts its events. -/
def counter : Aggregate where
  State := Nat
  Event := Unit
  Error := Empty
  initial := 0
  apply count _ := count + 1
  maxRehydrationEvents := 1000000
  maxRehydrationEvents_pos := by decide
  maxRehydrationEvents_lt := by decide

/-- A count of two that panics at its second event stays rejected. -/
theorem counter_call_panics :
    Fresh (.new : AggregateRoot counter) ∧
      Guarded (.new : AggregateRoot counter)
        [.commit (⟨(), [()], by decide⟩ : Events counter.Event 1) (some 1)]
        [.error .panicked] ⟨none, Version.new 2, 0⟩ :=
  ⟨.new, every_call_folds_or_changes_nothing .new rfl⟩

/-- One version below the ceiling. -/
def nearCeiling : AggregateRoot counter :=
  .restore (0 : Nat) ⟨18446744073709551614, by decide⟩

/-- A batch of two that does not fit leaves the root alone, while the first of its
events alone is adopted. -/
theorem batch_at_ceiling_differs_from_singles :
    Fresh nearCeiling ∧
      ((commitPersisted (⟨(), [()], by decide⟩ : Events counter.Event 1) none).exec
        nearCeiling).2.version ≠
      ((roots nearCeiling).answers nearCeiling (singles [(), ()])).2.version :=
  ⟨.restored _ _, by decide⟩

end Unwind

end Mnesis.Kernel
