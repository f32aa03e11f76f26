import Mathlib.Data.List.Forall2
import Mnesis.Store.Append

/-!
# Stores that are event logs

A store implements an event log when its states represent logs and every call
has the same answer and the same effect on both.  What holds of the calls of an
event log then holds of the store: a refused call changes nothing, and an atomic
append does what the appends of its runs do one after the other.
-/

namespace Mnesis.Store

open Foundation Kernel

variable {State AdapterError : Type}

/-- The calls that write to a store, as one machine. -/
def writeMachine (initial : State)
    (append : StreamKey → Option Version → PendingBatch → State →
      Except (AppendError AdapterError) AllPosition × State)
    (atomicAppendMany : List PlannedAppend → State →
      Except (AtomicAppendError AdapterError) (Option AllPosition) × State) :
    Machine State Call (Answer AdapterError) where
  initial := initial
  step state
    | .append id expected envelopes =>
      let (result, after) := append id expected envelopes state
      (.append result, after)
    | .atomicAppendMany writes =>
      let (result, after) := atomicAppendMany writes state
      (.atomicAppendMany result, after)

/-- The states of a store represent event logs, each log by one state, and the
calls agree. -/
structure Implements (machine : Machine State Call (Answer AdapterError))
    (limits : LogLimits StreamKey PendingEnvelope) (represents : State → Log → Prop) : Prop where
  refines : machine.Refines (logMachine limits) represents
    (fun answer reply => answer.position = reply)
  unique : ∀ {state other : State} {log : Log},
    represents state log → represents other log → state = other

/-- A check of the heads of runs, one after the other. -/
structure ChecksHeads (log : Log)
    (check : Nat → List PlannedAppend → Except (AtomicAppendError AdapterError) Unit) : Prop where
  nil : ∀ index, check index [] = .ok ()
  cons : ∀ index write writes, check index (write :: writes) =
    rejectIf (UInt64.ofNat (log.stream write.target).length ≠
      rawHead write.expectedVersion)
      (.conflict index (Version.new (UInt64.ofNat (log.stream write.target).length))) >>=
      fun _ => check (index + 1) writes
  bounded : ∀ id, (log.stream id).length < 2 ^ 64

section ChecksHeads

variable {check : Nat → List PlannedAppend → Except (AtomicAppendError AdapterError) Unit}
variable (checks : ChecksHeads log check)
include checks

theorem ChecksHeads.sameHead (id : StreamKey) (expected : Option Version) :
    UInt64.ofNat (log.stream id).length = rawHead expected ↔
      depth expected = (log.stream id).length := by
  rw [← UInt64.toNat_inj, UInt64.toNat_ofNat_of_lt' (checks.bounded id), eq_comm, depth]

theorem ChecksHeads.eq_ok :
    check index writes = .ok () ↔
      ∀ write ∈ writes, depth write.expectedVersion = (log.stream write.target).length := by
  induction writes generalizing index with
  | nil => simp [checks.nil]
  | cons write writes step =>
    rw [checks.cons, rejectIf_bind_eq_ok, step, Decidable.not_not, List.forall_mem_cons,
      checks.sameHead]

end ChecksHeads

section Refines

variable {atomicAppendMany : List PlannedAppend → State →
  Except (AtomicAppendError AdapterError) (Option AllPosition) × State}
variable {represents : State → Log → Prop}

/-- A store refines an event log when each of its calls does. -/
theorem writeMachine_refines (initially : represents initial (.empty versionNumber))
    (appended : ∀ {state log id expected envelopes after}, represents state log →
      EventLog.append limits log ⟨id, depth expected, envelopes.toList⟩ = some after →
      ∃ position stateAfter, append id expected envelopes state = (.ok position, stateAfter) ∧
        position.toNat = after.count ∧ represents stateAfter after)
    (refusedAppend : ∀ {state log id expected envelopes}, represents state log →
      EventLog.append limits log ⟨id, depth expected, envelopes.toList⟩ = none →
      ∃ error, append id expected envelopes state = (.error error, state))
    (nothing : ∀ state, atomicAppendMany [] state = (.ok none, state))
    (appendedAll : ∀ {state log writes after}, represents state log → writes ≠ [] →
      EventLog.appendAll limits log (writes.map PlannedAppend.toWrite) = some after →
      ∃ position stateAfter,
        atomicAppendMany writes state = (.ok (some position), stateAfter) ∧
        position.toNat = after.count ∧ represents stateAfter after)
    (refusedAll : ∀ {state log writes}, represents state log → writes ≠ [] →
      EventLog.appendAll limits log (writes.map PlannedAppend.toWrite) = none →
      ∃ error, atomicAppendMany writes state = (.error error, state)) :
    (writeMachine initial append atomicAppendMany).Refines (logMachine limits) represents
      (fun answer reply => answer.position = reply) where
  initially := initially
  step := by
    intro state log call related
    cases call with
    | append id expected envelopes =>
      cases accepted : log.append limits ⟨id, depth expected, envelopes.toList⟩ with
      | none =>
        obtain ⟨error, failed⟩ := refusedAppend related accepted
        simp [writeMachine, logMachine, EventLog.answer, EventLog.commit, Call.toLog,
          failed, accepted, Answer.position, related]
      | some after =>
        obtain ⟨position, stateAfter, succeeded, last, relatedAfter⟩ := appended related accepted
        simp [writeMachine, logMachine, EventLog.answer, EventLog.commit, Call.toLog,
          succeeded, accepted, Answer.position, last, relatedAfter]
    | atomicAppendMany writes =>
      cases writes with
      | nil => simp [writeMachine, logMachine, EventLog.answer, EventLog.commit,
          Call.toLog, nothing, Answer.position, related]
      | cons write writes =>
        cases accepted : log.appendAll limits ((write :: writes).map PlannedAppend.toWrite) with
        | none =>
          obtain ⟨error, failed⟩ := refusedAll related (List.cons_ne_nil _ _) accepted
          rw [List.map_cons] at accepted
          simp [writeMachine, logMachine, EventLog.answer, EventLog.commit, Call.toLog,
            failed, accepted, Answer.position, related]
        | some after =>
          obtain ⟨position, stateAfter, succeeded, last, relatedAfter⟩ :=
            appendedAll related (List.cons_ne_nil _ _) accepted
          rw [List.map_cons] at accepted
          simp [writeMachine, logMachine, EventLog.answer, EventLog.commit, Call.toLog,
            succeeded, accepted, Answer.position, last, relatedAfter]

end Refines

section Implements

variable {represents : State → Log → Prop}

theorem Implements.unchanged_of_refused (implements : Implements machine limits represents)
    (calls : List Call) (call : Call)
    (refused : (machine.step (machine.run calls) call).1.position = none) :
    (machine.step (machine.run calls) call).2 = machine.run calls := by
  have related := implements.refines.run calls
  obtain ⟨agrees, relatedAfter⟩ := implements.refines.step call related
  have sameLog := EventLog.answer_of_refused (agrees.symm.trans refused)
  exact implements.unique (sameLog ▸ relatedAfter) related

/-- The append of one run. -/
def PlannedAppend.toCall (write : PlannedAppend) : Call :=
  .append write.target write.expectedVersion write.batch

/-- An atomic append does what the appends of its runs do one after the other, or
nothing. -/
structure AtomicIsSequential (machine : Machine State Call (Answer AdapterError)) (state : State)
    (writes : List PlannedAppend) : Prop where
  /-- It succeeds exactly when all of the appends do. -/
  succeeds : (machine.step state (.atomicAppendMany writes)).1.position ≠ none ↔
    ∀ answer ∈ (machine.answers state (writes.map PlannedAppend.toCall)).1, answer.position ≠ none
  /-- It then leaves the same store. -/
  effect : (machine.step state (.atomicAppendMany writes)).1.position ≠ none →
    (machine.step state (.atomicAppendMany writes)).2 =
      (machine.answers state (writes.map PlannedAppend.toCall)).2
  /-- It then returns the position that the last append returns. -/
  position : (machine.step state (.atomicAppendMany writes)).1.position ≠ none →
    (machine.answers state (writes.map PlannedAppend.toCall)).1.getLast?.map Answer.position =
      some (machine.step state (.atomicAppendMany writes)).1.position
  /-- Otherwise it leaves the store as it is. -/
  refused : (machine.step state (.atomicAppendMany writes)).1.position = none →
    (machine.step state (.atomicAppendMany writes)).2 = state

theorem logMachine_append_of_some {write : PlannedAppend}
    (appended : EventLog.append limits log write.toWrite = some after) :
    (logMachine limits).step log write.toCall = (some (some after.count), after) := by
  change EventLog.answer limits log (.append write.toWrite) = _
  rw [EventLog.answer, EventLog.commit, appended]
  rfl

theorem logMachine_append_of_none {write : PlannedAppend}
    (refused : EventLog.append limits log write.toWrite = none) :
    (logMachine limits).step log write.toCall = (none, log) := by
  change EventLog.answer limits log (.append write.toWrite) = _
  rw [EventLog.answer, EventLog.commit, refused]
  rfl

theorem answers_of_foldlM
    (appended : (writes.map PlannedAppend.toWrite).foldlM (EventLog.append limits) log =
      some after) :
    let (replies, last) := (logMachine limits).answers log (writes.map PlannedAppend.toCall)
    last = after ∧ (∀ reply ∈ replies, reply ≠ none) ∧
      (writes ≠ [] → replies.getLast? = some (some (some after.count))) := by
  induction writes generalizing log with
  | nil =>
    cases appended
    exact ⟨rfl, by simp, fun nonempty => absurd rfl nonempty⟩
  | cons write writes rest =>
    rw [List.map_cons, List.foldlM_cons, Option.bind_eq_bind, Option.bind_eq_some_iff] at appended
    obtain ⟨middle, first, appended⟩ := appended
    obtain ⟨sameLog, succeeded, position⟩ := rest appended
    rw [List.map_cons, Machine.answers_cons, logMachine_append_of_some first]
    refine ⟨sameLog, List.forall_mem_cons.mpr ⟨by simp, succeeded⟩, fun _ => ?_⟩
    cases writes with
    | nil =>
      cases appended
      rfl
    | cons next writes =>
      rw [List.getLast?_cons, position (List.cons_ne_nil _ _)]
      rfl

theorem foldlM_of_answers {writes : List PlannedAppend}
    (succeeded : ∀ reply ∈ ((logMachine limits).answers log
      (writes.map PlannedAppend.toCall)).1, reply ≠ none) :
    ∃ after, (writes.map PlannedAppend.toWrite).foldlM (EventLog.append limits) log =
      some after := by
  induction writes generalizing log with
  | nil => exact ⟨log, rfl⟩
  | cons write writes rest =>
    rw [List.map_cons, Machine.answers_cons, List.forall_mem_cons] at succeeded
    cases first : EventLog.append limits log write.toWrite with
    | none =>
      rw [logMachine_append_of_none first] at succeeded
      exact absurd rfl succeeded.1
    | some middle =>
      rw [logMachine_append_of_some first] at succeeded
      obtain ⟨after, appended⟩ := rest succeeded.2
      refine ⟨after, ?_⟩
      rw [List.map_cons, List.foldlM_cons, first]
      exact appended

theorem logMachine_atomicAppendMany
    (nonempty : writes ≠ []) (distinct : (writes.map PlannedAppend.target).Nodup) :
    (logMachine limits).step log (.atomicAppendMany writes) =
      match (writes.map PlannedAppend.toWrite).foldlM (EventLog.append limits) log with
      | some after => (some (some after.count), after)
      | none => (none, log) := by
  rw [← map_target_toWrite] at distinct
  change EventLog.answer limits log (.appendAll (writes.map PlannedAppend.toWrite)) = _
  cases writes with
  | nil => exact absurd rfl nonempty
  | cons write writes =>
    rw [List.map_cons, EventLog.answer, EventLog.commit, EventLog.appendAll,
      ← List.map_cons, if_pos distinct]
    cases ((write :: writes).map PlannedAppend.toWrite).foldlM (EventLog.append limits) log <;> rfl

/-- An atomic append is the appends of its runs. -/
theorem Implements.atomicIsSequential (implements : Implements machine limits represents)
    {log : Log} (related : represents state log)
    (nonempty : writes ≠ []) (distinct : (writes.map PlannedAppend.target).Nodup) :
    AtomicIsSequential machine state writes := by
  obtain ⟨agrees, relatedAfter⟩ := implements.refines.step (.atomicAppendMany writes) related
  obtain ⟨agreeAll, relatedLast⟩ :=
    implements.refines.answers related (writes.map PlannedAppend.toCall)
  have samePositions : ((machine.answers state (writes.map PlannedAppend.toCall)).1.map
      Answer.position) =
      ((logMachine limits).answers log (writes.map PlannedAppend.toCall)).1 := by
    rw [← List.forall₂_eq_eq_eq, List.forall₂_map_left_iff]
    exact agreeAll
  rw [logMachine_atomicAppendMany nonempty distinct] at agrees relatedAfter
  have allSucceed : (∀ answer ∈ (machine.answers state
        (writes.map PlannedAppend.toCall)).1, answer.position ≠ none) ↔
      ∀ reply ∈ ((logMachine limits).answers log (writes.map PlannedAppend.toCall)).1,
        reply ≠ none := by
    rw [← samePositions, List.forall_mem_map]
  cases appended : (writes.map PlannedAppend.toWrite).foldlM (EventLog.append limits) log with
  | some after =>
    rw [appended] at agrees relatedAfter
    obtain ⟨sameLog, succeeded, position⟩ := answers_of_foldlM appended
    have success : (machine.step state (.atomicAppendMany writes)).1.position ≠ none := by
      rw [agrees]
      exact Option.some_ne_none _
    refine ⟨iff_of_true success (allSucceed.mpr succeeded), fun _ => ?_, fun _ => ?_,
      fun refused => absurd refused success⟩
    · rw [sameLog] at relatedLast
      exact implements.unique relatedAfter relatedLast
    · rw [← List.getLast?_map, samePositions, agrees]
      exact position nonempty
  | none =>
    rw [appended] at agrees relatedAfter
    refine ⟨iff_of_false (fun success => success agrees) fun succeeded => ?_,
      fun success => absurd agrees success, fun success => absurd agrees success,
      fun _ => implements.unique relatedAfter related⟩
    obtain ⟨after, accepted⟩ := foldlM_of_answers (allSucceed.mp succeeded)
    cases appended.symm.trans accepted

end Implements

/-- A run of one event for a fresh stream. -/
def freshRun (target : StreamKey) : PlannedAppend where
  target := target
  expectedVersion := none
  head := {
    version := .initial
    eventType := .fromStaticStr "opened" (by decide)
    schemaVersion := .initial
    payload := ⟨[], by decide⟩
    metadata := none }
  tail := []

/-- An event behind that of a fresh run. -/
def secondEvent : PendingEnvelope := { (freshRun []).head with version := ⟨2, by decide⟩ }

end Mnesis.Store
