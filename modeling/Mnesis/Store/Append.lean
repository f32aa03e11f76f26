import Mnesis.Foundation.EventLog
import Mnesis.Foundation.Machine
import Mnesis.Store.Repository

/-!
# The append contract

What every store checks before it writes: an append builds on the current
version of its stream, the versions of its envelopes follow one another, and the
runs of an atomic append are for different streams.  The checks pass exactly for
the runs that an event log admits.
-/

namespace Mnesis.Store

open Foundation Kernel

/-- Identity of a stream. -/
abbrev StreamKey := Bytes

/-- A position in the order of all events: a non-zero 64-bit number, like a
version. -/
abbrev AllPosition := Version

/-- Failures of the append contract. -/
inductive AppendValidationError
  | conflict (streamId : StreamKey) (expected actual : Option Version)
  | versionOverflow
  deriving DecidableEq

/-- The envelopes must have the versions behind the current one. -/
def validateSequence (id : StreamKey) :
    UInt64 → List PendingEnvelope → Except AppendValidationError Unit
  | _, [] => return ()
  | current, envelope :: rest => do
    let next ← okOr (checkedAdd current 1) .versionOverflow
    rejectIf (envelope.version.asU64 ≠ next)
      (.conflict id (Version.new next) (some envelope.version))
    validateSequence id next rest

/-- The append contract of every store; `current` is zero for a fresh stream. -/
def validateAppendVersions (current : UInt64) (expected : Option Version) (envelopes : PendingBatch)
    (id : StreamKey) : Except AppendValidationError Unit := do
  let actual := if current = 0 then none else Version.new current
  rejectIf (expected ≠ actual) (.conflict id expected actual)
  validateSequence id current envelopes.toList

/-- One run of an atomic append. -/
structure PlannedAppend where
  target : StreamKey
  expectedVersion : Option Version
  head : PendingEnvelope
  tail : List PendingEnvelope
  deriving DecidableEq

/-- The envelopes of a run. -/
def PlannedAppend.batch (write : PlannedAppend) : PendingBatch :=
  ⟨write.head, write.tail⟩

/-- Runs that cannot follow the version they name. -/
inductive InvalidRun
  | nonSequential (index : Nat) (expected actual : Version)
  | versionOverflow (index : Nat)
  deriving DecidableEq

/-- Two runs for the same stream. -/
structure InvalidRoute where
  target : StreamKey
  firstIndex : Nat
  index : Nat
  deriving DecidableEq

/-- Failures of an atomic append. -/
inductive AtomicAppendError (AdapterError : Type)
  | invalidRun (error : InvalidRun)
  | invalidRoute (error : InvalidRoute)
  | conflict (index : Nat) (actual : Option Version)
  | store (error : AdapterError)

/-- The envelopes of a run must have the versions from `next` on. -/
def validateRun (index : Nat) :
    Option Version → List PendingEnvelope → Except InvalidRun Unit
  | _, [] => return ()
  | next, envelope :: rest => do
    let expected ← okOr next (.versionOverflow index)
    rejectIf (envelope.version ≠ expected) (.nonSequential index expected envelope.version)
    validateRun index expected.next rest

/-- Check the runs from an index on. -/
def validateRunsFrom : Nat → List PlannedAppend → Except InvalidRun Unit
  | _, [] => return ()
  | index, write :: writes => do
    validateRun index (following write.expectedVersion) write.batch.toList
    validateRunsFrom (index + 1) writes

/-- Every run must follow the version it names. -/
def validateAtomicRuns (writes : List PlannedAppend) : Except InvalidRun Unit :=
  validateRunsFrom 0 writes

/-- Check the targets from an index on against those seen before. -/
def validateTargetsFrom :
    List (StreamKey × Nat) → Nat → List StreamKey → Except InvalidRoute Unit
  | _, _, [] => return ()
  | seen, index, target :: targets =>
    match seen.lookup target with
    | some firstIndex => throw ⟨target, firstIndex, index⟩
    | none => validateTargetsFrom ((target, index) :: seen) (index + 1) targets

/-- All targets must be different. -/
def validateDistinctTargets (targets : List StreamKey) : Except InvalidRoute Unit :=
  validateTargetsFrom [] 0 targets

/-- The version of an envelope as a number. -/
def versionNumber (envelope : PendingEnvelope) : Nat := envelope.version.toNat

theorem validateSequence_eq_ok {id : StreamKey} :
    validateSequence id current envelopes = .ok () ↔
      envelopes.map versionNumber = List.range' (current.toNat + 1) envelopes.length := by
  induction envelopes generalizing current with
  | nil => simp [validateSequence]
  | cons envelope rest step =>
    simp only [validateSequence, bind_eq_ok, okOr_eq_ok, checkedAdd_eq_some,
      rejectIf_eq_ok, exists_const, Decidable.not_not, List.map_cons, List.length_cons,
      List.range'_succ, List.cons.injEq]
    constructor
    · rintro ⟨next, isNext, same, others⟩
      have one : (1 : UInt64).toNat = 1 := rfl
      rw [one] at isNext
      rw [step, isNext] at others
      refine ⟨?_, others⟩
      rw [versionNumber, Version.toNat, same, isNext]
    · rintro ⟨first, others⟩
      refine ⟨envelope.version.asU64, first, rfl, ?_⟩
      rw [step]
      change rest.map versionNumber = List.range' (versionNumber envelope + 1) _
      rw [first, others]

theorem validateAppendVersions_eq_ok {id : StreamKey} :
    validateAppendVersions current expected envelopes id = .ok () ↔
      depth expected = current.toNat ∧
        envelopes.toList.map versionNumber =
          List.range' (current.toNat + 1) envelopes.toList.length := by
  have actual : (if current = 0 then none else Version.new current) = Version.new current := by
    split
    next zero =>
      subst zero
      rfl
    next => rfl
  rw [validateAppendVersions, actual, rejectIf_bind_eq_ok, validateSequence_eq_ok,
    Decidable.not_not]
  refine and_congr_left fun _ => ⟨?_, ?_⟩
  · rintro rfl
    rw [depth, rawHead_new]
  · intro same
    refine depth_injective ?_
    rw [same, depth, rawHead_new]

theorem validateRun_eq_ok :
    validateRun index (following base) envelopes = .ok result ↔
      envelopes.map versionNumber = List.range' (depth base + 1) envelopes.length := by
  induction envelopes generalizing base with
  | nil => simp [validateRun]
  | cons envelope rest step =>
    have step := @step (some envelope.version)
    rw [depth_some] at step
    simp only [validateRun, bind_eq_ok, okOr_eq_ok, following_eq_some,
      rejectIf_eq_ok, exists_const, Decidable.not_not, List.map_cons, List.length_cons,
      List.range'_succ, List.cons.injEq]
    constructor
    · rintro ⟨next, isNext, rfl, others⟩
      rw [← isNext]
      exact ⟨rfl, step.mp others⟩
    · rintro ⟨first, others⟩
      refine ⟨envelope.version, first, rfl, step.mpr ?_⟩
      rw [others, ← first, versionNumber]

theorem validateAtomicRuns_eq_ok :
    validateAtomicRuns writes = .ok () ↔
      ∀ write ∈ writes, write.batch.toList.map versionNumber =
        List.range' (depth write.expectedVersion + 1) write.batch.toList.length := by
  suffices fromIndex : ∀ index, validateRunsFrom index writes = .ok () ↔
      ∀ write ∈ writes, write.batch.toList.map versionNumber =
        List.range' (depth write.expectedVersion + 1) write.batch.toList.length from
    fromIndex 0
  induction writes with
  | nil => simp [validateRunsFrom]
  | cons write writes step =>
    intro index
    simp only [validateRunsFrom, bind_eq_ok, validateRun_eq_ok, exists_const, step,
      List.forall_mem_cons]

theorem validateDistinctTargets_eq_ok :
    validateDistinctTargets targets = .ok () ↔ targets.Nodup := by
  suffices fromIndex : ∀ seen index, validateTargetsFrom seen index targets = .ok () ↔
      targets.Nodup ∧ ∀ target ∈ targets, seen.lookup target = none by
    rw [validateDistinctTargets, fromIndex [] 0]
    exact and_iff_left fun _ _ => rfl
  induction targets with
  | nil => simp [validateTargetsFrom]
  | cons target targets step =>
    intro seen index
    rw [validateTargetsFrom]
    split
    next firstIndex known =>
      refine iff_of_false (by simp) ?_
      rintro ⟨_, unseen⟩
      cases known.symm.trans (unseen target (List.mem_cons_self ..))
    next unknown =>
      simp only [step, List.nodup_cons, List.forall_mem_cons, unknown, true_and]
      constructor
      · rintro ⟨distinct, unseen⟩
        refine ⟨⟨fun present => ?_, distinct⟩, fun other present => ?_⟩
        · simpa using unseen target present
        · have unseenOther := unseen other present
          rw [List.lookup_cons] at unseenOther
          split at unseenOther
          next => cases unseenOther
          next => exact unseenOther
      · rintro ⟨⟨fresh, distinct⟩, unseen⟩
        refine ⟨distinct, fun other present => ?_⟩
        have different : (other == target) = false := by
          rw [beq_eq_false_iff_ne]
          rintro rfl
          exact fresh present
        rw [List.lookup_cons, different]
        exact unseen other present

/-- The calls that write to a store. -/
inductive Call
  | append (id : StreamKey) (expected : Option Version) (envelopes : PendingBatch)
  | atomicAppendMany (writes : List PlannedAppend)
  deriving DecidableEq

/-- A run as an event log sees it. -/
def PlannedAppend.toWrite (write : PlannedAppend) : Write StreamKey PendingEnvelope where
  target := write.target
  expected := depth write.expectedVersion
  events := write.batch.toList

theorem map_target_toWrite (writes : List PlannedAppend) :
    (writes.map PlannedAppend.toWrite).map Write.target = writes.map PlannedAppend.target := by
  rw [List.map_map]
  rfl

/-- A call as an event log sees it. -/
def Call.toLog : Call → EventLog.Call StreamKey PendingEnvelope
  | .append id expected envelopes =>
    .append ⟨id, depth expected, envelopes.toList⟩
  | .atomicAppendMany writes => .appendAll (writes.map PlannedAppend.toWrite)

/-- The events of a store. -/
abbrev Log := EventLog StreamKey PendingEnvelope versionNumber

theorem continues_iff_validateAtomicRuns {log : Log} :
    (∀ write ∈ writes, EventLog.Continues versionNumber
        (log.stream write.target).length write.toWrite) ↔
      validateAtomicRuns writes = .ok () ∧
        ∀ write ∈ writes, depth write.expectedVersion =
          (log.stream write.target).length := by
  rw [validateAtomicRuns_eq_ok, ← forall₂_and]
  refine forall₂_congr fun write _ => ⟨?_, ?_⟩
  · rintro ⟨head, numbered⟩
    have head : depth write.expectedVersion = (log.stream write.target).length := head
    exact ⟨head ▸ numbered, head⟩
  · rintro ⟨numbered, head⟩
    exact ⟨head, head ▸ numbered⟩

/-- An event log that answers the calls of a store. -/
def logMachine (limits : LogLimits StreamKey PendingEnvelope) :
    Machine Log Call (Option (Option Nat)) where
  initial := .empty versionNumber
  step log call := log.answer limits call.toLog

/-- What a store answered. -/
inductive Answer (AdapterError : Type)
  | append (result : Except (AppendError AdapterError) AllPosition)
  | atomicAppendMany (result : Except (AtomicAppendError AdapterError) (Option AllPosition))

/-- The position that an answer reports; `none` for a refused call. -/
def Answer.position {AdapterError : Type} : Answer AdapterError → Option (Option Nat)
  | .append (.ok position) => some (some position.toNat)
  | .append (.error _) => none
  | .atomicAppendMany (.ok position) => some (position.map Version.toNat)
  | .atomicAppendMany (.error _) => none

end Mnesis.Store
