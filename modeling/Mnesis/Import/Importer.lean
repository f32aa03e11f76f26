import Mnesis.Store.Contract
import Mnesis.Store.Persisted

/-!
# Importing sections

A section of a backup holds blocks: events, or blocks whose checksum failed.  Its
plan is the longest run of consecutive versions from the first block on, with
the reason why it stopped there.

Per stream, each run is appended on its own.  For a whole chunk, all sections must have
a complete plan, and their runs are appended together or not at all.
-/

namespace Mnesis.Import

open Foundation Kernel Store

/-- One block of a section. -/
inductive ImportBlock
  | event (envelope : PersistedEnvelope)
  | corrupt
  deriving DecidableEq

/-- The blocks of one stream of origin. -/
structure StreamSection where
  origin : Bytes
  blocks : List ImportBlock
  deriving DecidableEq

/-- Where the run of a section stopped. -/
inductive Halt
  | complete
  | corrupt
  | gap (got : Version)
  deriving DecidableEq

/-- A run to append. -/
structure PlannedRun where
  first : Version
  expectedVersion : Option Version
  head : PendingEnvelope
  tail : List PendingEnvelope
  last : Version
  halt : Halt
  deriving DecidableEq

/-- The plan of a section. -/
inductive SectionPlan
  | empty
  | firstCorrupt
  | run (plan : PlannedRun)
  deriving DecidableEq

/-- Failures of planning. -/
inductive PlanError
  | versionOverflow
  deriving DecidableEq

/-- Extend a run from the block behind its last version on. -/
def planBlocks : Version → List ImportBlock →
    Except PlanError (List PendingEnvelope × Version × Halt)
  | last, [] => return ([], last, .complete)
  | last, .corrupt :: _ => return ([], last, .corrupt)
  | last, .event event :: blocks => do
    -- the successor is needed only here: a run may end with the last version
    let expectedNext ← okOr last.next .versionOverflow
    if event.version ≠ expectedNext then
      return ([], last, .gap event.version)
    let (tail, last, halt) ← planBlocks event.version blocks
    return (event.toPending :: tail, last, halt)

/-- Plan a section. -/
def planSection (entry : StreamSection) : Except PlanError SectionPlan :=
  match entry.blocks with
  | [] => return .empty
  | .corrupt :: _ => return .firstCorrupt
  | .event event :: blocks => do
    let first := event.version
    let (tail, last, halt) ← planBlocks first blocks
    return .run {
      first
      expectedVersion := (checkedSub first.asU64 1).bind Version.new
      head := event.toPending
      tail
      last
      halt }

/-- The events from the first block on that have the versions `next`, `next + 1`
and so on. -/
def leadingRun : Nat → List ImportBlock → List PersistedEnvelope
  | next, .event event :: blocks =>
    if event.version.toNat = next then event :: leadingRun (next + 1) blocks else []
  | _, _ => []

@[simp] theorem leadingRun_nil (next : Nat) : leadingRun next [] = [] := rfl

@[simp] theorem leadingRun_corrupt (next : Nat) (blocks : List ImportBlock) :
    leadingRun next (.corrupt :: blocks) = [] := rfl

theorem leadingRun_of_eq (follows : event.version.toNat = next) (blocks : List ImportBlock) :
    leadingRun next (.event event :: blocks) = event :: leadingRun (next + 1) blocks :=
  if_pos follows

theorem leadingRun_of_ne (misfits : event.version.toNat ≠ next) (blocks : List ImportBlock) :
    leadingRun next (.event event :: blocks) = [] :=
  if_neg misfits

theorem map_version_leadingRun (next : Nat) (blocks : List ImportBlock) :
    (leadingRun next blocks).map (·.version.toNat) =
      List.range' next (leadingRun next blocks).length := by
  induction blocks generalizing next with
  | nil => rfl
  | cons block blocks step =>
    cases block with
    | corrupt => rfl
    | event event =>
      by_cases follows : event.version.toNat = next
      · rw [leadingRun_of_eq follows, List.map_cons, step, follows, List.length_cons,
          List.range'_succ]
      · rw [leadingRun_of_ne follows]
        rfl

theorem getLast?_version_cons (event : PersistedEnvelope) (run : List PersistedEnvelope) :
    (event :: run).getLast?.map PersistedEnvelope.version =
      some ((run.getLast?.map PersistedEnvelope.version).getD event.version) := by
  rw [List.getLast?_cons]
  cases run.getLast? <;> rfl

/-- Why a run stops in front of the remaining blocks. -/
def Halt.At : Halt → List ImportBlock → Prop
  | .complete, remaining => remaining = []
  | .corrupt, remaining => ∃ blocks, remaining = .corrupt :: blocks
  | .gap got, remaining => ∃ event blocks, remaining = .event event :: blocks ∧ event.version = got

/-- A plan is the longest run of consecutive versions. -/
theorem planBlocks_spec (planned : planBlocks last blocks = .ok (tail, stop, halt)) :
    tail = (leadingRun (last.toNat + 1) blocks).map PersistedEnvelope.toPending ∧
      ((leadingRun (last.toNat + 1) blocks).getLast?.map PersistedEnvelope.version).getD last =
        stop ∧
      halt.At (blocks.drop (leadingRun (last.toNat + 1) blocks).length) := by
  induction blocks generalizing last tail with
  | nil =>
    cases planned
    exact ⟨rfl, rfl, rfl⟩
  | cons block blocks step =>
    cases block with
    | corrupt =>
      cases planned
      exact ⟨rfl, rfl, blocks, rfl⟩
    | event event =>
      obtain ⟨expectedNext, isNext, planned⟩ := bind_eq_ok.mp planned
      rw [okOr_eq_ok, Version.next_eq_some] at isNext
      split at planned
      next different =>
        have misfits : event.version.toNat ≠ last.toNat + 1 := fun same =>
          different (Version.toNat_injective (same.trans isNext.symm))
        cases planned
        rw [leadingRun_of_ne misfits]
        exact ⟨rfl, rfl, event, blocks, rfl, rfl⟩
      next follows =>
        have follows : event.version.toNat = last.toNat + 1 := by
          rw [Decidable.not_not.mp follows, isNext]
        obtain ⟨⟨others, stop, halt⟩, planned, built⟩ := bind_eq_ok.mp planned
        cases built
        obtain ⟨sameTail, sameStop, halts⟩ := step planned
        rw [leadingRun_of_eq follows, ← follows, List.map_cons, sameTail]
        refine ⟨rfl, ?_, halts⟩
        rw [getLast?_version_cons, Option.getD_some, sameStop]

/-- A run plans the blocks of a section. -/
structure PlannedRun.Plans (plan : PlannedRun) (blocks : List ImportBlock) : Prop where
  /-- The first block has the first version. -/
  begins : ∃ event rest, blocks = .event event :: rest ∧ event.version = plan.first
  /-- The run continues the expected version. -/
  expected : plan.first.toNat = depth plan.expectedVersion + 1
  /-- The run is the longest one. -/
  events : plan.head :: plan.tail =
    (leadingRun plan.first.toNat blocks).map PersistedEnvelope.toPending
  /-- It ends with the last version. -/
  last : (leadingRun plan.first.toNat blocks).getLast?.map PersistedEnvelope.version =
    some plan.last
  /-- The reason why it stopped is the next block. -/
  halt : plan.halt.At (blocks.drop (leadingRun plan.first.toNat blocks).length)

theorem depth_checkedSub (first : Version) :
    first.toNat = depth ((checkedSub first.asU64 1).bind Version.new) + 1 := by
  have positive := first.toNat_pos
  have atLeastOne : (1 : UInt64) ≤ first.asU64 := UInt64.le_iff_toNat_le.mpr positive
  have difference : (first.asU64 - 1).toNat = first.toNat - 1 :=
    UInt64.toNat_sub_of_le _ _ atLeastOne
  rw [checkedSub_of_le atLeastOne, Option.bind_some, depth, rawHead_new,
    difference, Nat.sub_add_cancel positive]

theorem planSection_eq_ok (planned : planSection entry = .ok plan) :
    match plan with
    | .empty => entry.blocks = []
    | .firstCorrupt => ∃ blocks, entry.blocks = .corrupt :: blocks
    | .run plan => plan.Plans entry.blocks := by
  unfold planSection at planned
  split at planned
  next empty =>
    cases planned
    exact empty
  next blocks corrupt =>
    cases planned
    exact ⟨blocks, corrupt⟩
  next event blocks begins =>
    obtain ⟨⟨tail, last, halt⟩, run, built⟩ := bind_eq_ok.mp planned
    cases built
    obtain ⟨sameTail, sameLast, halts⟩ := planBlocks_spec run
    have sameRun : leadingRun event.version.toNat entry.blocks =
        event :: leadingRun (event.version.toNat + 1) blocks := by
      rw [begins, leadingRun_of_eq rfl]
    refine ⟨⟨event, blocks, begins, rfl⟩, depth_checkedSub event.version, ?_, ?_, ?_⟩
    · rw [sameRun, List.map_cons, sameTail]
    · rw [sameRun, getLast?_version_cons, sameLast]
    · rw [sameRun, begins]
      exact halts

variable {State AdapterError : Type}

/-- The calls of a store that write. -/
structure RawEventStore (State AdapterError : Type) where
  append : StreamKey → Option Version → PendingBatch →
    Locked State (AppendError AdapterError) AllPosition
  atomicAppendMany : List PlannedAppend →
    Locked State (AtomicAppendError AdapterError) (Option AllPosition)

/-- A store as a machine that answers these calls. -/
def RawEventStore.machine (store : RawEventStore State AdapterError)
    (initial : State) : Machine State Call (Answer AdapterError) :=
  writeMachine initial
    (fun id expected envelopes => (store.append id expected envelopes).exec)
    (fun writes => (store.atomicAppendMany writes).exec)

/-- How the import of one stream ended. -/
inductive StreamOutcome
  | complete (version : Version)
  | corrupt (reached : Option Version)
  | mismatch (reached : Option Version) (got : Version)
  deriving DecidableEq

/-- Whether every block was appended. -/
def StreamOutcome.isComplete : StreamOutcome → Bool
  | .complete _ => true
  | _ => false

/-- The outcome of one stream. -/
structure StreamReport where
  stream : StreamKey
  outcome : StreamOutcome
  deriving DecidableEq

/-- The outcomes of an import. -/
structure ImportReport where
  streams : List StreamReport
  deriving DecidableEq

/-- Whether every stream is complete. -/
def ImportReport.allComplete (report : ImportReport) : Bool :=
  report.streams.all fun stream => stream.outcome.isComplete

/-- Why the import of a whole chunk was aborted. -/
inductive AbortReason
  | corrupt
  | mismatch (expected got : Version)
  deriving DecidableEq

/-- Failures of an import. -/
inductive ImportError (AdapterError : Type)
  | invalidRun (error : InvalidRun)
  | invalidRoute (error : InvalidRoute)
  | aborted (stream : StreamKey) (reason : AbortReason)
  | store (error : AdapterError)
  | versionOverflow

/-- A failed plan in terms of an import. -/
def planErr : PlanError → ImportError AdapterError
  | .versionOverflow => .versionOverflow

/-- The targets of sections, which must be different. -/
def routeSections (sections : List StreamSection)
    (route : Bytes → StreamKey) : Except InvalidRoute (List StreamKey) := do
  let targets := sections.map fun entry => route entry.origin
  validateDistinctTargets targets
  return targets

/-- How the import of a run ended that was appended. -/
def PlannedRun.outcome (run : PlannedRun) : StreamOutcome :=
  match run.halt with
  | .complete => .complete run.last
  | .corrupt => .corrupt (some run.last)
  | .gap got => .mismatch (some run.last) got

/-- Append the run of one section. -/
def importRun (store : RawEventStore State AdapterError) (target : StreamKey)
    (run : PlannedRun) : Locked State (ImportError AdapterError) StreamOutcome := do
  match ← Locked.attempt (store.append target run.expectedVersion ⟨run.head, run.tail⟩) with
  | .ok _ => return run.outcome
  | .error (.conflict _ _ _) => return .mismatch none run.first
  | .error (.store error) => throw (.store error)

/-- Plan and append one section after the other. -/
def importSections (store : RawEventStore State AdapterError) :
    List (StreamSection × StreamKey) → Locked State (ImportError AdapterError) (List StreamReport)
  | [] => return []
  | (entry, target) :: rest => do
    match ← Locked.ofResult ((planSection entry).mapError planErr) with
    | .empty => importSections store rest
    | .firstCorrupt =>
      let reports ← importSections store rest
      return ⟨target, .corrupt none⟩ :: reports
    | .run run =>
      let outcome ← importRun store target run
      let reports ← importSections store rest
      return ⟨target, outcome⟩ :: reports

/-- Import sections, each in its own transaction. -/
def importPerStream (store : RawEventStore State AdapterError) (sections : List StreamSection)
    (route : Bytes → StreamKey) :
    Locked State (ImportError AdapterError) ImportReport := do
  let targets ← Locked.ofResult ((routeSections sections route).mapError .invalidRoute)
  let reports ← importSections store (sections.zip targets)
  return ⟨reports⟩

/-- A run as an append to a target. -/
def PlannedRun.toAppend (run : PlannedRun) (target : StreamKey) : PlannedAppend :=
  ⟨target, run.expectedVersion, run.head, run.tail⟩

/-- Plan all sections; a run that stopped early aborts. -/
def planChunk :
    List (StreamSection × StreamKey) →
      Except (ImportError AdapterError) (List (StreamKey × PlannedRun))
  | [] => return []
  | (entry, target) :: rest => do
    match ← (planSection entry).mapError planErr with
    | .empty => planChunk rest
    | .firstCorrupt => throw (.aborted target .corrupt)
    | .run run =>
      match run.halt with
      | .complete =>
        let runs ← planChunk rest
        return (target, run) :: runs
      | .corrupt => throw (.aborted target .corrupt)
      | .gap got =>
        let expected ← okOr run.last.next .versionOverflow
        throw (.aborted target (.mismatch expected got))

/-- A conflict of an atomic append as an aborted import.  An index that is out of
range stands for the first run. -/
def mapAtomicConflict (firsts : List Version) (writes : List PlannedAppend) (index : Nat)
    (actual : Option Version) : ImportError AdapterError :=
  match firsts[index]?.or firsts.head?, writes[index]?.or writes.head? with
  | some got, some write =>
    match following actual with
    | some expected => .aborted write.target (.mismatch expected got)
    | none => .versionOverflow
  | _, _ => .versionOverflow

/-- Append planned runs in one transaction. -/
def commitRuns (store : RawEventStore State AdapterError) (runs : List (StreamKey × PlannedRun)) :
    Locked State (ImportError AdapterError) ImportReport := do
  let writes := runs.map fun (target, run) => run.toAppend target
  match ← Locked.attempt (store.atomicAppendMany writes) with
  | .ok _ => return ⟨runs.map fun (target, run) => ⟨target, .complete run.last⟩⟩
  | .error (.conflict index actual) =>
    throw (mapAtomicConflict (runs.map fun (_, run) => run.first) writes index actual)
  | .error (.store error) => throw (.store error)
  | .error (.invalidRoute error) => throw (.invalidRoute error)
  | .error (.invalidRun error) => throw (.invalidRun error)

/-- Import sections in one transaction. -/
def importWholeChunk (store : RawEventStore State AdapterError) (sections : List StreamSection)
    (route : Bytes → StreamKey) :
    Locked State (ImportError AdapterError) ImportReport := do
  let targets ← Locked.ofResult ((routeSections sections route).mapError .invalidRoute)
  let runs ← Locked.ofResult (planChunk (sections.zip targets))
  commitRuns store runs

/-- How the events of a chunk are grouped into transactions. -/
inductive Atomicity
  | wholeChunk
  | perStream
  deriving DecidableEq

/-- Import sections. -/
def importChunk (store : RawEventStore State AdapterError) (sections : List StreamSection)
    (route : Bytes → StreamKey) :
    Atomicity → Locked State (ImportError AdapterError) ImportReport
  | .perStream => importPerStream store sections route
  | .wholeChunk => importWholeChunk store sections route

end Mnesis.Import
