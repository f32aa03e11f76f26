import Mnesis.Import.PerStream

/-!
# Imports of whole chunks

The import of a whole chunk plans everything first and appends in one
transaction, where the import per stream plans and appends section by section.
It succeeds exactly when the import per stream would find every stream complete,
and then does the same.
-/

namespace Mnesis.Import

open Foundation Kernel Store

variable {State AdapterError : Type} {store : RawEventStore State AdapterError} {initial : State}
variable {represents : State → Log → Prop} {state : State}

/-- Whether all reported streams are complete. -/
def allComplete (reports : List StreamReport) : Prop :=
  ∀ report ∈ reports, report.outcome.isComplete = true

theorem allComplete_iff {report : ImportReport} :
    report.allComplete = true ↔ allComplete report.streams := List.all_eq_true

/-- The appends of planned runs. -/
def appendsOf (runs : List (StreamKey × PlannedRun)) : List PlannedAppend :=
  runs.map fun planned => planned.2.toAppend planned.1

/-- The reports about runs that are complete. -/
def completeReports (runs : List (StreamKey × PlannedRun)) : List StreamReport :=
  runs.map fun planned => ⟨planned.1, .complete planned.2.last⟩

theorem allComplete_completeReports (runs : List (StreamKey × PlannedRun)) :
    allComplete (completeReports runs) := by
  intro report present
  unfold completeReports at present
  obtain ⟨planned, _, rfl⟩ := List.mem_map.mp present
  rfl

theorem appended_of_isComplete
    (ran : (importRun store target run).exec state = (.ok outcome, after))
    (complete : outcome.isComplete = true) :
    run.halt = .complete ∧
      ∃ position, (store.appendRun (run.toAppend target)).exec state = (.ok position, after) := by
  rw [exec_importRun] at ran
  split at ran
  next position stored appended =>
    cases ran
    refine ⟨?_, position, appended⟩
    unfold PlannedRun.outcome at complete
    split at complete
    next halt => exact halt
    next => cases complete
    next => cases complete
  next =>
    cases ran
    cases complete
  next => cases ran

variable {routed : List (StreamSection × StreamKey)}

/-- The complete runs of sections, of which those without blocks have none. -/
inductive CompleteRuns :
    List (StreamSection × StreamKey) → List (StreamKey × PlannedRun) → Prop
  | nil : CompleteRuns [] []
  | skip : planSection entry = .ok .empty → CompleteRuns others runs →
      CompleteRuns ((entry, target) :: others) runs
  | keep : planSection entry = .ok (.run run) → run.halt = .complete → CompleteRuns others runs →
      CompleteRuns ((entry, target) :: others) ((target, run) :: runs)

/-- A chunk has a plan exactly if all its sections are complete. -/
theorem planChunk_eq_ok :
    (planChunk routed : Except (ImportError AdapterError) _) = .ok runs ↔
      CompleteRuns routed runs := by
  constructor
  · intro planned
    induction routed generalizing runs with
    | nil =>
      cases planned
      exact .nil
    | cons routed others step =>
      unfold planChunk at planned
      obtain ⟨plan, isPlan, planned⟩ := bind_eq_ok.mp planned
      rw [mapError_eq_ok] at isPlan
      cases plan with
      | empty => exact .skip isPlan (step planned)
      | firstCorrupt => cases planned
      | run run =>
        dsimp only at planned
        split at planned
        next halt =>
          obtain ⟨rest, plannedRest, built⟩ := bind_eq_ok.mp planned
          cases built
          exact .keep isPlan halt (step plannedRest)
        next => cases planned
        next =>
          obtain ⟨_, _, impossible⟩ := bind_eq_ok.mp planned
          cases impossible
  · intro complete
    induction complete with
    | nil => rfl
    | skip isPlan _ step =>
      rw [planChunk, isPlan]
      exact step
    | keep isPlan halt _ step =>
      rw [planChunk, isPlan, mapError_ok, ok_bind]
      dsimp only
      rw [halt, step]
      rfl

section Complete

variable (implements : Implements (store.machine initial) limits represents)
variable (related : represents state log)
include implements related

/-- Complete runs are imported by their appends, one after the other. -/
theorem CompleteRuns.imports (complete : CompleteRuns routed runs)
    (added : ((appendsOf runs).map PlannedAppend.toWrite).foldlM (EventLog.append limits) log =
      some logAfter) :
    ∃ after, represents after logAfter ∧
      (importSections store routed).exec state = (.ok (completeReports runs), after) := by
  induction complete generalizing state log with
  | nil =>
    cases added
    exact ⟨state, related, rfl⟩
  | skip isPlan _ step =>
    rw [importSections, exec_mapped_bind isPlan]
    exact step related added
  | @keep _ run _ _ target isPlan halt _ step =>
    rw [appendsOf, List.map_cons, List.map_cons, List.foldlM_cons] at added
    rcases appendRun_cases implements related (run.toAppend target) with
      ⟨position, stored, middle, appended, relatedMiddle, isMiddle⟩ | ⟨_, _, refused⟩
    · rw [isMiddle] at added
      obtain ⟨after, relatedAfter, ran⟩ := step relatedMiddle added
      refine ⟨after, relatedAfter, ?_⟩
      have first : (importRun store target run).exec state =
          (.ok (.complete run.last), stored) := by
        rw [exec_importRun, appended, PlannedRun.outcome, halt]
      rw [importSections, exec_mapped_bind isPlan]
      dsimp only
      rw [exec_bind_of_ok first, exec_bind_of_ok ran]
      rfl
    · rw [refused] at added
      cases added

/-- An import that finds every stream complete has appended complete runs. -/
theorem completeRuns_of_imports
    (ran : (importSections store routed).exec state = (.ok reports, after))
    (complete : allComplete reports) :
    ∃ runs logAfter, CompleteRuns routed runs ∧
      ((appendsOf runs).map PlannedAppend.toWrite).foldlM (EventLog.append limits) log =
        some logAfter := by
  induction routed generalizing state log reports with
  | nil => exact ⟨[], log, .nil, rfl⟩
  | cons routed others step =>
    obtain ⟨entry, target⟩ := routed
    unfold importSections at ran
    obtain ⟨plan, _, planned, ran⟩ := exec_bind_eq_ok.mp ran
    obtain ⟨isPlan, rfl⟩ := Prod.mk.inj planned
    rw [mapError_eq_ok] at isPlan
    cases plan with
    | empty =>
      obtain ⟨runs, logAfter, others, added⟩ := step related ran complete
      exact ⟨runs, logAfter, .skip isPlan others, added⟩
    | firstCorrupt =>
      obtain ⟨_, _, _, built⟩ := exec_bind_eq_ok.mp ran
      cases built
      cases complete _ List.mem_cons_self
    | run run =>
      obtain ⟨outcome, stored, first, ran⟩ := exec_bind_eq_ok.mp ran
      obtain ⟨rest, _, ran, built⟩ := exec_bind_eq_ok.mp ran
      cases built
      obtain ⟨completeFirst, complete⟩ := List.forall_mem_cons.mp complete
      obtain ⟨halt, position, appended⟩ := appended_of_isComplete first completeFirst
      rcases appendRun_cases implements related (run.toAppend target) with
        ⟨_, _, middle, isAppended, relatedMiddle, isMiddle⟩ | ⟨_, refused, _⟩
      · cases isAppended.symm.trans appended
        obtain ⟨runs, logAfter, others, added⟩ := step relatedMiddle ran complete
        refine ⟨(target, run) :: runs, logAfter, .keep isPlan halt others, ?_⟩
        rw [appendsOf, List.map_cons, List.map_cons, List.foldlM_cons, isMiddle]
        exact added
      · cases refused.symm.trans appended

end Complete

/-- An atomic append either adds all its runs to the log, or fails and leaves it. -/
theorem atomicAppendMany_cases (implements : Implements (store.machine initial) limits represents)
    (related : represents state log) (distinct : (writes.map PlannedAppend.target).Nodup) :
    (∃ position after logAfter,
        (store.atomicAppendMany writes).exec state = (.ok position, after) ∧
        represents after logAfter ∧
        (writes.map PlannedAppend.toWrite).foldlM (EventLog.append limits) log = some logAfter) ∨
      ∃ error, (store.atomicAppendMany writes).exec state = (.error error, state) ∧
        (writes.map PlannedAppend.toWrite).foldlM (EventLog.append limits) log = none := by
  obtain ⟨agrees, relatedAfter⟩ := implements.refines.step (.atomicAppendMany writes) related
  change Answer.position (.atomicAppendMany ((store.atomicAppendMany writes).exec state).1) = _
    at agrees
  change represents ((store.atomicAppendMany writes).exec state).2 _ at relatedAfter
  rcases ran : (store.atomicAppendMany writes).exec state with ⟨answer, after⟩
  rw [ran] at agrees relatedAfter
  by_cases nonempty : writes = []
  · -- no runs: the log answers without a position and stays as it is
    subst nonempty
    cases answer with
    | error error => cases agrees
    | ok position => exact .inl ⟨position, after, log, rfl, relatedAfter, rfl⟩
  · rw [logMachine_atomicAppendMany nonempty distinct] at agrees relatedAfter
    split at agrees
    next logAfter added =>
      rw [added] at relatedAfter
      cases answer with
      | error error => cases agrees
      | ok position => exact .inl ⟨position, after, logAfter, rfl, relatedAfter, added⟩
    next refused =>
      rw [refused] at relatedAfter
      cases answer with
      | ok position => cases agrees
      | error error =>
        have unchanged : after = state := implements.unique relatedAfter related
        rw [unchanged]
        exact .inr ⟨error, rfl, refused⟩

theorem CompleteRuns.targets_sublist (complete : CompleteRuns routed runs) :
    (runs.map Prod.fst).Sublist (routed.map Prod.snd) := by
  induction complete with
  | nil => exact .slnil
  | skip _ _ step => exact step.cons _
  | keep _ _ _ step => exact step.cons_cons _

theorem commitRuns_of_ok
    (appended : (store.atomicAppendMany (appendsOf runs)).exec state = (.ok position, after)) :
    (commitRuns store runs).exec state = (.ok ⟨completeReports runs⟩, after) := by
  unfold commitRuns
  unfold appendsOf at appended
  rw [exec_attempt_bind, appended]
  rfl

theorem commitRuns_of_error {failure : AtomicAppendError AdapterError}
    (refused : (store.atomicAppendMany (appendsOf runs)).exec state = (.error failure, after)) :
    ∃ error, (commitRuns store runs).exec state = (.error error, after) := by
  unfold commitRuns
  unfold appendsOf at refused
  rw [exec_attempt_bind, refused]
  cases failure with
  | conflict index actual => exact ⟨_, rfl⟩
  | store error => exact ⟨_, rfl⟩
  | invalidRoute error => exact ⟨_, rfl⟩
  | invalidRun error => exact ⟨_, rfl⟩

/-- The import of a whole chunk is the import per stream that finds every stream
complete, or nothing. -/
structure WholeIsPerStream (store : RawEventStore State AdapterError) (state : State)
    (sections : List StreamSection) (route : Bytes → StreamKey) : Prop where
  /-- It succeeds exactly when every stream would be complete. -/
  succeeds : (∃ report, ((importWholeChunk store sections route).exec state).1 = .ok report) ↔
    ∃ report, ((importPerStream store sections route).exec state).1 = .ok report ∧
      report.allComplete = true
  /-- It then returns the same report and leaves the same store. -/
  agrees : ∀ {report after},
    (importWholeChunk store sections route).exec state = (.ok report, after) →
    (importPerStream store sections route).exec state = (.ok report, after)
  /-- Otherwise it leaves the store as it is. -/
  refused : ∀ {error after},
    (importWholeChunk store sections route).exec state = (.error error, after) →
    after = state

/-- Both imports succeed alike with every stream complete, or the import of the
whole chunk fails without a change and the other one does not complete. -/
theorem imports_cases (implements : Implements (store.machine initial) limits represents)
    (related : represents state log) (sections : List StreamSection) (route : Bytes → StreamKey) :
    (∃ report after, report.allComplete = true ∧
        (importWholeChunk store sections route).exec state = (.ok report, after) ∧
        (importPerStream store sections route).exec state = (.ok report, after)) ∨
      (∃ error, (importWholeChunk store sections route).exec state = (.error error, state)) ∧
        ∀ {report after},
          (importPerStream store sections route).exec state = (.ok report, after) →
          ¬ report.allComplete = true := by
  unfold importWholeChunk importPerStream
  cases found : routeSections sections route with
  | error error =>
    right
    refine ⟨⟨.invalidRoute error, rfl⟩, ?_⟩
    intro report after ran
    cases ran
  | ok targets =>
    obtain ⟨distinct, rfl⟩ := routeSections_eq_ok.mp found
    simp only [mapError_ok, exec_ofResult_ok_bind, zip_targets]
    cases planned : (planChunk (routed sections route) : Except (ImportError AdapterError) _) with
    | error error =>
      right
      refine ⟨⟨error, rfl⟩, ?_⟩
      intro report after ran complete
      obtain ⟨reports, stored, ran, built⟩ := exec_bind_eq_ok.mp ran
      cases built
      obtain ⟨runs, _, isPlan, _⟩ :=
        completeRuns_of_imports implements related ran (allComplete_iff.mp complete)
      cases planned.symm.trans (planChunk_eq_ok.mpr isPlan)
    | ok runs =>
      have isPlan := planChunk_eq_ok.mp planned
      have distinctTargets : ((appendsOf runs).map PlannedAppend.target).Nodup := by
        have sameTargets : (routed sections route).map Prod.snd =
            sections.map fun entry => route entry.origin := List.map_map
        unfold appendsOf
        rw [List.map_map]
        apply List.Nodup.sublist isPlan.targets_sublist
        rw [sameTargets]
        exact distinct
      rw [exec_ofResult_ok_bind]
      rcases atomicAppendMany_cases implements related distinctTargets with
        ⟨position, after, logAfter, appended, relatedAfter, added⟩ | ⟨error, refused, rejected⟩
      · left
        obtain ⟨stored, relatedStored, ran⟩ := isPlan.imports implements related added
        obtain rfl : stored = after := implements.unique relatedStored relatedAfter
        refine ⟨⟨completeReports runs⟩, stored, ?_, commitRuns_of_ok appended, ?_⟩
        · rw [allComplete_iff]
          exact allComplete_completeReports runs
        · rw [exec_bind_of_ok ran]
          rfl
      · right
        refine ⟨commitRuns_of_error refused, ?_⟩
        intro report after ran complete
        obtain ⟨reports, stored, ran, built⟩ := exec_bind_eq_ok.mp ran
        cases built
        obtain ⟨others, _, isOthers, added⟩ :=
          completeRuns_of_imports implements related ran (allComplete_iff.mp complete)
        cases planned.symm.trans (planChunk_eq_ok.mpr isOthers)
        cases rejected.symm.trans added

theorem wholeIsPerStream (implements : Implements (store.machine initial) limits represents)
    (related : represents state log) (sections : List StreamSection) (route : Bytes → StreamKey) :
    WholeIsPerStream store state sections route := by
  rcases imports_cases implements related sections route with
    ⟨report, after, complete, whole, perStream⟩ | ⟨⟨error, whole⟩, incomplete⟩
  · refine ⟨iff_of_true ⟨report, ?_⟩ ⟨report, ?_, complete⟩, ?_, ?_⟩
    · rw [whole]
    · rw [perStream]
    · intro other stored ran
      rw [perStream, ← whole, ran]
    · intro error stored ran
      cases whole.symm.trans ran
  · refine ⟨iff_of_false ?_ ?_, ?_, ?_⟩
    · rintro ⟨report, succeeded⟩
      rw [whole] at succeeded
      cases succeeded
    · rintro ⟨report, succeeded, complete⟩
      exact incomplete (Prod.ext succeeded rfl) complete
    · intro report stored ran
      cases whole.symm.trans ran
    · intro error stored ran
      cases whole.symm.trans ran
      rfl

end Mnesis.Import
