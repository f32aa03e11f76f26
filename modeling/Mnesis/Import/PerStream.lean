import Mnesis.Import.Importer

/-!
# Imports per stream

An import per stream appends to every target the longest run of consecutive
versions that continues it, and nothing else, and reports for every section that
has blocks where it stopped.
-/

namespace Mnesis.Import

open Foundation Kernel Store

variable {State AdapterError : Type}

/-- The outcome of a section of which the given blocks were not appended. -/
def outcomeAt (reached : Option Version) : List ImportBlock → Option StreamOutcome
  | [] => reached.map .complete
  | .corrupt :: _ => some (.corrupt reached)
  | .event event :: _ => some (.mismatch reached event.version)

/-- The outcome of blocks for a stream of the given length; none without blocks. -/
def sectionOutcome (length : Nat) (blocks : List ImportBlock) : Option StreamOutcome :=
  outcomeAt ((leadingRun (length + 1) blocks).getLast?.map PersistedEnvelope.version)
    (blocks.drop (leadingRun (length + 1) blocks).length)

theorem sectionOutcome_eq_none : sectionOutcome length blocks = none ↔ blocks = [] := by
  constructor
  · intro nothing
    unfold sectionOutcome outcomeAt at nothing
    split at nothing
    next all =>
      rw [Option.map_eq_none_iff, Option.map_eq_none_iff, List.getLast?_eq_none_iff] at nothing
      rw [nothing] at all
      exact all
    next => cases nothing
    next => cases nothing
  · rintro rfl
    rfl

/-- The report about a section. -/
def sectionReport (log : Log) (routed : StreamSection × StreamKey) : Option StreamReport :=
  (sectionOutcome (log.stream routed.2).length routed.1.blocks).map fun outcome =>
    ⟨routed.2, outcome⟩

/-- What an import per stream of routed sections does to the streams, and what it
reports. -/
structure Imported (log after : Log) (routed : List (StreamSection × StreamKey))
    (reports : List StreamReport) : Prop where
  /-- Every target gets the longest run that continues it. -/
  targets : ∀ entry target, (entry, target) ∈ routed →
    after.stream target = log.stream target ++
      (leadingRun ((log.stream target).length + 1) entry.blocks).map PersistedEnvelope.toPending
  /-- The other streams are left alone. -/
  others : ∀ key ∉ routed.map Prod.snd, after.stream key = log.stream key
  /-- The sections with blocks are reported in order. -/
  reports : reports = routed.filterMap (sectionReport log)

theorem Imported.nil (log : Log) : Imported log log [] [] where
  targets := by simp
  others := by simp
  reports := rfl

/-- A section in front of others with other targets. -/
theorem Imported.cons {reports : List StreamReport} (fresh : target ∉ routed.map Prod.snd)
    (reported : sectionOutcome (log.stream target).length entry.blocks = outcome)
    (appended : middle.stream target = log.stream target ++
      (leadingRun ((log.stream target).length + 1) entry.blocks).map PersistedEnvelope.toPending)
    (kept : ∀ key ≠ target, middle.stream key = log.stream key)
    (imported : Imported middle after routed reports) :
    Imported log after ((entry, target) :: routed)
      ((outcome.map (StreamReport.mk target)).toList ++ reports) := by
  have different : ∀ {other key}, (other, key) ∈ routed → key ≠ target := by
    intro other key present same
    apply fresh
    rw [← same]
    exact List.mem_map_of_mem present
  refine ⟨?_, ?_, ?_⟩
  · intro other key present
    rcases List.mem_cons.mp present with same | present
    · cases same
      rw [imported.others target fresh, appended]
    · rw [imported.targets other key present, kept key (different present)]
  · intro key absent
    rw [List.map_cons, List.mem_cons, not_or] at absent
    rw [imported.others key absent.2, kept key absent.1]
  · have sameReports : routed.filterMap (sectionReport middle) =
        routed.filterMap (sectionReport log) := by
      apply List.filterMap_congr
      rintro ⟨other, key⟩ present
      unfold sectionReport
      rw [kept key (different present)]
    rw [imported.reports, sameReports, List.filterMap_cons, sectionReport, reported]
    cases outcome <;> rfl

theorem Imported.skip {reports : List StreamReport} (fresh : target ∉ routed.map Prod.snd)
    (reported : sectionOutcome (log.stream target).length entry.blocks = outcome)
    (nothing : leadingRun ((log.stream target).length + 1) entry.blocks = [])
    (imported : Imported log after routed reports) :
    Imported log after ((entry, target) :: routed)
      ((outcome.map (StreamReport.mk target)).toList ++ reports) := by
  apply imported.cons fresh reported
  · rw [nothing, List.map_nil, List.append_nil]
  · intro key different
    rfl

/-- A store that implements an event log and reports a conflict only for a run
that does not continue its stream. -/
structure Importable (store : RawEventStore State AdapterError) (initial : State)
    (limits : LogLimits StreamKey PendingEnvelope) (represents : State → Log → Prop) : Prop where
  implements : Implements (store.machine initial) limits represents
  conflicts : ∀ {state log id expected envelopes named wanted actual},
    represents state log →
    ((store.append id expected envelopes).exec state).1 = .error (.conflict named wanted actual) →
    ¬ EventLog.Continues versionNumber (log.stream id).length
      ⟨id, depth expected, envelopes.toList⟩

variable {store : RawEventStore State AdapterError} {represents : State → Log → Prop}
/-- Append a planned run to a store. -/
def RawEventStore.appendRun (store : RawEventStore State AdapterError)
    (write : PlannedAppend) : Locked State (AppendError AdapterError) AllPosition :=
  store.append write.target write.expectedVersion write.batch

/-- An append either adds its run to the log, or fails and leaves it. -/
theorem appendRun_cases (implements : Implements (store.machine initial) limits represents)
    (related : represents state log) (write : PlannedAppend) :
    (∃ position after logAfter,
        (store.appendRun write).exec state = (.ok position, after) ∧
        represents after logAfter ∧
        EventLog.append limits log write.toWrite = some logAfter) ∨
      ∃ error, (store.appendRun write).exec state = (.error error, state) ∧
        EventLog.append limits log write.toWrite = none := by
  obtain ⟨agrees, relatedAfter⟩ := implements.refines.step write.toCall related
  change Answer.position (.append ((store.appendRun write).exec state).1) = _ at agrees
  change represents ((store.appendRun write).exec state).2 _ at relatedAfter
  rcases ran : (store.appendRun write).exec state with ⟨answer, after⟩
  rw [ran] at agrees relatedAfter
  cases added : EventLog.append limits log write.toWrite with
  | none =>
    rw [logMachine_append_of_none added] at agrees relatedAfter
    cases answer with
    | ok position => cases agrees
    | error error =>
      have unchanged : after = state := implements.unique relatedAfter related
      rw [unchanged]
      exact .inr ⟨error, rfl, rfl⟩
  | some logAfter =>
    rw [logMachine_append_of_some added] at agrees relatedAfter
    cases answer with
    | ok position => exact .inl ⟨position, after, logAfter, rfl, relatedAfter, rfl⟩
    | error error => cases agrees

section Planned

variable {run : PlannedRun}

theorem PlannedRun.Plans.continues_iff (plans : run.Plans blocks) (target : StreamKey)
    (length : Nat) :
    EventLog.Continues versionNumber length (run.toAppend target).toWrite ↔
      run.first.toNat = length + 1 := by
  have events : (run.toAppend target).toWrite.events =
      (leadingRun run.first.toNat blocks).map PersistedEnvelope.toPending := plans.events
  have numbered : (run.toAppend target).toWrite.events.map versionNumber =
      List.range' run.first.toNat (run.toAppend target).toWrite.events.length := by
    rw [events, List.map_map, List.length_map]
    exact map_version_leadingRun _ _
  unfold EventLog.Continues
  change depth run.expectedVersion = length ∧ _ ↔ _
  rw [plans.expected, Nat.add_right_cancel_iff]
  refine and_iff_left_of_imp fun same => ?_
  rw [numbered, plans.expected, same]

theorem PlannedRun.Plans.sectionOutcome_of_continues (plans : run.Plans blocks)
    (continues : run.first.toNat = length + 1) :
    sectionOutcome length blocks = some run.outcome := by
  have halts := plans.halt
  unfold sectionOutcome
  rw [← continues, plans.last]
  unfold PlannedRun.outcome
  cases isHalt : run.halt with
  | complete =>
    rw [isHalt] at halts
    rw [show blocks.drop _ = [] from halts]
    rfl
  | corrupt =>
    rw [isHalt] at halts
    obtain ⟨rest, halts⟩ := halts
    rw [halts]
    rfl
  | gap got =>
    rw [isHalt] at halts
    obtain ⟨event, rest, halts, isGot⟩ := halts
    rw [halts, ← isGot]
    rfl

theorem PlannedRun.Plans.sectionOutcome_of_misfit (plans : run.Plans blocks)
    (misfits : run.first.toNat ≠ length + 1) :
    leadingRun (length + 1) blocks = [] ∧
      sectionOutcome length blocks = some (.mismatch none run.first) := by
  obtain ⟨event, rest, begins, isFirst⟩ := plans.begins
  rw [← isFirst] at misfits ⊢
  have nothing : leadingRun (length + 1) blocks = [] := by
    rw [begins, leadingRun_of_ne misfits]
  refine ⟨nothing, ?_⟩
  unfold sectionOutcome
  rw [nothing, begins]
  rfl

end Planned

/-- The import of a run in terms of its append. -/
theorem exec_importRun (store : RawEventStore State AdapterError) (target : StreamKey)
    (run : PlannedRun) (state : State) :
    (importRun store target run).exec state =
      match (store.appendRun (run.toAppend target)).exec state with
      | (.ok _, after) => (.ok run.outcome, after)
      | (.error (.conflict _ _ _), after) => (.ok (.mismatch none run.first), after)
      | (.error (.store error), after) => (.error (.store error), after) := by
  have same : store.appendRun (run.toAppend target) =
      store.append target run.expectedVersion ⟨run.head, run.tail⟩ := rfl
  unfold importRun
  rw [exec_attempt_bind, same]
  rcases (store.append target run.expectedVersion ⟨run.head, run.tail⟩).exec state with
    ⟨error | position, after⟩
  · cases error <;> rfl
  · rfl

/-- The import of a run appends what continues the target. -/
theorem importRun_imports (importable : Importable store initial limits represents)
    (related : represents state log) (plans : run.Plans blocks)
    (ran : (importRun store target run).exec state = (.ok outcome, after)) :
    ∃ logAfter, represents after logAfter ∧
      logAfter.stream target = log.stream target ++
        (leadingRun ((log.stream target).length + 1) blocks).map PersistedEnvelope.toPending ∧
      (∀ key ≠ target, logAfter.stream key = log.stream key) ∧
      sectionOutcome (log.stream target).length blocks = some outcome := by
  have continues := plans.continues_iff target (log.stream target).length
  rw [exec_importRun] at ran
  rcases appendRun_cases importable.implements related (run.toAppend target) with
    ⟨position, stored, logAfter, appended, relatedAfter, added⟩ | ⟨error, refused, _⟩
  · rw [appended] at ran
    cases ran
    obtain ⟨_, fits, _, entries⟩ := EventLog.append_eq_some.mp added
    have fits := continues.mp fits
    refine ⟨logAfter, relatedAfter, ?_, ?_, plans.sectionOutcome_of_continues fits⟩
    · rw [← fits, ← plans.events]
      exact EventLog.stream_target entries
    · intro key different
      exact EventLog.stream_of_ne entries different.symm
  · rw [refused] at ran
    cases error with
    | conflict named wanted actual =>
      cases ran
      have misfits := mt continues.mpr (importable.conflicts related (congrArg Prod.fst refused))
      obtain ⟨nothing, reported⟩ := plans.sectionOutcome_of_misfit misfits
      refine ⟨log, related, ?_, fun _ _ => rfl, reported⟩
      rw [nothing, List.map_nil, List.append_nil]
    | store error => cases ran

/-- Sections are imported one behind the other. -/
theorem importSections_imports (importable : Importable store initial limits represents)
    (distinct : (routed.map Prod.snd).Nodup)
    (related : represents state log)
    (ran : (importSections store routed).exec state = (.ok reports, after)) :
    ∃ logAfter, represents after logAfter ∧ Imported log logAfter routed reports := by
  induction routed generalizing state log reports with
  | nil =>
    cases ran
    exact ⟨log, related, .nil log⟩
  | cons routed others step =>
    obtain ⟨entry, target⟩ := routed
    obtain ⟨fresh, distinct⟩ := List.nodup_cons.mp distinct
    unfold importSections at ran
    obtain ⟨plan, _, planned, ran⟩ := exec_bind_eq_ok.mp ran
    obtain ⟨isPlan, rfl⟩ := Prod.mk.inj planned
    have spec := planSection_eq_ok (mapError_eq_ok.mp isPlan)
    cases plan with
    | empty =>
      obtain ⟨logAfter, relatedAfter, imported⟩ := step distinct related ran
      have empty : entry.blocks = [] := spec
      have reported : sectionOutcome (log.stream target).length entry.blocks = none :=
        sectionOutcome_eq_none.mpr empty
      refine ⟨logAfter, relatedAfter, imported.skip fresh reported ?_⟩
      rw [empty, leadingRun_nil]
    | firstCorrupt =>
      obtain ⟨reports, stored, ran, built⟩ := exec_bind_eq_ok.mp ran
      cases built
      obtain ⟨logAfter, relatedAfter, imported⟩ := step distinct related ran
      obtain ⟨rest, begins⟩ := spec
      have reported : sectionOutcome (log.stream target).length entry.blocks =
          some (.corrupt none) := by
        rw [begins]
        rfl
      refine ⟨logAfter, relatedAfter, imported.skip fresh reported ?_⟩
      rw [begins, leadingRun_corrupt]
    | run run =>
      obtain ⟨outcome, stored, ranFirst, ran⟩ := exec_bind_eq_ok.mp ran
      obtain ⟨reports, stored, ran, built⟩ := exec_bind_eq_ok.mp ran
      cases built
      obtain ⟨middle, relatedMiddle, appended, kept, reported⟩ :=
        importRun_imports importable related spec ranFirst
      obtain ⟨logAfter, relatedAfter, imported⟩ := step distinct relatedMiddle ran
      exact ⟨logAfter, relatedAfter, imported.cons fresh reported appended kept⟩

theorem routeSections_eq_ok :
    routeSections sections route = .ok targets ↔
      (sections.map fun entry => route entry.origin).Nodup ∧
        (sections.map fun entry => route entry.origin) = targets := by
  unfold routeSections
  rw [bind_eq_ok]
  constructor
  · rintro ⟨_, distinct, same⟩
    exact ⟨validateDistinctTargets_eq_ok.mp distinct, Except.ok.inj same⟩
  · rintro ⟨distinct, same⟩
    exact ⟨(), validateDistinctTargets_eq_ok.mpr distinct, congrArg _ same⟩

/-- Sections with their targets. -/
def routed (sections : List StreamSection) (route : Bytes → StreamKey) :
    List (StreamSection × StreamKey) :=
  sections.map fun entry => (entry, route entry.origin)

theorem zip_targets (sections : List StreamSection) (route : Bytes → StreamKey) :
    sections.zip (sections.map fun entry => route entry.origin) = routed sections route :=
  List.map_prod_left_eq_zip.symm

theorem exec_importPerStream (distinct : (sections.map fun entry => route entry.origin).Nodup) :
    (importPerStream store sections route).exec state =
      (importSections store (routed sections route) >>= fun reports =>
        pure ⟨reports⟩).exec state := by
  rw [importPerStream, exec_mapped_bind (routeSections_eq_ok.mpr ⟨distinct, rfl⟩),
    zip_targets]

/-- An import per stream changes every target as its section says and leaves the
other streams alone; two sections for one target are refused before anything is
written. -/
structure ImportsPerStream (store : RawEventStore State AdapterError)
    (represents : State → Log → Prop) (state : State) (log : Log) (sections : List StreamSection)
    (route : Bytes → StreamKey) : Prop where
  reported : (sections.map fun entry => route entry.origin).Nodup →
    ∀ {report after},
      (importPerStream store sections route).exec state = (.ok report, after) →
      ∃ logAfter, represents after logAfter ∧
        Imported log logAfter (routed sections route) report.streams
  ambiguous : ¬ (sections.map fun entry => route entry.origin).Nodup →
    ∃ error, (importPerStream store sections route).exec state =
      (.error (.invalidRoute error), state)

theorem Importable.importsPerStream (importable : Importable store initial limits represents)
    (related : represents state log) (sections : List StreamSection) (route : Bytes → StreamKey) :
    ImportsPerStream store represents state log sections route where
  reported := by
    intro distinct report after ran
    rw [exec_importPerStream distinct] at ran
    obtain ⟨reports, stored, ran, built⟩ := exec_bind_eq_ok.mp ran
    cases built
    apply importSections_imports importable _ related ran
    unfold routed
    rw [List.map_map]
    exact distinct
  ambiguous := by
    intro ambiguous
    unfold importPerStream
    cases targets : routeSections sections route with
    | ok found => exact absurd (routeSections_eq_ok.mp targets).1 ambiguous
    | error error => exact ⟨error, rfl⟩

end Mnesis.Import
