import Mnesis.Fjall.Refinement
import Mnesis.Import.WholeChunk
import Mnesis.InMemory.Refinement

/-!
# Imports into both stores

Both stores implement an event log and report a conflict only for a run that does
not continue its stream.  Imports into them therefore do what their sections say, and
an import that returned a report may be repeated in either mode without any effect.
-/

namespace Mnesis.Import

open Foundation Kernel Store

/-- The in-memory store. -/
def inMemoryStore : RawEventStore InMemory.Inner InMemory.InMemoryStoreError where
  append := InMemory.append
  atomicAppendMany := InMemory.atomicAppendMany

/-- The persistent store. -/
def fjallStore : RawEventStore Fjall.Partitions Fjall.FjallError where
  append := Fjall.append
  atomicAppendMany := Fjall.atomicAppendMany

/-- The failures that report a conflict. -/
def IsConflict {AdapterError : Type} : AppendError AdapterError → Prop
  | .conflict .. => True
  | .store _ => False

/-- An append that continues its stream does not report a conflict. -/
def SparesContinued {State AdapterError : Type} (store : RawEventStore State AdapterError)
    (represents : State → Log → Prop) : Prop :=
  ∀ {state log id expected envelopes}, represents state log →
    EventLog.Continues versionNumber (log.stream id).length
      ⟨id, depth expected, envelopes.toList⟩ →
    (store.append id expected envelopes).Ends state (fun _ _ => True) fun error _ =>
      ¬ IsConflict error

theorem inMemory_sparesContinued : SparesContinued inMemoryStore InMemory.Represents := by
  intro inner log target expected envelopes represents continues
  change (InMemory.append target expected envelopes).Ends inner _ _
  have valid := represents.validate_eq_ok.mpr continues
  unfold InMemory.append
  refine ends_get_bind (ends_ofResult_bind ?_ fun current isCurrent => ?_)
  · exact avoids_mapError fun _ => id
  rw [represents.lenAsU64] at isCurrent
  cases isCurrent
  rw [valid]
  refine ends_ofResult_bind nofun fun _ _ => ?_
  exact ends_ofResult_bind (avoids_mapError fun _ => id) fun _ _ => trivial

theorem fjall_sparesContinued (mode : Fjall.AllIndex) :
    SparesContinued fjallStore (Fjall.Represents mode) := by
  intro partitions log target expected envelopes represents continues
  have valid := represents.validate_eq_ok.mpr continues
  have planned : ∀ failure, ¬ IsConflict (Fjall.appendPlanErr target failure) := by
    intro failure impossible
    cases failure <;> exact impossible
  change (Fjall.append target expected envelopes).Ends partitions _ _
  unfold Fjall.append
  refine ends_ofResult_bind (avoids_mapError fun _ => id) fun _ _ => ?_
  refine ends_ofResult_bind (avoids_mapError planned) fun _ _ => ?_
  refine ends_get_bind (ends_ofResult_bind ?_ fun current isCurrent => ?_)
  · exact avoids_mapError fun _ => id
  rw [represents.readVersion] at isCurrent
  cases isCurrent
  rw [valid]
  refine ends_ofResult_bind nofun fun _ _ => ?_
  refine ends_ofResult_bind (avoids_mapError fun _ => id) fun _ _ => ?_
  refine ends_ofResult_bind (avoids_mapError planned) fun run _ => ?_
  apply ends_set_bind
  cases Version.new run.endingGlobal with
  | none => exact id
  | some position => exact trivial

theorem inMemory_importable :
    Importable inMemoryStore .default InMemory.limits InMemory.Represents where
  implements := InMemory.implements
  conflicts represents conflict continues :=
    (inMemory_sparesContinued represents continues).of_error conflict trivial

theorem fjall_importable (mode : Fjall.AllIndex) :
    Importable fjallStore (.new mode) Fjall.limits (Fjall.Represents mode) where
  implements := Fjall.implements mode
  conflicts represents conflict continues :=
    (fjall_sparesContinued mode represents continues).of_error conflict trivial

/-- In every state that calls lead to, an import per stream into either store
appends to each target the longest run that continues it, leaves everything else
alone and reports where each section stopped; it writes nothing when two sections
have the same target. -/
theorem import_per_stream_appends_leading_runs (calls : List Call) (sections : List StreamSection)
    (route : Bytes → StreamKey) :
    ImportsPerStream inMemoryStore InMemory.Represents (InMemory.machine.run calls)
        ((logMachine InMemory.limits).run calls) sections route ∧
      ∀ mode, ImportsPerStream fjallStore (Fjall.Represents mode)
        ((Fjall.machine mode).run calls) ((logMachine Fjall.limits).run calls) sections route :=
  ⟨inMemory_importable.importsPerStream (InMemory.implements.refines.run calls) sections route,
    fun mode => (fjall_importable mode).importsPerStream
      ((Fjall.implements mode).refines.run calls) sections route⟩

/-- In every state that calls lead to, the import of a whole chunk into either
store is the import per stream that finds every stream complete, or nothing. -/
theorem import_whole_chunk_is_per_stream (calls : List Call) (sections : List StreamSection)
    (route : Bytes → StreamKey) :
    WholeIsPerStream inMemoryStore (InMemory.machine.run calls) sections route ∧
      ∀ mode, WholeIsPerStream fjallStore ((Fjall.machine mode).run calls) sections route :=
  ⟨wholeIsPerStream inMemory_importable.implements (InMemory.implements.refines.run calls)
      sections route,
    fun mode => wholeIsPerStream (fjall_importable mode).implements
      ((Fjall.implements mode).refines.run calls) sections route⟩

variable {State AdapterError : Type} {store : RawEventStore State AdapterError} {initial : State}
variable {represents : State → Log → Prop} {state : State}

theorem leadingRun_behind (next : Nat) (blocks : List ImportBlock) :
    leadingRun (next + (leadingRun next blocks).length) blocks = [] := by
  cases blocks with
  | nil => rfl
  | cons block blocks =>
    cases block with
    | corrupt => rfl
    | event event =>
      by_cases follows : event.version.toNat = next
      · rw [leadingRun_of_eq follows, List.length_cons]
        exact leadingRun_of_ne (by omega) blocks
      · rw [leadingRun_of_ne follows]
        exact leadingRun_of_ne follows blocks

/-- The sections have nothing for their targets. -/
def Exhausted (log : Log) (pairs : List (StreamSection × StreamKey)) : Prop :=
  ∀ pair ∈ pairs, leadingRun ((log.stream pair.2).length + 1) pair.1.blocks = []

theorem Imported.exhausted {reports : List StreamReport}
    (imported : Imported log after pairs reports) : Exhausted after pairs := by
  rintro ⟨entry, target⟩ present
  rw [imported.targets entry target present, List.length_append, List.length_map,
    Nat.add_right_comm]
  exact leadingRun_behind _ _

section

variable (implements : Implements (store.machine initial) limits represents)
variable (related : represents state log)
include implements related

theorem importRun_unchanged (plans : run.Plans blocks)
    (nothing : leadingRun ((log.stream target).length + 1) blocks = []) :
    ((importRun store target run).exec state).2 = state := by
  rw [exec_importRun]
  rcases appendRun_cases implements related (run.toAppend target) with
    ⟨_, _, logAfter, _, _, added⟩ | ⟨error, refused, _⟩
  · have fits := (plans.continues_iff target _).mp (EventLog.append_eq_some.mp added).2.1
    obtain ⟨event, rest, begins, isFirst⟩ := plans.begins
    rw [begins, leadingRun_of_eq (isFirst ▸ fits)] at nothing
    cases nothing
  · rw [refused]
    cases error <;> rfl

theorem importSections_unchanged (exhausted : Exhausted log pairs) :
    ((importSections store pairs).exec state).2 = state := by
  induction pairs with
  | nil => rfl
  | cons pair pairs step =>
    obtain ⟨entry, target⟩ := pair
    obtain ⟨nothing, exhausted⟩ := List.forall_mem_cons.mp exhausted
    have rest := step exhausted
    have reported (outcome) : ((importSections store pairs >>= fun reports =>
        pure (StreamReport.mk target outcome :: reports)).exec state).2 = state :=
      exec_bind_unchanged rest fun _ => rfl
    unfold importSections
    cases planned : planSection entry with
    | error error => rfl
    | ok plan =>
      have spec := planSection_eq_ok planned
      rw [mapError_ok, exec_ofResult_ok_bind]
      cases plan with
      | empty => exact rest
      | firstCorrupt => exact reported _
      | run run =>
        exact exec_bind_unchanged (importRun_unchanged implements related spec nothing)
          reported

end

/-- After an import that returned a report, a further one of the same sections
changes nothing, in whichever modes they were made. -/
def RepeatsIdly (store : RawEventStore State AdapterError) (state : State)
    (sections : List StreamSection) (route : Bytes → StreamKey) : Prop :=
  ∀ mode report after,
    (importChunk store sections route mode).exec state = (.ok report, after) →
    ∀ again, ((importChunk store sections route again).exec after).2 = after

theorem Importable.repeatsIdly (importable : Importable store initial limits represents)
    (related : represents state log) (sections : List StreamSection) (route : Bytes → StreamKey) :
    RepeatsIdly store state sections route := by
  intro mode report after ran again
  have perStream : (importPerStream store sections route).exec state = (.ok report, after) := by
    cases mode with
    | perStream => exact ran
    | wholeChunk =>
      exact (wholeIsPerStream importable.implements related sections route).agrees ran
  have imports := importable.importsPerStream related sections route
  have distinct : (sections.map fun entry => route entry.origin).Nodup := by
    by_contra ambiguous
    obtain ⟨error, refused⟩ := imports.ambiguous ambiguous
    cases refused.symm.trans perStream
  obtain ⟨logAfter, relatedAfter, imported⟩ := imports.reported distinct perStream
  have unchanged : ((importPerStream store sections route).exec after).2 = after := by
    rw [exec_importPerStream distinct]
    exact exec_bind_unchanged
      (importSections_unchanged importable.implements relatedAfter imported.exhausted)
      fun _ => rfl
  cases again with
  | perStream => exact unchanged
  | wholeChunk =>
    have whole := wholeIsPerStream importable.implements relatedAfter sections route
    rcases repeated : (importWholeChunk store sections route).exec after with
      ⟨error | report, last⟩
    · exact (congrArg Prod.snd repeated).trans (whole.refused repeated)
    · rw [whole.agrees repeated] at unchanged
      exact (congrArg Prod.snd repeated).trans unchanged

/-- Whoever repeats an import that returned a report, in either mode, appends nothing. -/
theorem repeated_import_changes_nothing (calls : List Call) (sections : List StreamSection)
    (route : Bytes → StreamKey) :
    RepeatsIdly inMemoryStore (InMemory.machine.run calls) sections route ∧
      ∀ mode, RepeatsIdly fjallStore ((Fjall.machine mode).run calls) sections route :=
  ⟨inMemory_importable.repeatsIdly (InMemory.implements.refines.run calls) sections route,
    fun mode => (fjall_importable mode).repeatsIdly ((Fjall.implements mode).refines.run calls)
      sections route⟩

/-- The first event of a stream. -/
def openingEvent : PersistedEnvelope where
  version := .initial
  value := [101]
  schemaVersion := .initial
  eventTypeRange := ⟨0, 1⟩
  payloadRange := ⟨1, 1⟩
  metadataRange := none
  checked := by decide

/-- What is planned for the event alone. -/
def openingRun : PlannedRun where
  first := .initial
  expectedVersion := none
  head := openingEvent.toPending
  tail := []
  last := .initial
  halt := .complete

/-- The event is imported into an empty store, and not a second time. -/
theorem second_import_changes_nothing :
    ∃ after,
      (importChunk inMemoryStore [⟨[1], [.event openingEvent]⟩] id .perStream).exec
          (InMemory.machine.run []) =
        (.ok ⟨[⟨[1], .complete .initial⟩]⟩, after) ∧
      ∀ again, ((importChunk inMemoryStore [⟨[1], [.event openingEvent]⟩] id again).exec
        after).2 = after := by
  rcases appendRun_cases inMemory_importable.implements (InMemory.implements.refines.run [])
    (openingRun.toAppend [1]) with ⟨_, after, _, appended, _⟩ | ⟨_, _, refused⟩
  · have first : (importRun inMemoryStore [1] openingRun).exec (InMemory.machine.run []) =
        (.ok (.complete .initial), after) := by
      rw [exec_importRun, appended]
      rfl
    have ran : (importChunk inMemoryStore [⟨[1], [.event openingEvent]⟩] id .perStream).exec
        (InMemory.machine.run []) = (.ok ⟨[⟨[1], .complete .initial⟩]⟩, after) := by
      have sections : (importSections inMemoryStore
          [(⟨[1], [.event openingEvent]⟩, [1])]).exec (InMemory.machine.run []) =
            (.ok [⟨[1], .complete .initial⟩], after) := by
        change (importRun inMemoryStore [1] openingRun >>= _).exec _ = _
        exact exec_bind_of_ok first
      change (importPerStream inMemoryStore _ id).exec _ = _
      rw [exec_importPerStream (by decide)]
      exact exec_bind_of_ok sections
    exact ⟨after, ran, (repeated_import_changes_nothing [] _ id).1 _ _ _ ran⟩
  · exact absurd refused (by decide)

end Mnesis.Import
