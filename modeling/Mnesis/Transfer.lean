import Mnesis.Chunk.Backup
import Mnesis.Import.Restore
import Mnesis.Import.Stores
import Mnesis.InMemory.Snapshot

/-!
# Transfer of a store through a backup

An export session of an in-memory store is written to a backup, with one section
for every stream, while others write to the store.  The decoded backup is imported
into an empty store, which then has the streams of the first one as they were when
the session was opened.
-/

namespace Mnesis.Transfer

open Foundation Kernel Store Chunk Import InMemory

/-- Failures of the events of an export. -/
abbrev SourceError := ExportError InMemoryStoreError

/-- A store and its clock at the moments of an export.  Between any two moments
others may have written to the store. -/
structure Source where
  inner : Nat → Inner
  now : Nat → Nat
  reached : ∃ calls, inner 0 = machine.run calls
  continued : ∀ moment, ∃ calls, inner (moment + 1) = (machine.answers (inner moment) calls).2

/-- The streams of a session, each of them once and in any order. -/
structure Lists (session : InMemoryExportSession) (ids : List Slice) : Prop where
  distinct : (ids.map Slice.bytes).Nodup
  streams : ∀ key : StreamKey, key ∈ ids.map Slice.bytes ↔ headAmong session.heads key ≠ none

section Export

variable (source : Source) (batchSize : BatchSize)

/-- Drain a cursor from a moment on, with a number of polls at most.  The answer
has the moment behind the last poll. -/
def drainStream :
    Nat → Nat → InMemoryExportCursor ExportState → Drain SourceError × Nat
  | 0, moment, _ => (⟨[], false⟩, moment)
  | polls + 1, moment, cursor =>
    match cursor.pollNext (nextExported batchSize (source.inner moment)) (source.now moment) with
    | (none, _) => (⟨[], true⟩, moment + 1)
    | (some (.error error), _) => (⟨[.error error], false⟩, moment + 1)
    | (some (.ok event), cursor) =>
      let (rest, last) := drainStream polls (moment + 1) cursor
      (⟨.ok event :: rest.items, rest.ended⟩, last)

/-- Drain every listed stream into a section. -/
def exportSections (session : InMemoryExportSession) (limit : Nat) :
    Nat → Nat → InMemoryExportCursor (List Slice) →
      Except (Interrupted SourceError) (List (SectionScript SourceError))
  | 0, _, _ => .error .abandoned
  | polls + 1, moment, listing =>
    match listing.pollNext nextOf (source.now moment) with
    | (none, _) => return []
    | (some (.error error), _) => .error (.failed error)
    | (some (.ok id), listing) => do
      let cursor ← (session.exportStream (source.now (moment + 1)) id.bytes
        .initial).mapError .failed
      let (drained, last) := drainStream source batchSize limit (moment + 2) cursor
      let scripts ← exportSections session limit polls last listing
      return ⟨id, [.extend drained]⟩ :: scripts

/-- Export the streams of a session, listed in the given order. -/
def exportChunk (session : InMemoryExportSession) (ids : List Slice) (polls : Nat) :
    Except (Interrupted SourceError) (List (SectionScript SourceError)) := do
  let listing ← (session.listStreams (source.now 1) ids).mapError .failed
  exportSections source batchSize session polls polls 2 listing

end Export

/-- The states of a source have at least the events of a log. -/
def Source.Extends (source : Source) (log : Log) : Prop :=
  ∀ moment, ∃ later, Represents (source.inner moment) later ∧ log.entries <+: later.entries

theorem Source.exists_log (source : Source) :
    ∃ log, Represents (source.inner 0) log ∧ source.Extends log := by
  obtain ⟨before, reached⟩ := source.reached
  have initially : Represents (source.inner 0) ((logMachine limits).run before) := by
    rw [reached]
    exact implements.refines.run before
  refine ⟨_, initially, ?_⟩
  intro moment
  induction moment with
  | zero => exact ⟨_, initially, List.prefix_refl _⟩
  | succ moment step =>
    obtain ⟨middle, represents, more⟩ := step
    obtain ⟨calls, continued⟩ := source.continued moment
    refine ⟨((logMachine limits).answers middle calls).2, ?_, ?_⟩
    · rw [continued]
      exact (implements.refines.answers represents calls).2
    · apply Machine.answers_invariant (fun later : Log =>
        ((logMachine limits).run before).entries <+: later.entries) _ more
      intro later call kept
      exact kept.trans (later.prefix_answer call.toLog)

section Poll

variable {State α : Type} {cursor : InMemoryExportCursor State} (next : State → Yield α State)

theorem pollNext_of_late (isState : cursor.inner = some state) (late : cursor.deadline ≤ now) :
    cursor.pollNext next now = (some (.error .expired), ⟨none, cursor.deadline⟩) := by
  unfold InMemoryExportCursor.pollNext
  rw [isState]
  exact if_pos late

variable (inTime : now < cursor.deadline)
include inTime

theorem pollNext_of_none (isState : cursor.inner = some state) (ended : next state = none) :
    cursor.pollNext next now = (none, ⟨none, cursor.deadline⟩) := by
  unfold InMemoryExportCursor.pollNext
  simp only [isState, Nat.not_le_of_lt inTime, if_false, ended]

theorem pollNext_of_ok (isState : cursor.inner = some state)
    (yields : next state = some (.ok value, after)) :
    cursor.pollNext next now = (some (.ok value), ⟨some after, cursor.deadline⟩) := by
  unfold InMemoryExportCursor.pollNext
  simp only [isState, Nat.not_le_of_lt inTime, if_false, yields]

end Poll

section Drain

variable {source : Source} (bounded : log.Bounded limits) (more : source.Extends log)
include bounded more

/-- A cursor that is polled is late, at the end of its stream, or yields the next
event and goes on. -/
theorem drainStream_cases (isState : cursor.inner = some state) (at_ : state.At log place)
    (polls moment : Nat) :
    (cursor.deadline ≤ source.now moment ∧
        (drainStream source batchSize (polls + 1) moment cursor).1 = ⟨[.error .expired], false⟩) ∨
      ((log.stream state.key).drop place = [] ∧
        (drainStream source batchSize (polls + 1) moment cursor).1 = ⟨[], true⟩) ∨
      ∃ event envelopes after,
        (log.stream state.key).drop place = event.toPending :: envelopes ∧
        after.key = state.key ∧ after.At log (place + 1) ∧
        (drainStream source batchSize (polls + 1) moment cursor).1 =
          ⟨.ok event :: (drainStream source batchSize polls (moment + 1)
              ⟨some after, cursor.deadline⟩).1.items,
            (drainStream source batchSize polls (moment + 1)
              ⟨some after, cursor.deadline⟩).1.ended⟩ := by
  rcases Nat.lt_or_ge (source.now moment) cursor.deadline with inTime | late
  · right
    cases remaining : (log.stream state.key).drop place with
    | nil =>
      have ended := at_.nextExported_of_nil bounded batchSize (source.inner moment) remaining
      refine .inl ⟨rfl, ?_⟩
      rw [drainStream, pollNext_of_none _ inTime isState ended]
    | cons envelope envelopes =>
      obtain ⟨later, represents, extended⟩ := more moment
      obtain ⟨event, after, yields, rfl, sameKey, atNext⟩ :=
        at_.nextExported_of_cons bounded batchSize represents extended remaining
      refine .inr ⟨event, envelopes, after, rfl, sameKey, atNext, ?_⟩
      rw [drainStream, pollNext_of_ok _ inTime isState yields]
  · refine .inl ⟨late, ?_⟩
    rw [drainStream, pollNext_of_late _ isState late]

theorem drainStream_of_complete (isState : cursor.inner = some state) (at_ : state.At log place)
    (complete : (drainStream source batchSize polls moment cursor).1.Complete) :
    (yielded (drainStream source batchSize polls moment cursor).1.items).map
        PersistedEnvelope.toPending = (log.stream state.key).drop place := by
  induction polls generalizing cursor state moment place with
  | zero => cases complete.1
  | succ polls step =>
    rcases drainStream_cases bounded more isState at_ polls moment with
      ⟨_, expired⟩ | ⟨ended, drained⟩ |
        ⟨event, envelopes, after, remaining, sameKey, atNext, drained⟩
    · rw [expired] at complete
      cases complete.1
    · rw [drained, ended]
      rfl
    · rw [drained] at complete ⊢
      have rest := step rfl atNext ⟨complete.1, (List.forall_mem_cons.mp complete.2).2⟩
      rw [sameKey, ← List.drop_drop, remaining, List.drop_succ_cons, List.drop_zero] at rest
      rw [remaining, yielded, List.map_cons, rest]

/-- A stream is drained to its last event in time. -/
theorem drainStream_complete (isState : cursor.inner = some state) (at_ : state.At log place)
    (inTime : ∀ moment, source.now moment < cursor.deadline)
    (enough : ((log.stream state.key).drop place).length < polls) :
    (drainStream source batchSize polls moment cursor).1.Complete := by
  induction polls generalizing cursor state moment place with
  | zero => exact absurd enough (Nat.not_lt_zero _)
  | succ polls step =>
    rcases drainStream_cases bounded more isState at_ polls moment with
      ⟨late, _⟩ | ⟨_, drained⟩ | ⟨event, envelopes, after, remaining, sameKey, atNext, drained⟩
    · exact absurd (inTime moment) (Nat.not_lt_of_le late)
    · rw [drained]
      exact ⟨rfl, by simp⟩
    · have shorter : ((log.stream after.key).drop (place + 1)).length < polls := by
        rw [sameKey, ← List.drop_drop, remaining, List.drop_succ_cons, List.drop_zero]
        rw [remaining, List.length_cons] at enough
        exact Nat.lt_of_succ_lt_succ enough
      have rest : (drainStream source batchSize polls (moment + 1)
          ⟨some after, cursor.deadline⟩).1.Complete := step rfl atNext inTime shorter
      rw [drained]
      exact ⟨rest.1, List.forall_mem_cons.mpr ⟨⟨event, rfl⟩, rest.2⟩⟩

end Drain

/-- The stream of a section and the values of its events. -/
def sectionValues (script : SectionScript SourceError) : StreamKey × List PendingEnvelope :=
  (script.contents.1, script.contents.2.map PersistedEnvelope.toPending)

theorem sectionValues_drained (id : Slice) (drained : Drain SourceError) :
    sectionValues ⟨id, [.extend drained]⟩ =
      (id.bytes, (yielded drained.items).map PersistedEnvelope.toPending) := by
  simp [sectionValues, SectionScript.contents, SectionOp.events]

theorem checkLive_eq_ok {session : InMemoryExportSession} :
    session.checkLive now = .ok result ↔ now < session.deadline := by
  rw [InMemoryExportSession.checkLive, rejectIf_eq_ok, Nat.not_le]

/-- The cursor of a stream that was just opened. -/
def newCursor (session : InMemoryExportSession) (id : Slice) : InMemoryExportCursor ExportState :=
  ⟨some ⟨id.bytes, headAmong session.heads id.bytes, some .initial, []⟩, session.deadline⟩

theorem exportStream_eq_ok {session : InMemoryExportSession} {id : Slice} :
    session.exportStream now id.bytes .initial = .ok cursor ↔
      now < session.deadline ∧ newCursor session id = cursor := by
  simp only [InMemoryExportSession.exportStream, bind_eq_ok, checkLive_eq_ok, pure_eq_ok,
    exists_const, Except.ok.injEq, newCursor]

section Sections

variable {source : Source} {session : InMemoryExportSession}
variable (bounded : log.Bounded limits) (more : source.Extends log)
variable (heads : ∀ key : StreamKey, headAmong session.heads key = headOf log key)

omit bounded more in
include heads in
theorem opened_at (key : StreamKey) :
    ExportState.At log 0 ⟨key, headAmong session.heads key, some .initial, []⟩ where
  head := heads key
  next := ⟨.initial, rfl, rfl⟩
  buffer := ⟨0, rfl⟩

include bounded more heads

/-- The sections hold the streams as they were at the opening. -/
theorem sectionValues_of_exportSections (isList : listing.inner = some ids)
    (exported : exportSections source batchSize session limit polls moment listing = .ok scripts)
    (complete : AllComplete scripts) :
    scripts.map sectionValues = ids.map fun id => (id.bytes, log.stream id.bytes) := by
  induction polls generalizing moment listing ids scripts with
  | zero => cases exported
  | succ polls step =>
    unfold exportSections at exported
    rcases Nat.lt_or_ge (source.now moment) listing.deadline with inTime | late
    · cases ids with
      | nil =>
        rw [pollNext_of_none nextOf inTime isList rfl] at exported
        cases exported
        rfl
      | cons id ids =>
        rw [pollNext_of_ok nextOf inTime isList rfl] at exported
        obtain ⟨cursor, opened, exported⟩ := bind_eq_ok.mp exported
        obtain ⟨others, exportedRest, built⟩ := bind_eq_ok.mp exported
        cases built
        obtain ⟨_, rfl⟩ := exportStream_eq_ok.mp (mapError_eq_ok.mp opened)
        obtain ⟨completeFirst, complete⟩ := List.forall_mem_cons.mp complete
        have completeDrain : (drainStream source batchSize limit (moment + 2)
            (newCursor session id)).1.Complete :=
          completeFirst (.extend _) List.mem_cons_self
        have drained := drainStream_of_complete bounded more rfl (opened_at heads id.bytes)
          completeDrain
        rw [List.map_cons, List.map_cons, sectionValues_drained, drained, List.drop_zero,
          step rfl exportedRest complete]
    · rw [pollNext_of_late nextOf isList late] at exported
      cases exported

/-- In time and with enough polls an export comes to its end. -/
theorem exportSections_complete (isList : listing.inner = some ids)
    (listInTime : ∀ moment, source.now moment < listing.deadline)
    (inTime : ∀ moment, source.now moment < session.deadline) (enough : ids.length < polls)
    (longEnough : ∀ key, (log.stream key).length < limit) :
    ∃ scripts, exportSections source batchSize session limit polls moment listing = .ok scripts ∧
      AllComplete scripts := by
  induction polls generalizing moment listing ids with
  | zero => exact absurd enough (Nat.not_lt_zero _)
  | succ polls step =>
    unfold exportSections
    cases ids with
    | nil =>
      rw [pollNext_of_none nextOf (listInTime moment) isList rfl]
      exact ⟨[], rfl, by simp [AllComplete]⟩
    | cons id ids =>
      have opened : session.exportStream (source.now (moment + 1)) id.bytes .initial =
          .ok (newCursor session id) := exportStream_eq_ok.mpr ⟨inTime (moment + 1), rfl⟩
      have complete : (drainStream source batchSize limit (moment + 2)
          (newCursor session id)).1.Complete :=
        drainStream_complete bounded more rfl (opened_at heads id.bytes) inTime
          (longEnough id.bytes)
      have shorter : ids.length < polls := Nat.lt_of_succ_lt_succ enough
      obtain ⟨scripts, exported, completeRest⟩ : ∃ scripts,
          exportSections source batchSize session limit polls
              (drainStream source batchSize limit (moment + 2) (newCursor session id)).2
              ⟨some ids, listing.deadline⟩ = .ok scripts ∧ AllComplete scripts :=
        step rfl listInTime shorter
      rw [pollNext_of_ok nextOf (listInTime moment) isList rfl]
      simp only [opened, mapError_ok, ok_bind, exported]
      exact ⟨_, rfl, List.forall_mem_cons.mpr
        ⟨List.forall_mem_singleton.mpr complete, completeRest⟩⟩

end Sections

/-- Streams of a log that have events. -/
def wholeStreams (log : Log) (ids : List Slice)
    (present : ∀ id ∈ ids, log.stream id.bytes ≠ []) : List WholeStream :=
  ids.pmap (fun id nonempty =>
    ⟨id.bytes, log.stream id.bytes, nonempty, log.numbered id.bytes⟩) present

theorem map_wholeStreams (present : ∀ id ∈ ids, log.stream id.bytes ≠ []) {direct : Slice → α}
    (same : ∀ id nonempty,
      view ⟨id.bytes, log.stream id.bytes, nonempty, log.numbered id.bytes⟩ = direct id) :
    (wholeStreams log ids present).map view = ids.map direct := by
  rw [wholeStreams, List.map_pmap]
  simp only [same, List.pmap_eq_map]

section Restore

variable {log : Log} {ids : List Slice} (present : ∀ id ∈ ids, log.stream id.bytes ≠ [])
variable (distinct : (ids.map Slice.bytes).Nodup)

/-- The run that stores a stream of a log. -/
def streamRun (log : Log) (id : Slice) : Write StreamKey PendingEnvelope :=
  ⟨id.bytes, 0, log.stream id.bytes⟩

include distinct in
theorem acceptable_streamRuns (bounded : log.Bounded limits) :
    EventLog.Acceptable limits (.empty versionNumber) (ids.map (streamRun log)) where
  admitted := by
    intro write isWrite
    obtain ⟨id, _, rfl⟩ := List.mem_map.mp isWrite
    refine ⟨rfl, fun event isEvent => ?_⟩
    exact (bounded.admitted (id.bytes, event) (mem_eventsOf.mp isEvent)).2
  continues := by
    intro write isWrite
    obtain ⟨id, _, rfl⟩ := List.mem_map.mp isWrite
    exact ⟨rfl, log.numbered id.bytes⟩
  room := by
    have counted := sum_length_eventsOf_le distinct log.entries
    have within := bounded.count_le
    have total : ((ids.map (streamRun log)).flatMap Write.entries).length =
        ((ids.map Slice.bytes).map fun key => (eventsOf log.entries key).length).sum := by
      simp only [List.length_flatMap, List.map_map, Write.length_entries, Function.comp_def]
      rfl
    change 0 + _ ≤ _
    rw [total, Nat.zero_add]
    exact Nat.le_trans counted within

include distinct in
theorem eventsOf_streamRuns (all : ∀ key, key ∉ ids.map Slice.bytes → log.stream key = [])
    (key : StreamKey) :
    eventsOf ((ids.map (streamRun log)).flatMap Write.entries) key = log.stream key := by
  have targets : (ids.map (streamRun log)).map Write.target = ids.map Slice.bytes := List.map_map
  by_cases isListed : key ∈ ids.map Slice.bytes
  · obtain ⟨id, isId, rfl⟩ := List.mem_map.mp isListed
    exact eventsOf_runs (targets ▸ distinct) (List.mem_map_of_mem isId)
  · rw [eventsOf_runs_of_notMem (targets ▸ isListed), all key isListed]

include present distinct in
/-- Sections with all streams of a represented log are imported as these streams. -/
theorem importChunk_restores_streams {inner : Inner} (represents : Represents inner log)
    (all : ∀ key, key ∉ ids.map Slice.bytes → log.stream key = [])
    (values : sections.map readValues =
      ids.map fun id => (id.bytes, (log.stream id.bytes).map some))
    (mode : Atomicity) :
    ∃ report after, (importChunk inMemoryStore sections id mode).exec .default =
        (.ok report, after) ∧
      report.allComplete = true ∧ after.streams = inner.streams := by
  have sameValues : sections.map readValues =
      (wholeStreams log ids present).map WholeStream.values :=
    values.trans (map_wholeStreams present fun _ _ => rfl).symm
  have sameKeys : (wholeStreams log ids present).map WholeStream.key = ids.map Slice.bytes :=
    map_wholeStreams present fun _ _ => rfl
  have sameWrites : (wholeStreams log ids present).map WholeStream.toWrite =
      ids.map (streamRun log) := map_wholeStreams present fun _ _ => rfl
  obtain ⟨report, after, restored, ran, complete, relatedAfter, entries⟩ :=
    importChunk_restores inMemory_importable.implements represents_default sameValues
      (sameKeys ▸ distinct) (sameWrites ▸ acceptable_streamRuns distinct represents.bounded) mode
  refine ⟨report, after, ran, complete, ?_⟩
  apply Std.ExtHashMap.ext_getElem?
  intro key
  have sameEvents : eventsOf restored.entries key = eventsOf log.entries key := by
    rw [entries, sameWrites]
    exact eventsOf_streamRuns distinct all key
  rw [relatedAfter.streams.rows key, represents.streams.rows key, sameEvents]

end Restore

/-- What an export of a session and the import of its backup guarantee. -/
structure Transfers (libs : Libraries) (source : Source) (batchSize : BatchSize)
    (session : InMemoryExportSession) (ids : List Slice) : Prop where
  /-- In time and with enough polls the export succeeds, and a sink that never fails
  gets a finished backup exactly if its bytes can be counted. -/
  exports : (∀ moment, source.now moment < session.deadline) →
    ∃ enough, ∀ polls, enough ≤ polls →
      ∃ scripts, exportChunk source batchSize session ids polls = .ok scripts ∧
        ∀ (sink : Sink) (origin : Option Slice), sink.NeverFails →
          ((runWriter libs sink origin scripts true).finished = some (.ok ()) ↔
            (finished libs origin (scriptItems scripts)).length < 2 ^ 64)
  /-- A finished backup is decoded, and its import in either mode gives the streams
  of the source as they were when the session was opened. -/
  restores : ∀ {polls : Nat} {scripts : List (SectionScript SourceError)},
    exportChunk source batchSize session ids polls = .ok scripts →
    ∀ (sink : Sink) (origin : Option Slice),
      (runWriter libs sink origin scripts true).finished = some (.ok ()) →
      ∃ sections,
        decodeChunk libs (sink.contents (runWriter libs sink origin scripts true).left) =
          .ok sections ∧
        ∀ mode, ∃ report after,
          (importChunk inMemoryStore sections id mode).exec .default = (.ok report, after) ∧
            report.allComplete = true ∧ after.streams = (source.inner 0).streams

theorem listStreams_eq_ok {session : InMemoryExportSession} :
    session.listStreams now ids = .ok listing ↔
      now < session.deadline ∧ ⟨some ids, session.deadline⟩ = listing := by
  simp only [InMemoryExportSession.listStreams, bind_eq_ok, checkLive_eq_ok, pure_eq_ok,
    exists_const, Except.ok.injEq]

theorem map_writtenValues (scripts : List (SectionScript SourceError)) :
    (scripts.map fun script => writtenValues script.contents) =
      (scripts.map sectionValues).map fun entry => (entry.1, entry.2.map some) := by
  rw [List.map_map]
  congr 1
  funext script
  simp [writtenValues, sectionValues, Function.comp_def]

theorem encodable_of_sectionValues {log : Log} (bounded : log.Bounded limits)
    {scripts : List (SectionScript SourceError)} {ids : List Slice}
    (values : scripts.map sectionValues = ids.map fun id => (id.bytes, log.stream id.bytes)) :
    ∀ script ∈ scripts, ∀ event ∈ script.contents.2, Encodable event := by
  intro script isScript event isEvent
  have among : sectionValues script ∈ ids.map fun id => (id.bytes, log.stream id.bytes) :=
    values ▸ List.mem_map_of_mem isScript
  obtain ⟨id, _, same⟩ := List.mem_map.mp among
  have sameEvents : log.stream id.bytes = script.contents.2.map PersistedEnvelope.toPending :=
    congrArg Prod.snd same
  have stored : event.toPending ∈ log.stream id.bytes := by
    rw [sameEvents]
    exact List.mem_map_of_mem isEvent
  have fits := (bounded.admitted _ (mem_eventsOf.mp stored)).2
  exact encodable_iff.mpr (of_decide_eq_true fits)

/-- The backup of a session, taken while others write to the store, restores the
streams that the store had when the session was opened. -/
theorem exported_session_restores_streams {libs : Libraries} (lawful : libs.Lawful)
    (source : Source) (batchSize : BatchSize) {clockLimit lifetime : Nat}
    {session : InMemoryExportSession}
    (opened : openExportSession clockLimit lifetime (source.now 0) (source.inner 0) = .ok session)
    {ids : List Slice} (listed : Lists session ids) :
    Transfers libs source batchSize session ids := by
  obtain ⟨log, represents, more⟩ := source.exists_log
  have bounded := represents.bounded
  have heads := represents.heads_of_open opened
  have hasEvents : ∀ key : StreamKey, headAmong session.heads key ≠ none ↔ log.stream key ≠ [] := by
    intro key
    simp [heads key, headOf]
  constructor
  · intro inTime
    refine ⟨log.count + ids.length + 1, fun polls enough => ?_⟩
    have longEnough : ∀ key, (log.stream key).length < polls := by
      intro key
      have inLog := log.length_stream_le key
      omega
    obtain ⟨scripts, exported, complete⟩ : ∃ scripts,
        exportSections source batchSize session polls polls 2 ⟨some ids, session.deadline⟩ =
          .ok scripts ∧ AllComplete scripts :=
      exportSections_complete bounded more heads rfl inTime inTime (by omega) longEnough
    have listing : session.listStreams (source.now 1) ids = .ok ⟨some ids, session.deadline⟩ :=
      listStreams_eq_ok.mpr ⟨inTime 1, rfl⟩
    refine ⟨scripts, ?_, ?_⟩
    · rw [exportChunk, listing]
      exact exported
    · intro sink origin never
      obtain ⟨ends, fits⟩ := runWriter_ends lawful sink origin scripts true
      refine ⟨fun isOk => ?_, runWriter_succeeds lawful never complete⟩
      rw [← (ends.of_finished isOk).2.2]
      exact fits
  · intro polls scripts exported sink origin isOk
    obtain ⟨ends, fits⟩ := runWriter_ends lawful sink origin scripts true
    obtain ⟨_, complete, whole⟩ := ends.of_finished isOk
    obtain ⟨listing, listedInTime, exported⟩ := bind_eq_ok.mp exported
    obtain ⟨_, rfl⟩ := listStreams_eq_ok.mp (mapError_eq_ok.mp listedInTime)
    have values := sectionValues_of_exportSections bounded more heads rfl exported complete
    rw [whole] at fits ⊢
    obtain ⟨sections, decoded, read⟩ :=
      decodeChunk_written lawful (encodable_of_sectionValues bounded values) fits
    rw [map_writtenValues, values, List.map_map] at read
    refine ⟨sections, decoded, fun mode => ?_⟩
    apply importChunk_restores_streams _ listed.distinct represents _ read mode
    · intro id isId
      exact (hasEvents id.bytes).mp ((listed.streams id.bytes).mp (List.mem_map_of_mem isId))
    · intro key absent
      by_contra nonempty
      exact absent ((listed.streams key).mpr ((hasEvents key).mpr nonempty))

/-- Another event for the first stream and a new stream, in one transaction. -/
def growth : Call :=
  .atomicAppendMany [
    { freshRun [1] with
      expectedVersion := some .initial
      head := secondEvent },
    freshRun [2]]

/-- A store with one event that grows behind the first moment. -/
def growingSource : Source where
  inner
    | 0 => machine.run [(freshRun [1]).toCall]
    | _ + 1 => machine.run [(freshRun [1]).toCall, growth]
  now _ := 0
  reached := ⟨_, rfl⟩
  continued
    | 0 => ⟨[growth], rfl⟩
    | _ + 1 => ⟨[], rfl⟩

/-- The transaction is committed behind the opening of the session, and the backup
restores the stream in front of it. -/
theorem growing_store_restores_streams :
    (machine.step (growingSource.inner 0) growth).1.position = some (some 3) ∧
      ∃ session, openExportSession (2 ^ 64) 60 (growingSource.now 0) (growingSource.inner 0) =
          .ok session ∧
        (∀ moment, growingSource.now moment < session.deadline) ∧
        Transfers cbor growingSource ⟨1, by decide, by decide⟩ session [⟨[1], by decide⟩] := by
  have related : Represents (growingSource.inner 0) _ :=
    implements.refines.run [(freshRun [1]).toCall]
  have entries : ((logMachine limits).run [(freshRun [1]).toCall]).entries =
      [([1], (freshRun [1]).head)] := by decide +kernel
  obtain ⟨session, opened, inTime⟩ : ∃ session,
      openExportSession (2 ^ 64) 60 (growingSource.now 0) (growingSource.inner 0) = .ok session ∧
        0 < session.deadline := ⟨_, rfl, Nat.zero_lt_succ 59⟩
  have heads := related.heads_of_open opened
  refine ⟨(implements.refines.answer [(freshRun [1]).toCall] growth).trans (by decide +kernel),
    session, opened, fun _ => inTime, ?_⟩
  apply exported_session_restores_streams cbor_lawful growingSource _ opened
  refine ⟨by decide, fun key => ?_⟩
  rw [heads key, headOf, EventLog.stream, entries]
  by_cases same : key = [1]
  · simp [eventsOf, same]
  · simp [eventsOf, same, Ne.symm same]

end Mnesis.Transfer
