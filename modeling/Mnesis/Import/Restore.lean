import Mnesis.Chunk.Recover
import Mnesis.Import.WholeChunk

/-!
# Restoring whole streams

Sections that hold whole streams have complete plans.  An import of them into an
empty store, in either mode, stores these streams and nothing else.
-/

namespace Mnesis.Import

open Foundation Kernel Store Chunk

/-- A stream with all its events. -/
structure WholeStream where
  key : StreamKey
  events : List PendingEnvelope
  nonempty : events ≠ []
  numbered : events.map versionNumber = List.range' 1 events.length

namespace WholeStream

/-- What a section for a stream reads as. -/
def values (stream : WholeStream) : Bytes × List (Option PendingEnvelope) :=
  (stream.key, stream.events.map some)

/-- The run that stores a stream. -/
def toWrite (stream : WholeStream) : Write StreamKey PendingEnvelope :=
  ⟨stream.key, 0, stream.events⟩

end WholeStream

theorem planBlocks_whole (values : blocks.map blockValues = events.map some)
    (numbered : events.map versionNumber = List.range' (last.toNat + 1) events.length) :
    ∃ stop, planBlocks last blocks = .ok (events, stop, .complete) := by
  induction blocks generalizing last events with
  | nil =>
    obtain rfl : events = [] := by simpa using values.symm
    exact ⟨last, rfl⟩
  | cons block blocks step =>
    cases events with
    | nil => cases values
    | cons first events =>
      rw [List.map_cons, List.map_cons, List.cons.injEq] at values
      rw [List.map_cons, List.length_cons, List.range'_succ, List.cons.injEq] at numbered
      cases block with
      | corrupt => cases values.1
      | event event =>
        have isFirst : event.toPending = first := Option.some.inj values.1
        have follows : event.version.toNat = last.toNat + 1 := by
          rw [← numbered.1, ← isFirst]
          rfl
        have next : last.next = some event.version := Version.next_eq_some.mpr follows
        obtain ⟨stop, planned⟩ := step values.2 (follows ▸ numbered.2)
        refine ⟨stop, ?_⟩
        simp only [planBlocks, next, okOr_some, ok_bind, ne_eq, not_true_eq_false,
          if_false, planned, isFirst]
        rfl

theorem planSection_whole {stream : WholeStream} (values : readValues entry = stream.values) :
    ∃ run, planSection entry = .ok (.run run) ∧ run.halt = .complete ∧
      (run.toAppend entry.origin).toWrite = stream.toWrite := by
  obtain ⟨origin, blocks⟩ := entry
  obtain ⟨key, events, nonempty, numbered⟩ := stream
  obtain ⟨rfl, values⟩ := Prod.mk.inj values
  cases events with
  | nil => exact absurd rfl nonempty
  | cons first events =>
    cases blocks with
    | nil => cases values
    | cons block blocks =>
      rw [List.map_cons, List.map_cons, List.cons.injEq] at values
      rw [List.map_cons, List.length_cons, List.range'_succ, List.cons.injEq] at numbered
      cases block with
      | corrupt => cases values.1
      | event event =>
        have isFirst : event.toPending = first := Option.some.inj values.1
        have one : event.version.toNat = 1 := by
          rw [← numbered.1, ← isFirst]
          rfl
        have numberedRest : events.map versionNumber =
            List.range' (event.version.toNat + 1) events.length := by
          rw [one]
          exact numbered.2
        obtain ⟨stop, planned⟩ := planBlocks_whole values.2 numberedRest
        have expected : depth ((checkedSub event.version.asU64 1).bind
            Version.new) = 0 := by
          have reached := depth_checkedSub event.version
          omega
        refine ⟨⟨event.version, (checkedSub event.version.asU64 1).bind Version.new,
          event.toPending, events, stop, .complete⟩, ?_, rfl, ?_⟩
        · simp only [planSection, planned, ok_bind]
          rfl
        · simp only [PlannedRun.toAppend, PlannedAppend.toWrite, PlannedAppend.batch,
            PendingBatch.toList, WholeStream.toWrite, expected, isFirst]

theorem completeRuns_whole {streams : List WholeStream}
    (values : sections.map readValues = streams.map WholeStream.values) :
    ∃ runs, CompleteRuns (routed sections id) runs ∧
      (appendsOf runs).map PlannedAppend.toWrite = streams.map WholeStream.toWrite := by
  induction sections generalizing streams with
  | nil =>
    obtain rfl : streams = [] := by simpa using values.symm
    exact ⟨[], .nil, rfl⟩
  | cons entry sections step =>
    cases streams with
    | nil => cases values
    | cons stream streams =>
      rw [List.map_cons, List.map_cons, List.cons.injEq] at values
      obtain ⟨run, planned, halt, isWrite⟩ := planSection_whole values.1
      obtain ⟨runs, complete, writes⟩ := step values.2
      refine ⟨(entry.origin, run) :: runs, .keep planned halt complete, ?_⟩
      rw [List.map_cons, ← isWrite, ← writes]
      rfl

section Imports

variable {State AdapterError : Type} {represents : State → Log → Prop} {streams : List WholeStream}

/-- Streams that an empty log accepts are restored by an import in either mode. -/
theorem importChunk_restores (implements : Implements (store.machine initial) limits represents)
    (related : represents state (.empty versionNumber))
    (values : sections.map readValues = streams.map WholeStream.values)
    (distinct : (streams.map WholeStream.key).Nodup)
    (acceptable : EventLog.Acceptable limits (.empty versionNumber)
      (streams.map WholeStream.toWrite))
    (mode : Atomicity) :
    ∃ report after log, (importChunk store sections id mode).exec state = (.ok report, after) ∧
      report.allComplete = true ∧ represents after log ∧
      log.entries = (streams.map WholeStream.toWrite).flatMap Write.entries := by
  have distinctTargets : ((streams.map WholeStream.toWrite).map Write.target).Nodup := by
    rw [List.map_map]
    exact distinct
  have sameKeys : (sections.map fun entry => id entry.origin) = streams.map WholeStream.key := by
    have keys := congrArg (List.map Prod.fst) values
    rw [List.map_map, List.map_map] at keys
    exact keys
  obtain ⟨runs, isPlan, writes⟩ := completeRuns_whole values
  obtain ⟨log, added⟩ := acceptable.exists_foldlM distinctTargets
  have entries := (EventLog.acceptable_of_foldlM (Nat.zero_le _) distinctTargets added).2
  rw [← writes] at added
  obtain ⟨after, relatedAfter, ran⟩ := isPlan.imports implements related added
  have perStream : (importPerStream store sections id).exec state =
      (.ok ⟨completeReports runs⟩, after) := by
    rw [exec_importPerStream (sameKeys ▸ distinct), exec_bind_of_ok ran]
    rfl
  have complete : (⟨completeReports runs⟩ : ImportReport).allComplete = true :=
    allComplete_iff.mpr (allComplete_completeReports runs)
  refine ⟨⟨completeReports runs⟩, after, log, ?_, complete, relatedAfter, entries⟩
  cases mode with
  | perStream => exact perStream
  | wholeChunk =>
    rcases imports_cases implements related sections id with
      ⟨report, stored, _, whole, alike⟩ | ⟨_, incomplete⟩
    · rw [perStream] at alike
      cases alike
      exact whole
    · exact absurd complete (incomplete perStream)

end Imports

end Mnesis.Import
