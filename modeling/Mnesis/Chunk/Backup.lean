import Mnesis.Chunk.Codec
import Mnesis.Chunk.Recover

/-!
# Backups

A writer is opened, sections are written, and the backup is finished or kept
unfinished, with any sink and any sources.  A finished backup is decoded to what
was written.  Nothing else is accepted by normal decoding, and salvage recovers
from every prefix the items that are wholly in it.
-/

namespace Mnesis.Chunk

open Foundation Kernel Store Wire Import

variable {libs : Libraries} {sink : Sink} {SourceError : Type}

/-- How a run of a writer ends, and what it leaves. -/
inductive RunEnds (libs : Libraries) (origin : Option Slice)
    (scripts : List (SectionScript SourceError)) (run : WriterRun sink SourceError) : Prop
  /-- The backup was not finished. -/
  | unfinished
      (notCalled : run.finished = none)
      (answers : (∀ answer ∈ run.answers, answer = .ok ()) ∨ StoppedAt run.answers)
      (part : sink.contents run.left <+: layout libs origin (scriptItems scripts))
  /-- Some operation did not succeed. -/
  | refused
      (stopped : StoppedAt run.answers)
      (poisoned : run.finished = some (.error .poisoned))
      (part : sink.contents run.left <+: layout libs origin (scriptItems scripts))
  /-- All operations succeeded, but the completion record could not be written. -/
  | failed
      (succeeded : ∀ answer ∈ run.answers, answer = .ok ())
      (error : WriteError sink.Error)
      (isError : run.finished = some (.error error))
      (part : sink.contents run.left <+: finished libs origin (scriptItems scripts))
  /-- All operations succeeded, and the completion record was written. -/
  | completed
      (succeeded : ∀ answer ∈ run.answers, answer = .ok ())
      (complete : AllComplete scripts)
      (isOk : run.finished = some (.ok ()))
      (whole : sink.contents run.left = finished libs origin (scriptItems scripts))

section Runs

variable (lawful : libs.Lawful)
include lawful

theorem runEnds_unfinished (wrote : writer.Wrote libs origin []) :
    RunEnds libs origin scripts (⟨.ok (), (runSections libs scripts writer).1, none,
        (runSections libs scripts writer).2.enc.inner⟩ : WriterRun sink SourceError) ∧
      (sink.contents (runSections libs scripts writer).2.enc.inner).length < 2 ^ 64 := by
  rcases runSections_ran lawful wrote scripts with ⟨succeeded, _, wroteAll⟩ | ⟨stopped, torn⟩
  · refine ⟨.unfinished rfl (.inl succeeded) ?_, wroteAll.enc.fits⟩
    exact wroteAll.enc.contents ▸ List.prefix_refl _
  · exact ⟨.unfinished rfl (.inr stopped) torn.part, torn.fits⟩

/-- An open writer writes sections and is finished. -/
theorem runEnds_finished (wrote : writer.Wrote libs origin []) :
    RunEnds libs origin scripts (⟨.ok (), (runSections libs scripts writer).1,
        some ((ChunkWriter.finish libs).exec (runSections libs scripts writer).2).1,
        ((ChunkWriter.finish libs).exec (runSections libs scripts writer).2).2.enc.inner⟩ :
          WriterRun sink SourceError) ∧
      (sink.contents ((ChunkWriter.finish libs).exec
        (runSections libs scripts writer).2).2.enc.inner).length < 2 ^ 64 := by
  rcases runSections_ran lawful wrote scripts with ⟨succeeded, complete, wroteAll⟩ | ⟨stopped, torn⟩
  · have ends := ChunkWriter.finish_ends lawful wroteAll
    unfold Locked.Ends at ends
    split at ends
    next value after ran =>
      rw [ran]
      exact ⟨.completed succeeded complete rfl ends.contents, ends.fits⟩
    next error after ran =>
      rw [ran]
      exact ⟨.failed succeeded error rfl ends.1, ends.2.1⟩
  · rw [ChunkWriter.exec_finish_of_poisoned torn.poisoned]
    exact ⟨.refused stopped rfl torn.part, torn.fits⟩

theorem runWriter_ends (sink : Sink) (origin : Option Slice)
    (scripts : List (SectionScript SourceError)) (finishes : Bool) :
    RunEnds libs origin scripts (runWriter libs sink origin scripts finishes) ∧
      (sink.contents (runWriter libs sink origin scripts finishes).left).length < 2 ^ 64 := by
  have opened := @ChunkWriter.new_wrote sink libs lawful origin
  unfold runWriter
  generalize ChunkWriter.new libs origin = result at opened ⊢
  rcases result with ⟨error | writer, left⟩
  · refine ⟨.unfinished rfl (.inl (by simp)) ?_, opened.2.1⟩
    exact prefix_layout_append opened.1 (scriptItems scripts)
  · cases finishes with
    | false => exact runEnds_unfinished lawful opened.1
    | true => exact runEnds_finished lawful opened.1

/-- A sink that takes everything, sources that run to their end, and a backup whose length a
word can count: then the backup is finished. -/
theorem runWriter_succeeds (never : sink.NeverFails) (complete : AllComplete scripts)
    (fits : (finished libs origin (scriptItems scripts)).length < 2 ^ 64) :
    (runWriter libs sink origin scripts true).finished = some (.ok ()) := by
  have layoutFits : (layout libs origin ([] ++ scriptItems scripts)).length < 2 ^ 64 := by
    rw [finished, List.length_append] at fits
    rw [List.nil_append]
    omega
  have opened := @ChunkWriter.new_wrote sink libs lawful origin
  unfold runWriter
  generalize ChunkWriter.new libs origin = result at opened ⊢
  rcases result with ⟨error | writer, left⟩
  · have header := prefix_layout_append (List.prefix_refl (layout libs origin []))
      (scriptItems scripts)
    exact absurd (Nat.lt_of_le_of_lt header.length_le layoutFits) (opened.2.2 never).not_gt
  · rcases runSections_ran lawful opened.1 scripts with ⟨_, _, wroteAll⟩ | ⟨_, torn⟩
    · have ends := ChunkWriter.finish_ends lawful wroteAll
      unfold Locked.Ends at ends
      split at ends
      next value after ran =>
        change some ((ChunkWriter.finish libs).exec (runSections libs scripts writer).2).1 = _
        rw [ran]
      next => exact absurd fits (ends.2.2 never).not_gt
    · exact absurd layoutFits (torn.overflows never complete).not_gt

omit lawful in
theorem runWriter_not_called (libs : Libraries) (sink : Sink) (origin : Option Slice)
    (scripts : List (SectionScript SourceError)) :
    (runWriter libs sink origin scripts false).finished = none := by
  unfold runWriter
  split <;> rfl

end Runs

theorem RunEnds.of_finished (ends : RunEnds libs origin scripts run)
    (isOk : run.finished = some (.ok ())) :
    (∀ answer ∈ run.answers, answer = .ok ()) ∧ AllComplete scripts ∧
      sink.contents run.left = finished libs origin (scriptItems scripts) := by
  cases ends with
  | unfinished notCalled => cases notCalled.symm.trans isOk
  | refused _ poisoned => cases poisoned.symm.trans isOk
  | failed _ _ isError => cases isError.symm.trans isOk
  | completed succeeded complete _ whole => exact ⟨succeeded, complete, whole⟩

section Salvage

variable (lawful : libs.Lawful)
include lawful

theorem eq_finished_of_complete (placed : Placed [] items)
    (isPrefix : cut <+: finished libs origin items) (fits : cut.length < 2 ^ 64)
    (recovered : salvageChunk libs cut = .ok salvaged) (complete : salvaged.completion = .ok ()) :
    cut = finished libs origin items := by
  by_cases long : (headerBytes libs origin).length ≤ cut.length
  · rw [salvageChunk_behind_header lawful placed isPrefix fits long, salvagedOf] at recovered
    split at recovered
    next sections read =>
      cases recovered
      by_contra different
      rw [if_neg different] at complete
      cases complete
    next => cases recovered
  · obtain ⟨error, failed⟩ := salvageChunk_in_header lawful isPrefix (Nat.lt_of_not_le long)
    rw [failed] at recovered
    cases recovered

theorem completion_of_finished (placed : Placed [] items)
    (fits : (finished libs origin items).length < 2 ^ 64)
    (recovered : salvageChunk libs (finished libs origin items) = .ok salvaged) :
    salvaged.completion = .ok () := by
  rw [salvageChunk_behind_header lawful placed (List.prefix_refl _) fits (header_le_finished _ _),
    salvagedOf] at recovered
  split at recovered
  next sections read =>
    cases recovered
    exact if_pos rfl
  next => cases recovered

theorem eq_finished_of_decodeChunk (placed : Placed [] items)
    (isPrefix : cut <+: finished libs origin items) (fits : cut.length < 2 ^ 64)
    (accepted : decodeChunk libs cut = .ok sections) :
    cut = finished libs origin items := by
  obtain ⟨header, salvaged⟩ := salvage_of_decodeChunk accepted
  exact eq_finished_of_complete lawful placed isPrefix fits salvaged rfl

theorem ne_finished_of_layout (part : cut <+: layout libs origin items) :
    cut ≠ finished libs origin items := by
  rintro rfl
  have shorter := part.length_le
  have record := List.length_pos_iff.mpr (completionBytes_ne_nil lawful origin items)
  rw [finished, List.length_append] at shorter
  omega

end Salvage

/-- A growing byte vector. -/
def vecSink : Sink where
  State := Bytes
  Error := Empty
  initial := []
  writeAll bytes state := (.ok (), state ++ bytes)
  contents state := state
  contents_initial := rfl
  contents_ok := by
    rintro bytes state _ ⟨⟩
    rfl
  contents_error := by
    intro bytes state error
    exact error.elim

theorem vecSink_neverFails : vecSink.NeverFails := fun _ _ => ⟨_, rfl⟩

/-- An event whose payload is as long as a payload can be. -/
def giantEvent : PersistedEnvelope where
  version := .initial
  value := List.replicate (2 ^ 32 - 1) 0
  schemaVersion := .initial
  eventTypeRange := ⟨0, 0⟩
  payloadRange := ⟨0, 4294967295⟩
  metadataRange := none
  checked := by
    apply checkRanges_eq_ok.mpr
    have empty : (⟨0, 0⟩ : ByteRange).slice (List.replicate (2 ^ 32 - 1) 0) = [] :=
      List.extract_eq_take_drop.trans List.take_zero
    rw [empty]
    refine ⟨⟨Nat.le_refl 0, Nat.zero_le _⟩, ⟨Nat.zero_le _, ?_⟩, ?_, Nat.zero_le _, rfl⟩
    · rw [List.length_replicate]
      decide
    · intro range isRange
      cases isRange

theorem eventType_giantEvent : giantEvent.toPending.eventType.asBytes = [] :=
  List.extract_eq_take_drop.trans List.take_zero

theorem length_payload_giantEvent : giantEvent.toPending.payload.asSlice.length = 2 ^ 32 - 1 := by
  have inside := (checkRanges_eq_ok.mp giantEvent.checked).2.1
  exact inside.length_slice

theorem not_encodable_giantEvent : ¬ Encodable giantEvent := by
  rw [encodable_iff, envelopeLen, eventType_giantEvent, length_payload_giantEvent]
  decide

theorem giantEvent_refused :
    ∃ error, reconstruct (ChunkWriter.bodyOf giantEvent) = .error (.wire error) := by
  apply reconstruct_of_not_encodable _ not_encodable_giantEvent
  rw [compactLen, eventType_giantEvent, length_payload_giantEvent]
  decide

/-- A section with one event. -/
def oneEvent (event : PersistedEnvelope) : List (SectionScript Empty) :=
  [⟨⟨[], by decide⟩, [.block event]⟩]

theorem length_block_le (event : PersistedEnvelope) :
    (Item.bytes cbor (.block event)).length ≤ 2 ^ 36 := by
  have body := length_writeBody_le cbor_lawful (eventFits_bodyOf event)
  have head := length_head 4 2
  have crc := cbor_lawful.length_u32 (ChunkWriter.blockOf cbor event).crc
  have bytes := cbor_lawful.length_bytes (ChunkWriter.blockOf cbor event).body
  change (List.flatten (cbor.writeArray 2 ++ (cbor.writeU32 _ ++ cbor.writeBytes _))).length ≤ _
  rw [List.flatten_append, List.flatten_append, List.length_append, List.length_append]
  change [Cbor.writeHead 4 2].flatten.length + _ ≤ _
  change List.length (ChunkWriter.blockOf cbor event).body ≤ _ at body
  omega

theorem length_completionPieces_le (completion : Completion) :
    (ChunkWriter.completionPieces cbor completion).flatten.length ≤ 54 := by
  have tag := length_head 6 completionTag.toNat
  have array := length_head 4 4
  have sections := cbor_lawful.length_u64 completion.sections
  have events := cbor_lawful.length_u64 completion.events
  have length := cbor_lawful.length_u64 completion.length
  have crc := cbor_lawful.length_u32 completion.crc
  unfold ChunkWriter.completionPieces
  simp only [List.flatten_append, List.length_append]
  change [Cbor.writeHead 6 completionTag.toNat].flatten.length +
    ([Cbor.writeHead 4 4].flatten.length + _) ≤ _
  omega

theorem length_oneEvent_lt (event : PersistedEnvelope) :
    (finished cbor none (scriptItems (oneEvent event))).length < 2 ^ 64 := by
  have header : (headerBytes cbor none ++ Item.bytes cbor (.heading ⟨[], by decide⟩)).length ≤
    2 ^ 10 := by decide +kernel
  have block := length_block_le event
  have completion := length_completionPieces_le
    (completionOf cbor none (scriptItems (oneEvent event)))
  have items : ((scriptItems (oneEvent event)).flatMap (Item.bytes cbor)).length =
      (Item.bytes cbor (.heading ⟨[], by decide⟩)).length +
        (Item.bytes cbor (.block event)).length := by
    change (List.flatMap _ [_, _]).length = _
    rw [List.flatMap_cons, List.flatMap_singleton, List.length_append]
  rw [List.length_append] at header
  rw [finished, layout, completionBytes, List.length_append, List.length_append, items]
  omega

theorem oneEvent_complete (event : PersistedEnvelope) : AllComplete (oneEvent event) :=
  List.forall_mem_singleton.mpr (List.forall_mem_singleton.mpr trivial)

theorem oneEvent_finished (event : PersistedEnvelope) :
    (runWriter cbor vecSink none (oneEvent event) true).finished = some (.ok ()) :=
  runWriter_succeeds cbor_lawful vecSink_neverFails (oneEvent_complete event)
    (length_oneEvent_lt event)

theorem contents_oneEvent (event : PersistedEnvelope) :
    vecSink.contents (runWriter cbor vecSink none (oneEvent event) true).left =
      finished cbor none (scriptItems (oneEvent event)) := by
  obtain ⟨ends, _⟩ := runWriter_ends cbor_lawful vecSink none (oneEvent event) true
  exact (ends.of_finished (oneEvent_finished event)).2.2

/-- An event with metadata. -/
def smallEvent : PersistedEnvelope where
  version := .initial
  value := [101, 7, 9]
  schemaVersion := .initial
  eventTypeRange := ⟨0, 1⟩
  payloadRange := ⟨2, 3⟩
  metadataRange := some ⟨1, 2⟩
  checked := by decide

theorem oneEvent_encodable (encodable : Encodable event) :
    ∀ script ∈ oneEvent event, ∀ other ∈ script.contents.2, Encodable other :=
  List.forall_mem_singleton.mpr (List.forall_mem_singleton.mpr encodable)

theorem smallEvent_encodable : Encodable smallEvent := encodable_iff.mpr (by decide)

theorem salvageChunk_oneEvent_refused
    (refused : reconstruct (ChunkWriter.bodyOf event) = .error error) :
    salvageChunk cbor (vecSink.contents (runWriter cbor vecSink none (oneEvent event) true).left) =
      .error (.event error) := by
  have read : (scriptItems (oneEvent event)).foldlM readItem [] = .error error := by
    change (readItem [⟨[], []⟩] (.block event) >>= _) = _
    rw [readItem_block, refused]
    rfl
  rw [contents_oneEvent, salvageChunk_behind_header cbor_lawful
    (placed_scriptItems (oneEvent event)) (List.prefix_refl _) (length_oneEvent_lt event)
    (header_le_finished _ _), salvagedOf, itemsWithin_finished, read]

/-- A run is finished exactly if its bytes can be counted, and the sink is then
decoded to what was written. -/
structure RoundTrips (libs : Libraries) (origin : Option Slice)
    (scripts : List (SectionScript SourceError)) (run : WriterRun sink SourceError) : Prop where
  finishes : run.finished = some (.ok ()) ↔
    (finished libs origin (scriptItems scripts)).length < 2 ^ 64
  decoded : run.finished = some (.ok ()) →
    ∃ sections, decodeChunk libs (sink.contents run.left) = .ok sections ∧
      sections.map readValues = scripts.map fun script => writtenValues script.contents
  header : run.finished = some (.ok ()) →
    decodeHeader libs (sink.contents run.left) = .ok ⟨2, origin.map Slice.bytes⟩

/-- What was written is what a finished backup is decoded to. -/
theorem decodeChunk_written (lawful : libs.Lawful) {scripts : List (SectionScript SourceError)}
    (encodable : ∀ script ∈ scripts, ∀ event ∈ script.contents.2, Encodable event)
    (fits : (finished libs origin (scriptItems scripts)).length < 2 ^ 64) :
    ∃ sections, decodeChunk libs (finished libs origin (scriptItems scripts)) = .ok sections ∧
      sections.map readValues = scripts.map fun script => writtenValues script.contents := by
  obtain ⟨sections, decoded, values⟩ := decodeChunk_finished lawful (placed_scriptItems scripts)
    (allEncodable_scriptItems encodable) fits
  refine ⟨sections, decoded, ?_⟩
  rw [values, sectionsOf_scriptItems, List.map_map]
  rfl

/-- Sections of any events that can be encoded are decoded as they were written. -/
theorem written_backup_round_trips (lawful : libs.Lawful) (never : sink.NeverFails)
    {scripts : List (SectionScript SourceError)} (complete : AllComplete scripts)
    (encodable : ∀ script ∈ scripts, ∀ event ∈ script.contents.2, Encodable event)
    (origin : Option Slice) :
    RoundTrips libs origin scripts (runWriter libs sink origin scripts true) := by
  obtain ⟨ends, fits⟩ := runWriter_ends lawful sink origin scripts true
  refine ⟨⟨?_, runWriter_succeeds lawful never complete⟩, ?_, ?_⟩
  · intro isOk
    rw [← (ends.of_finished isOk).2.2]
    exact fits
  · intro isOk
    rw [(ends.of_finished isOk).2.2] at fits ⊢
    exact decodeChunk_written lawful encodable fits
  · intro isOk
    rw [(ends.of_finished isOk).2.2]
    exact decodeHeader_finished lawful origin (scriptItems scripts)

/-- A backup of one event with metadata. -/
theorem small_backup_round_trips :
    (runWriter cbor vecSink none (oneEvent smallEvent) true).finished = some (.ok ()) ∧
      ∃ sections, decodeChunk cbor
        (vecSink.contents (runWriter cbor vecSink none (oneEvent smallEvent) true).left) =
          .ok sections ∧
        sections.map readValues = [([], [some smallEvent.toPending])] := by
  have trips := written_backup_round_trips cbor_lawful vecSink_neverFails
    (oneEvent_complete smallEvent) (oneEvent_encodable smallEvent_encodable) none
  have isOk := trips.finishes.mpr (length_oneEvent_lt smallEvent)
  exact ⟨isOk, trips.decoded isOk⟩

/-- What runs of a writer guarantee, whatever the sink and the sources do. -/
structure RunGuarantees (libs : Libraries) (scripts : List (SectionScript SourceError))
    (run : WriterRun sink SourceError) : Prop where
  /-- A run is finished only if all operations succeeded and all drains ran to
  their end. -/
  succeeded : run.finished = some (.ok ()) →
    (∀ answer ∈ run.answers, answer = .ok ()) ∧ AllComplete scripts
  /-- A finished run is decoded to what was written. -/
  decoded : run.finished = some (.ok ()) →
    (∀ script ∈ scripts, ∀ event ∈ script.contents.2, Encodable event) →
      ∃ sections, decodeChunk libs (sink.contents run.left) = .ok sections ∧
        sections.map readValues = scripts.map fun script => writtenValues script.contents
  /-- Behind an operation that did not succeed everything is refused. -/
  refused : ∀ before answer later, run.answers = before ++ answer :: later → answer ≠ .ok () →
    (∀ other ∈ later, other = refusal) ∧
      ∀ result, run.finished = some result → result = .error .poisoned
  /-- Without a call of `finish` the bytes are not accepted. -/
  unfinished : run.finished = none →
    ∀ sections, decodeChunk libs (sink.contents run.left) ≠ .ok sections

/-- Every run of a writer gives these guarantees. -/
theorem every_run_is_guarded (lawful : libs.Lawful) (sink : Sink) (origin : Option Slice)
    (scripts : List (SectionScript SourceError)) (finishes : Bool) :
    RunGuarantees libs scripts (runWriter libs sink origin scripts finishes) := by
  obtain ⟨ends, fits⟩ := runWriter_ends lawful sink origin scripts finishes
  generalize runWriter libs sink origin scripts finishes = run at ends fits
  refine ⟨?_, ?_, ?_, ?_⟩
  · intro isOk
    exact ⟨(ends.of_finished isOk).1, (ends.of_finished isOk).2.1⟩
  · intro isOk encodable
    rw [(ends.of_finished isOk).2.2] at fits ⊢
    exact decodeChunk_written lawful encodable fits
  · intro before answer later isAnswers failed
    have notAll : ¬ ∀ answer ∈ run.answers, answer = .ok () := fun succeeded =>
      failed (succeeded answer (isAnswers ▸ List.mem_append_right before List.mem_cons_self))
    cases ends with
    | unfinished notCalled answers part =>
      rcases answers with succeeded | stopped
      · exact absurd succeeded notAll
      · refine ⟨(isAnswers ▸ stopped).refused failed, ?_⟩
        intro result isResult
        cases notCalled.symm.trans isResult
    | refused stopped poisoned part =>
      refine ⟨(isAnswers ▸ stopped).refused failed, ?_⟩
      intro result isResult
      exact Option.some.inj (isResult.symm.trans poisoned)
    | failed succeeded => exact absurd succeeded notAll
    | completed succeeded => exact absurd succeeded notAll
  · intro notCalled sections accepted
    cases ends with
    | unfinished _ _ part =>
      have whole := eq_finished_of_decodeChunk lawful (placed_scriptItems scripts)
        (part.trans (List.prefix_append ..)) fits accepted
      exact ne_finished_of_layout lawful part whole
    | refused _ poisoned => cases poisoned.symm.trans notCalled
    | failed _ _ isError => cases isError.symm.trans notCalled
    | completed _ _ isOk => cases isOk.symm.trans notCalled

/-- A run is decoded once it is finished, and refused without. -/
theorem small_backup_is_guarded :
    ((runWriter cbor vecSink none (oneEvent smallEvent) true).finished = some (.ok ()) ∧
      ∃ sections, decodeChunk cbor
        (vecSink.contents (runWriter cbor vecSink none (oneEvent smallEvent) true).left) =
          .ok sections) ∧
    (runWriter cbor vecSink none (oneEvent smallEvent) false).finished = none ∧
      ∀ sections, decodeChunk cbor
        (vecSink.contents (runWriter cbor vecSink none (oneEvent smallEvent) false).left) ≠
          .ok sections := by
  have whole := every_run_is_guarded cbor_lawful vecSink none (oneEvent smallEvent) true
  have kept := every_run_is_guarded cbor_lawful vecSink none (oneEvent smallEvent) false
  have isOk := oneEvent_finished smallEvent
  obtain ⟨sections, decoded, _⟩ := whole.decoded isOk (oneEvent_encodable smallEvent_encodable)
  have notCalled := runWriter_not_called cbor vecSink none (oneEvent smallEvent)
  exact ⟨⟨isOk, sections, decoded⟩, notCalled, kept.unfinished notCalled⟩

/-- An event without a frame is written, and the finished backup is not decoded. -/
theorem giant_backup_is_not_decoded :
    (runWriter cbor vecSink none (oneEvent giantEvent) true).finished = some (.ok ()) ∧
      ∀ sections, decodeChunk cbor
        (vecSink.contents (runWriter cbor vecSink none (oneEvent giantEvent) true).left) ≠
          .ok sections := by
  refine ⟨oneEvent_finished giantEvent, ?_⟩
  intro sections accepted
  obtain ⟨error, refused⟩ := giantEvent_refused
  obtain ⟨header, salvaged⟩ := salvage_of_decodeChunk accepted
  cases (salvageChunk_oneEvent_refused refused).symm.trans salvaged

/-- What salvage recovers of a prefix of what a run left. -/
structure Salvages (libs : Libraries) (origin : Option Slice)
    (scripts : List (SectionScript SourceError)) (run : WriterRun sink SourceError)
    (cut : Bytes) : Prop where
  /-- A part of the header is refused. -/
  inHeader : cut.length < (headerBytes libs origin).length →
    ∃ error, salvageChunk libs cut = .error error
  /-- The sections and events that lie wholly in the prefix are recovered. -/
  recovered : (headerBytes libs origin).length ≤ cut.length →
    AllEncodable (itemsWithin libs origin cut (scriptItems scripts)) →
      ∃ salvaged, salvageChunk libs cut = .ok salvaged ∧
        salvaged.header = headerOf origin ∧
        salvaged.sections.map readValues =
          (sectionsOf (itemsWithin libs origin cut (scriptItems scripts))).map writtenValues ∧
        ∀ entry ∈ salvaged.sections, .corrupt ∉ entry.blocks
  /-- Only the whole of a finished backup is complete. -/
  complete : ∀ salvaged, salvageChunk libs cut = .ok salvaged →
    (salvaged.completion = .ok () ↔ cut = finished libs origin (scriptItems scripts))
  whole : cut = finished libs origin (scriptItems scripts) →
    cut = sink.contents run.left ∧ run.finished ≠ none

theorem RunEnds.called_of_whole (lawful : libs.Lawful) (ends : RunEnds libs origin scripts run)
    (whole : sink.contents run.left = finished libs origin (scriptItems scripts)) :
    run.finished ≠ none := by
  intro notCalled
  cases ends with
  | unfinished _ _ part => exact ne_finished_of_layout lawful part whole
  | refused _ poisoned => cases poisoned.symm.trans notCalled
  | failed _ _ isError => cases isError.symm.trans notCalled
  | completed _ _ isOk => cases isOk.symm.trans notCalled

theorem RunEnds.part_of_finished (ends : RunEnds libs origin scripts run) :
    sink.contents run.left <+: finished libs origin (scriptItems scripts) := by
  cases ends with
  | unfinished _ _ part => exact part.trans (List.prefix_append ..)
  | refused _ _ part => exact part.trans (List.prefix_append ..)
  | failed _ _ _ part => exact part
  | completed _ _ _ whole => exact whole ▸ List.prefix_refl _

/-- Every prefix of what any run left is salvaged. -/
theorem every_cut_is_salvaged (lawful : libs.Lawful) (sink : Sink) (origin : Option Slice)
    (scripts : List (SectionScript SourceError)) (finishes : Bool) {cut : Bytes}
    (isCut : cut <+: sink.contents (runWriter libs sink origin scripts finishes).left) :
    Salvages libs origin scripts (runWriter libs sink origin scripts finishes) cut := by
  obtain ⟨ends, fits⟩ := runWriter_ends lawful sink origin scripts finishes
  generalize runWriter libs sink origin scripts finishes = run at ends fits isCut ⊢
  have placed := placed_scriptItems scripts
  have isPrefix := isCut.trans ends.part_of_finished
  have cutFits := Nat.lt_of_le_of_lt isCut.length_le fits
  refine ⟨salvageChunk_in_header lawful isPrefix, ?_, ?_, ?_⟩
  · intro long encodable
    obtain ⟨sections, salvaged, values⟩ :=
      salvageChunk_of_encodable lawful placed isPrefix cutFits long encodable
    exact ⟨_, salvaged, rfl, values, not_corrupt_of_values values⟩
  · intro salvaged recovered
    refine ⟨eq_finished_of_complete lawful placed isPrefix cutFits recovered, ?_⟩
    rintro rfl
    exact completion_of_finished lawful placed cutFits recovered
  · intro same
    have contents : sink.contents run.left = finished libs origin (scriptItems scripts) :=
      ends.part_of_finished.eq_of_length_le (same ▸ isCut.length_le)
    exact ⟨same.trans contents.symm, ends.called_of_whole lawful contents⟩

/-- Without its last byte a backup still gives its event, and is not complete. -/
theorem small_cut_is_salvaged :
    ∃ salvaged, salvageChunk cbor
        (finished cbor none (scriptItems (oneEvent smallEvent))).dropLast = .ok salvaged ∧
      salvaged.sections.map readValues = [([], [some smallEvent.toPending])] ∧
      salvaged.completion ≠ .ok () := by
  have isCut : (finished cbor none (scriptItems (oneEvent smallEvent))).dropLast <+:
      vecSink.contents (runWriter cbor vecSink none (oneEvent smallEvent) true).left := by
    rw [contents_oneEvent]
    exact List.dropLast_prefix _
  have salvages := every_cut_is_salvaged cbor_lawful vecSink none (oneEvent smallEvent) true isCut
  have within : itemsWithin cbor none
      (finished cbor none (scriptItems (oneEvent smallEvent))).dropLast
        (scriptItems (oneEvent smallEvent)) = scriptItems (oneEvent smallEvent) :=
    wholeItems_of_le (by decide +kernel)
  obtain ⟨salvaged, recovered, _, values, _⟩ := salvages.recovered (by decide +kernel) (by
    rw [within]
    exact allEncodable_scriptItems (oneEvent_encodable smallEvent_encodable))
  refine ⟨salvaged, recovered, ?_, ?_⟩
  · rw [values, within, sectionsOf_scriptItems]
    rfl
  · intro complete
    have whole := (salvages.complete salvaged recovered).mp complete
    exact absurd whole (by decide +kernel)

/-- Behind the header of a backup with an event without a frame, salvage fails. -/
theorem giant_backup_is_not_salvaged :
    (headerBytes cbor none).length ≤
        (vecSink.contents (runWriter cbor vecSink none (oneEvent giantEvent) true).left).length ∧
      ∃ error, salvageChunk cbor
        (vecSink.contents (runWriter cbor vecSink none (oneEvent giantEvent) true).left) =
          .error error := by
  obtain ⟨error, refused⟩ := giantEvent_refused
  refine ⟨?_, .event (.wire error), salvageChunk_oneEvent_refused refused⟩
  rw [contents_oneEvent]
  exact header_le_finished _ _

end Mnesis.Chunk
