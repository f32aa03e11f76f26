import Mnesis.Fjall.Refinement

/-!
# Reads deliver the events of the log

A read scans the keys between two bounds.  The order of the keys is the order of
the versions in a stream and of the positions in the index, so that a scan yields
the events of the log in their order, and the frames hold their values.
-/

namespace Mnesis.Fjall

open Foundation Kernel Store Wire

theorem length_frameBytes (fits : envelopeLen envelope < 2 ^ 32) :
    (frameBytes envelope).length = envelopeLen envelope :=
  length_encodeFrame (encodeFrame_envelope.mpr ⟨fits, rfl⟩)

theorem small_eventRow {id : StreamKey} (short : id.length < 2 ^ 16)
    (fits : envelopeLen envelope < 2 ^ 32) :
    (eventRow (id, envelope)).1.length + (eventRow (id, envelope)).2.length < usizeLimit := by
  change (eventKey id _).length + (frameBytes envelope).length < 2 ^ 64
  rw [length_eventKey, length_frameBytes fits]
  omega

theorem small_globalRow {id : StreamKey} (short : id.length < 2 ^ 16)
    (fits : envelopeLen envelope < 2 ^ 32) (position : Nat) :
    (globalRow ((id, envelope), position)).1.length +
      (globalRow ((id, envelope), position)).2.length < usizeLimit := by
  change (globalKey _ id _).length + (frameBytes envelope).length < 2 ^ 64
  rw [length_globalKey, length_frameBytes fits]
  omega

theorem decode_frameBytes (fits : envelopeLen envelope < 2 ^ 32) (label : StreamKey) :
    ∃ decoded stored, decodeFrame (frameBytes envelope) = .ok decoded ∧
      buildEnvelope (frameBytes envelope) decoded envelope.version.asU64 label = .ok stored ∧
      stored.toPending = envelope := by
  have encoded := encodeFrame_envelope.mpr ⟨fits, rfl⟩
  obtain ⟨stored, isStored, values⟩ := tryNew_encodeFrame encoded envelope.version
  refine ⟨_, stored, decodeFrame_encodeFrame encoded, ?_, values⟩
  rw [buildEnvelope, Version.new_eq_some.mpr rfl, okOr_some, ok_bind, mapError_eq_ok]
  exact isStored

theorem decode_eventRow {id : StreamKey} (short : id.length < 2 ^ 16)
    (fits : envelopeLen envelope < 2 ^ 32) :
    ∃ stored, (streamScan id).decode (eventRow (id, envelope)).1 (eventRow (id, envelope)).2 =
        .ok stored ∧
      stored.toPending = envelope := by
  obtain ⟨decoded, stored, isDecoded, built, values⟩ := decode_frameBytes fits id
  refine ⟨stored, ?_, values⟩
  have key := decodeEventKey_eq_ok.mpr ⟨short, @rfl _ (eventKey id envelope.version.asU64)⟩
  simp only [streamScan, eventRow, key, mapError_ok, ok_bind, isDecoded]
  exact built

theorem decode_globalRow {id : StreamKey} {position : GlobalSeq} (nonempty : id ≠ [])
    (short : id.length < 2 ^ 16) (fits : envelopeLen envelope < 2 ^ 32) :
    ∃ stored, globalScan.decode (globalRow ((id, envelope), position.toNat)).1
        (globalRow ((id, envelope), position.toNat)).2 = .ok (position, id, stored) ∧
      stored.toPending = envelope := by
  obtain ⟨decoded, stored, isDecoded, built, values⟩ := decode_frameBytes fits id
  refine ⟨stored, ?_, values⟩
  have word : UInt64.ofNat position.toNat = position.asU64 := UInt64.ofNat_toNat
  have key := decodeGlobalKey_eq_ok.mpr
    ⟨short, @rfl _ (globalKey position.asU64 id envelope.version.asU64)⟩
  simp only [globalScan, globalRow, word, key, mapError_ok, ok_bind,
    rejectIf_of_not _ nonempty, Version.new_eq_some.mpr rfl, okOr_some, isDecoded, built]
  rfl

/-- The rows of events are those of some entries. -/
structure Stored (partitions : Partitions)
    (entries : List (StreamKey × PendingEnvelope)) : Prop where
  events : Holds partitions.events (entries.map eventRow)
  short : ∀ entry ∈ entries, entry.1.length < 2 ^ 16
  fits : ∀ entry ∈ entries, envelopeLen entry.2 < 2 ^ 32

/-- The events of a stream in the order of their versions. -/
structure IsStream (entries : List (StreamKey × PendingEnvelope)) (id : StreamKey)
    (events : List PendingEnvelope) : Prop where
  sorted : events.Pairwise fun envelope next => versionNumber envelope < versionNumber next
  mem : ∀ envelope, envelope ∈ events ↔ (id, envelope) ∈ entries

/-- The scan of a stream finds the rows of its events from a version on. -/
theorem Stored.range_events {id : StreamKey} {events : List PendingEnvelope}
    (stored : Stored partitions entries) (isStream : IsStream entries id events)
    (short : id.length < 2 ^ 16) (start : Version) :
    range partitions.events (eventKey id start.asU64) (some (eventKey id u64Max)) =
      (events.filter fun envelope => start.toNat ≤ versionNumber envelope).map
        fun envelope => eventRow (id, envelope) := by
  have := lawfulOrderOrd_bytes
  refine stored.events.range_eq ?_ ?_
  · -- The keys are in the order of the versions.
    rw [List.pairwise_map]
    refine (isStream.sorted.filter _).imp fun {envelope next} below => ?_
    change eventKey id _ < eventKey id _
    rw [eventKey_lt_iff short short, UInt64.lt_iff_toNat_lt]
    exact .inr ⟨rfl, .inr ⟨rfl, below⟩⟩
  · intro row
    simp only [List.mem_map, Option.mem_some_iff, forall_eq', List.mem_filter, decide_eq_true_eq]
    constructor
    · rintro ⟨envelope, ⟨present, behind⟩, rfl⟩
      refine ⟨⟨_, (isStream.mem envelope).mp present, rfl⟩, ?_⟩
      exact (eventKey_mem_range_iff short short).mpr ⟨rfl, UInt64.le_iff_toNat_le.mpr behind⟩
    · rintro ⟨⟨⟨other, envelope⟩, present, rfl⟩, inside⟩
      obtain ⟨rfl, behind⟩ := (eventKey_mem_range_iff short (stored.short _ present)).mp inside
      exact ⟨envelope, ⟨(isStream.mem envelope).mpr present, UInt64.le_iff_toNat_le.mp behind⟩, rfl⟩

theorem Represents.fits_of_mem (represents : Represents mode partitions log)
    (present : entry ∈ log.entries) :
    entry.1 ≠ [] ∧ entry.1.length ≤ maxStreamIdLen ∧ envelopeLen entry.2 < 2 ^ 32 := by
  obtain ⟨admitted, fits⟩ := represents.bounded.admitted entry present
  obtain ⟨nonempty, short⟩ := of_decide_eq_true admitted
  exact ⟨nonempty, short, of_decide_eq_true fits⟩

theorem Represents.stored (represents : Represents mode partitions log) :
    Stored partitions log.entries where
  events := represents.indexed.events
  short := represents.indexed.short
  fits _ present := (represents.fits_of_mem present).2.2

theorem isStream_log (log : Log) (id : StreamKey) : IsStream log.entries id (log.stream id) where
  sorted := by
    rw [← List.pairwise_map, log.numbered]
    exact List.pairwise_lt_range' 1 Nat.one_pos
  mem _ := mem_eventsOf

/-- The events of a stream from a version on. -/
def eventsFrom (log : Log) (id : StreamKey) (start : Version) : List PendingEnvelope :=
  (log.stream id).filter fun envelope => start.toNat ≤ versionNumber envelope

theorem Represents.range_events (represents : Represents mode partitions log) {id : StreamKey}
    (short : id.length < 2 ^ 16) (start : Version) :
    range partitions.events (eventKey id start.asU64) (some (eventKey id u64Max)) =
      (eventsFrom log id start).map fun envelope => eventRow (id, envelope) :=
  represents.stored.range_events (isStream_log log id) short start

/-- A read of a stream yields its events from a version on. -/
theorem Represents.readStream (represents : Represents mode partitions log) {id : StreamKey}
    (admitted : limits.admits id = true) (start : Version) :
    ∃ cursor, Fjall.readStream partitions id start = .ok cursor ∧
      cursor.collect.map (Except.map PersistedEnvelope.toPending) =
        (eventsFrom log id start).map .ok := by
  have valid := of_decide_eq_true admitted
  have short : id.length < 2 ^ 16 := Nat.lt_of_le_of_lt valid.2 (by decide)
  have eventFits : id.length ≤ maxEventKeyIdLen := Nat.le_trans valid.2 (by decide)
  have lower : (streamScan id).lowerKey start = .ok (eventKey id start.asU64) :=
    streamScan_lowerKey_eq_ok.mpr (encodeEventKey_eq_ok.mpr ⟨eventFits, rfl⟩)
  have upper : (streamScan id).upperKey = .ok (some (eventKey id u64Max)) :=
    streamScan_upperKey_eq_ok.mpr (encodeEventKey_eq_ok.mpr ⟨eventFits, rfl⟩)
  have fits : ∀ envelope ∈ eventsFrom log id start, envelopeLen envelope < 2 ^ 32 := by
    intro envelope present
    have inLog := mem_eventsOf.mp (List.mem_filter.mp present).1
    exact (represents.fits_of_mem inLog).2.2
  refine ⟨_, ?_, ScanCursor.collect_of_decodes
    (fun envelope present => small_eventRow short (fits envelope present))
    (fun envelope present => decode_eventRow short (fits envelope present))⟩
  have validKey : validateKey id maxStreamIdLen = .ok () := validateKey_eq_ok.mpr valid
  rw [Fjall.readStream, validKey, ok_bind, ScanCursor.openAt, lower, ok_bind, upper, ok_bind,
    represents.range_events short]
  rfl

/-- The events behind a position, each with its position and its stream. -/
def eventsAfter (log : Log) (after : Option GlobalSeq) :
    List ((StreamKey × PendingEnvelope) × Nat) :=
  (log.entries.zipIdx 1).filter fun entry => depth after < entry.2

/-- The index holds the events behind a position in order. -/
theorem Represents.range_eventsGlobal (represents : Represents .denormalized partitions log)
    {start : GlobalSeq} (next : start.toNat = depth after + 1) :
    range partitions.eventsGlobal (globalKey start.asU64 [] 0) none =
      (eventsAfter log after).map globalRow := by
  have holds := represents.indexed.eventsGlobal
  rw [represents.mode] at holds
  have word : ∀ entry ∈ log.entries.zipIdx 1, (UInt64.ofNat entry.2).toNat = entry.2 := by
    intro entry present
    have earlier := (position_lt_of_mem present).2
    have count : log.entries.length ≤ 2 ^ 64 - 1 := represents.bounded.count_le
    exact UInt64.toNat_ofNat_of_lt' (show entry.2 < 2 ^ 64 by omega)
  have := lawfulOrderOrd_bytes
  refine holds.range_eq ?_ ?_
  · -- The keys are in the order of the positions.
    have ordered : (log.entries.zipIdx 1).Pairwise fun entry next => entry.2 < next.2 := by
      rw [← List.pairwise_map, List.zipIdx_map_snd]
      exact List.pairwise_lt_range' 1 Nat.one_pos
    rw [List.pairwise_map]
    refine (ordered.filter _).imp_of_mem fun {entry next} present nextPresent below => ?_
    change globalKey _ _ _ < globalKey _ _ _
    rw [globalKey_lt_iff, UInt64.lt_iff_toNat_lt, word entry (List.mem_filter.mp present).1,
      word next (List.mem_filter.mp nextPresent).1]
    exact .inl below
  · have inside : ∀ entry ∈ log.entries.zipIdx 1,
        globalKey start.asU64 [] 0 ≤ (globalRow entry).1 ↔ depth after < entry.2 := by
      intro entry present
      have stored := (position_lt_of_mem present).1
      change globalKey _ _ _ ≤ globalKey _ _ _ ↔ _
      rw [globalKey_le_iff (represents.indexed.short _ stored) (represents.fits_of_mem stored).1,
        UInt64.le_iff_toNat_le, word entry present]
      change start.toNat ≤ entry.2 ↔ _
      rw [next, Nat.succ_le_iff]
    intro row
    simp only [globalRows, List.mem_map, eventsAfter, List.mem_filter, decide_eq_true_eq,
      Option.not_mem_none, false_implies, implies_true, and_true]
    constructor
    · rintro ⟨entry, ⟨present, behind⟩, rfl⟩
      exact ⟨⟨entry, present, rfl⟩, (inside entry present).mpr behind⟩
    · rintro ⟨⟨entry, present, rfl⟩, above⟩
      exact ⟨entry, ⟨present, (inside entry present).mp above⟩, rfl⟩

/-- What a read of all streams shows of an item. -/
def allView (item : GlobalSeq × StreamKey × PersistedEnvelope) :
    (StreamKey × PendingEnvelope) × Nat :=
  ((item.2.1, item.2.2.toPending), item.1.toNat)

/-- A read of all streams yields the events behind a position. -/
theorem Represents.readAll (represents : Represents .denormalized partitions log)
    (after : Option GlobalSeq) :
    ∃ cursor, Fjall.readAll partitions after = .ok cursor ∧
      cursor.collect.map (Except.map allView) = (eventsAfter log after).map .ok := by
  have indexedMode : ¬ partitions.mode = .disabled := by
    rw [represents.mode]
    decide
  have isNext : after.elim (some Version.initial) Version.next = following after := rfl
  rw [Fjall.readAll, rejectIf_of_not _ indexedMode, ok_bind, isNext]
  cases continued : following after with
  | none =>
    -- Nothing is behind the last possible position.
    have last := following_eq_none.mp continued
    have count : log.entries.length ≤ 2 ^ 64 - 1 := represents.bounded.count_le
    have nothing : eventsAfter log after = [] := by
      refine List.filter_eq_nil_iff.mpr fun entry present => ?_
      have earlier := (position_lt_of_mem present).2
      rw [decide_eq_true_eq]
      omega
    refine ⟨_, rfl, ?_⟩
    rw [nothing, ScanCursor.openEmpty, ScanCursor.collect]
    rfl
  | some start =>
    have lower := globalScan_lowerKey_eq_ok.mpr (@rfl _ (globalKey start.asU64 [] 0))
    have opened : ScanCursor.openAt partitions.eventsGlobal globalScan start =
        .ok ⟨(eventsAfter log after).map globalRow, globalScan.decode, false⟩ := by
      rw [ScanCursor.openAt, lower, ok_bind]
      change Except.ok (ScanCursor.mk (range _ _ none) _ _) = _
      rw [represents.range_eventsGlobal (following_eq_some.mp continued)]
    refine ⟨_, opened, ?_⟩
    refine @ScanCursor.collect_of_decodes _ _ _ (eventsAfter log after) globalRow
      globalScan.decode allView id ?_ ?_
    · intro entry present
      have stored := (position_lt_of_mem (List.mem_filter.mp present).1).1
      exact small_globalRow (represents.indexed.short _ stored)
        (represents.fits_of_mem stored).2.2 entry.2
    · intro entry present
      obtain ⟨inLog, behind⟩ := List.mem_filter.mp present
      obtain ⟨stored, earlier⟩ := position_lt_of_mem inLog
      obtain ⟨nonempty, _, fits⟩ := represents.fits_of_mem stored
      have count : log.entries.length ≤ 2 ^ 64 - 1 := represents.bounded.count_le
      rw [decide_eq_true_eq] at behind
      obtain ⟨position, isPosition⟩ := @Version.exists_toNat_eq entry.2 (by omega) (by omega)
      obtain ⟨⟨key, envelope⟩, place⟩ := entry
      obtain rfl : position.toNat = place := isPosition
      obtain ⟨item, decoded, values⟩ :=
        @decode_globalRow envelope key position nonempty (represents.indexed.short _ stored) fits
      refine ⟨_, decoded, ?_⟩
      rw [allView, values]
      rfl

theorem readStream_of_refused {id : StreamKey} (refused : limits.admits id = false)
    (partitions : Partitions) (start : Version) :
    Fjall.readStream partitions id start = .error (.invalidKey id.length maxStreamIdLen) := by
  have invalid : id = [] ∨ maxStreamIdLen < id.length := by
    have notValid := of_decide_eq_false refused
    rw [not_and_or, not_not, Nat.not_le] at notValid
    exact notValid
  rw [Fjall.readStream, validateKey, rejectIf_of _ invalid, error_bind]

/-- After every sequence of calls the partitions represent the event log of the
same calls.  The next call has the same answer and the same effect on both, and
changes no partition if it is refused.  Reading a stream yields its events from a
version on; where the index is kept, reading all streams yields the events behind
a position, each with its position and its stream. -/
theorem store_is_event_log (mode : AllIndex) (calls : List Call) :
    Represents mode ((machine mode).run calls) ((logMachine limits).run calls) ∧
    (∀ call,
      ((machine mode).step ((machine mode).run calls) call).1.position =
        ((logMachine limits).step ((logMachine limits).run calls) call).1 ∧
      Represents mode ((machine mode).step ((machine mode).run calls) call).2
        ((logMachine limits).step ((logMachine limits).run calls) call).2 ∧
      (((machine mode).step ((machine mode).run calls) call).1.position = none →
        ((machine mode).step ((machine mode).run calls) call).2 = (machine mode).run calls)) ∧
    (∀ id start,
      (limits.admits id = true →
        ∃ cursor, readStream ((machine mode).run calls) id start = .ok cursor ∧
          cursor.collect.map (Except.map PersistedEnvelope.toPending) =
            (eventsFrom ((logMachine limits).run calls) id start).map .ok) ∧
      (limits.admits id = false →
        readStream ((machine mode).run calls) id start =
          .error (.invalidKey id.length maxStreamIdLen))) ∧
    (mode = .denormalized → ∀ after,
      ∃ cursor, readAll ((machine mode).run calls) after = .ok cursor ∧
        cursor.collect.map (Except.map allView) =
          (eventsAfter ((logMachine limits).run calls) after).map .ok) := by
  have represents := (implements mode).refines.run calls
  refine ⟨represents, fun call => ?_, fun id start => ?_, fun isIndexed after => ?_⟩
  · obtain ⟨agrees, related⟩ := (implements mode).refines.step call represents
    exact ⟨agrees, related, (implements mode).unchanged_of_refused calls call⟩
  · exact ⟨fun admitted => represents.readStream admitted start,
      fun refused => readStream_of_refused refused _ start⟩
  · subst isIndexed
    exact represents.readAll after

/-- An event of a fresh stream is read back from its stream and from the index. -/
theorem fresh_event_is_read_back :
    (∃ cursor, readStream ((machine .denormalized).run [(freshRun [1]).toCall]) [1] .initial =
        .ok cursor ∧
      cursor.collect.map (Except.map PersistedEnvelope.toPending) = [.ok (freshRun [1]).head]) ∧
    ∃ cursor, readAll ((machine .denormalized).run [(freshRun [1]).toCall]) none = .ok cursor ∧
      cursor.collect.map (Except.map allView) = [.ok (([1], (freshRun [1]).head), 1)] := by
  obtain ⟨_, _, streamReads, allReads⟩ := store_is_event_log .denormalized [(freshRun [1]).toCall]
  obtain ⟨stream, isStream, events⟩ := (streamReads [1] .initial).1 (by decide)
  obtain ⟨all, isAll, entries⟩ := allReads rfl none
  exact ⟨⟨stream, isStream, events.trans (by decide)⟩, all, isAll, entries.trans (by decide)⟩

end Mnesis.Fjall
