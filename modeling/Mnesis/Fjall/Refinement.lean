import Mnesis.Fjall.Store

/-!
# The partitions are an event log

The four partitions represent one event log: the version of a stream is the
number of its events, every event has its two rows, and the position counter is
the number of all events.  Every call has the same answer and the same effect on
both.
-/

namespace Mnesis.Fjall

open Foundation Kernel Store Wire

/-- What the store admits: ids that fit into its keys, frames of less than 4 GiB,
and positions of 64 bits. -/
def limits : LogLimits StreamKey PendingEnvelope where
  admits id := id ≠ [] ∧ id.length ≤ maxStreamIdLen
  fits envelope := envelopeLen envelope < 2 ^ 32
  capacity := 2 ^ 64 - 1

/-- The row of an event in its stream. -/
def eventRow (entry : StreamKey × PendingEnvelope) : Bytes × Bytes :=
  (eventKey entry.1 entry.2.version.asU64, frameBytes entry.2)

/-- The row of an event at a position. -/
def globalRow (entry : (StreamKey × PendingEnvelope) × Nat) : Bytes × Bytes :=
  (globalKey (UInt64.ofNat entry.2) entry.1.1 entry.1.2.version.asU64, frameBytes entry.1.2)

/-- The rows of the index of all events. -/
def globalRows (mode : AllIndex) (entries : List (StreamKey × PendingEnvelope)) :
    List (Bytes × Bytes) :=
  match mode with
  | .denormalized => (entries.zipIdx 1).map globalRow
  | .disabled => []

/-- Every entry has its rows in both partitions of events. -/
structure Indexed (partitions : Partitions)
    (entries : List (StreamKey × PendingEnvelope)) : Prop where
  short : ∀ entry ∈ entries, entry.1.length < 2 ^ 16
  events : Holds partitions.events (entries.map eventRow)
  eventsGlobal : Holds partitions.eventsGlobal (globalRows partitions.mode entries)

/-- The versions of the streams are the numbers of their entries. -/
def VersionsRepresent (streams : Keyspace) (entries : List (StreamKey × PendingEnvelope)) : Prop :=
  ∀ key, streams[key]? =
    if eventsOf entries key = [] then none
    else some (encodeStreamVersion (UInt64.ofNat (eventsOf entries key).length))

/-- The position counter is the number of entries, and is absent while there are
none. -/
def CounterRepresents (global : Keyspace) (count : Nat) : Prop :=
  ∀ key, global[key]? =
    if key = Partitions.globalSeqKey ∧ count ≠ 0 then some (littleEndian 8 count) else none

/-- The partitions represent an event log, apart from the position counter, which
a transaction writes last. -/
structure Staged (mode : AllIndex) (partitions : Partitions) (log : Log) : Prop where
  mode : partitions.mode = mode
  streams : VersionsRepresent partitions.streams log.entries
  indexed : Indexed partitions log.entries
  bounded : log.Bounded limits

/-- The partitions represent an event log. -/
structure Represents (mode : AllIndex) (partitions : Partitions) (log : Log) : Prop
    extends Staged mode partitions log where
  global : CounterRepresents partitions.global log.count

theorem Represents.unique
    (represents : Represents mode partitions log) (otherRepresents : Represents mode other log) :
    partitions = other := by
  obtain ⟨streams, events, eventsGlobal, global, _⟩ := partitions
  obtain ⟨otherStreams, otherEvents, otherGlobalEvents, otherGlobal, _⟩ := other
  obtain rfl := represents.mode
  obtain rfl := otherRepresents.mode
  have sameStreams : streams = otherStreams :=
    Std.ExtTreeMap.ext_getElem? fun key =>
      (represents.streams key).trans (otherRepresents.streams key).symm
  have sameGlobal : global = otherGlobal :=
    Std.ExtTreeMap.ext_getElem? fun key =>
      (represents.global key).trans (otherRepresents.global key).symm
  have sameEvents : events = otherEvents :=
    represents.indexed.events.unique otherRepresents.indexed.events
  have sameEventsGlobal : eventsGlobal = otherGlobalEvents :=
    represents.indexed.eventsGlobal.unique otherRepresents.indexed.eventsGlobal
  rw [sameStreams, sameEvents, sameEventsGlobal, sameGlobal]

theorem represents_new (mode : AllIndex) : Represents mode (.new mode) (.empty versionNumber) where
  mode := rfl
  streams key := by
    rw [Partitions.new, Std.ExtTreeMap.getElem?_empty]
    rfl
  indexed := by
    refine ⟨by simp [EventLog.empty], holds_empty, ?_⟩
    cases mode <;> exact holds_empty
  global key := by
    rw [Partitions.new, Std.ExtTreeMap.getElem?_empty, if_neg]
    rintro ⟨_, positive⟩
    exact positive rfl
  bounded := EventLog.bounded_empty

section Stage

variable {entries : List (StreamKey × PendingEnvelope)}

theorem stageEvent_eq (tx : Partitions) (row : StagedRow) :
    tx.stageEvent row = { tx with
      events := tx.events.insert row.eventKey row.frame
      eventsGlobal := if tx.mode = .denormalized then
        tx.eventsGlobal.insert row.globalKey row.frame else tx.eventsGlobal } := by
  rw [Partitions.stageEvent]
  split <;> rfl

theorem position_lt_of_mem (present : entry ∈ entries.zipIdx 1) :
    entry.1 ∈ entries ∧ entry.2 < entries.length + 1 := by
  obtain ⟨first, last, isEntry⟩ := List.mem_zipIdx present
  rw [isEntry]
  exact ⟨List.getElem_mem _, by omega⟩

/-- An event is staged under two new keys. -/
theorem Indexed.stageEvent (indexed : Indexed tx entries) {id : StreamKey}
    {envelope : PendingEnvelope} {position : UInt64} (short : id.length < 2 ^ 16)
    (fresh : ∀ other, (id, other) ∈ entries → other.version ≠ envelope.version)
    (next : position.toNat = entries.length + 1) :
    Indexed
      (tx.stageEvent (stagedRow id envelope.version.asU64 position (frameBytes envelope)))
      (entries ++ [(id, envelope)]) := by
  rw [stageEvent_eq]
  constructor
  · intro entry present
    rw [List.mem_append, List.mem_singleton] at present
    rcases present with earlier | rfl
    · exact indexed.short entry earlier
    · exact short
  · rw [List.map_append, List.map_singleton]
    refine indexed.events.insert ?_ _
    rintro _ present sameKey
    obtain ⟨entry, isEntry, rfl⟩ := List.mem_map.mp present
    obtain ⟨sameId, sameVersion⟩ := eventKey_injective (indexed.short entry isEntry) short sameKey
    subst sameId
    exact fresh entry.2 isEntry (Version.toNat_injective (congrArg UInt64.toNat sameVersion))
  · have holds := indexed.eventsGlobal
    dsimp only
    cases isMode : tx.mode with
    | disabled =>
      rw [isMode] at holds
      rw [if_neg (by simp)]
      exact holds
    | denormalized =>
      rw [isMode] at holds
      have positionWord : UInt64.ofNat (1 + entries.length) = position := by
        rw [Nat.add_comm, ← next, UInt64.ofNat_toNat]
      rw [if_pos rfl, globalRows, List.zipIdx_append, List.zipIdx_singleton, List.map_append,
        List.map_singleton, globalRow, positionWord]
      refine holds.insert ?_ _
      rintro _ present sameKey
      obtain ⟨entry, isEntry, rfl⟩ := List.mem_map.mp present
      obtain ⟨stored, earlier⟩ := position_lt_of_mem isEntry
      obtain ⟨samePosition, _⟩ := globalKey_injective (indexed.short entry.1 stored) short sameKey
      have below : position.toNat < 2 ^ 64 := position.toNat_lt
      have small : entry.2 < 2 ^ 64 := by omega
      rw [← samePosition, UInt64.toNat_ofNat_of_lt' small] at next
      omega

/-- Staging the rows of a run adds its entries. -/
theorem Indexed.stageRows (indexed : Indexed tx entries) {id : StreamKey}
    {envelopes : List PendingEnvelope}
    (numbered : envelopes.map versionNumber =
      List.range' (currentVersion.toNat + 1) envelopes.length)
    (below : ∀ other, (id, other) ∈ entries → versionNumber other ≤ currentVersion.toNat)
    (count : currentGlobal.toNat = entries.length)
    (planned : planPreparedRun currentVersion currentGlobal id (envelopes.map frameBytes) =
      .ok run) :
    Indexed (run.rows.foldl Partitions.stageEvent tx)
      (entries ++ envelopes.map fun envelope => (id, envelope)) := by
  induction envelopes generalizing tx entries currentVersion currentGlobal run with
  | nil =>
    cases planned
    rw [List.map_nil, List.append_nil]
    exact indexed
  | cons envelope envelopes step =>
    obtain ⟨version, globalSeq, rest, isVersion, isGlobal, fits, isRest, rfl⟩ :=
      planPreparedRun_cons_eq_ok.mp planned
    rw [List.map_cons, List.length_cons, List.range'_succ, List.cons.injEq] at numbered
    obtain ⟨first, numbered⟩ := numbered
    have sameVersion : version = envelope.version.asU64 :=
      UInt64.toNat_inj.mp (isVersion.trans first.symm)
    subst sameVersion
    have staged := @Indexed.stageEvent _ _ indexed id envelope globalSeq
      (Nat.lt_of_le_of_lt fits (by decide))
      (fun other present same => by
        have earlier := below other present
        rw [versionNumber, same] at earlier
        change envelope.version.asU64.toNat ≤ _ at earlier
        omega)
      (by omega)
    have continued := step staged (by rw [isVersion]; exact numbered)
      (fun other present => by
        rw [List.mem_append, List.mem_singleton] at present
        rcases present with earlier | same
        · have := below other earlier
          omega
        · cases same
          exact Nat.le_refl _)
      (by rw [isGlobal, count, List.length_append, List.length_singleton]) isRest
    rw [List.append_assoc, List.singleton_append] at continued
    exact continued

theorem stageRows_keeps (rows : List StagedRow) (tx : Partitions) :
    (rows.foldl Partitions.stageEvent tx).mode = tx.mode ∧
      (rows.foldl Partitions.stageEvent tx).streams = tx.streams ∧
      (rows.foldl Partitions.stageEvent tx).global = tx.global := by
  induction rows generalizing tx with
  | nil => exact ⟨rfl, rfl, rfl⟩
  | cons row rows rest =>
    have kept := rest (tx.stageEvent row)
    rw [stageEvent_eq] at kept
    rw [List.foldl_cons, stageEvent_eq]
    exact kept

theorem VersionsRepresent.setVersion {streams : Keyspace} {write : Write StreamKey PendingEnvelope}
    {version : UInt64} (represents : VersionsRepresent streams entries)
    (nonempty : write.events ≠ [])
    (isLength : version.toNat = (eventsOf entries write.target).length + write.events.length) :
    VersionsRepresent (streams.insert write.target (encodeStreamVersion version))
      (entries ++ write.entries) := by
  intro key
  rw [Std.ExtTreeMap.getElem?_insert, eventsOf_append]
  split
  next same =>
    obtain rfl := Std.compare_eq_iff_eq.mp same
    rw [eventsOf_entries, if_neg (by simp [nonempty]), List.length_append, ← isLength,
      UInt64.ofNat_toNat]
  next different =>
    have other : write.target ≠ key := fun same => different (Std.compare_eq_iff_eq.mpr same)
    rw [eventsOf_entries_of_ne other, List.append_nil]
    exact represents key

theorem CounterRepresents.setGlobal {globalSeq : UInt64}
    (represents : CounterRepresents global earlier) (isCount : globalSeq.toNat = count)
    (positive : count ≠ 0) :
    CounterRepresents
      (global.insert Partitions.globalSeqKey (littleEndian 8 globalSeq.toNat)) count := by
  intro key
  rw [Std.ExtTreeMap.getElem?_insert, isCount]
  split
  next same =>
    obtain rfl := Std.compare_eq_iff_eq.mp same
    rw [if_pos ⟨rfl, positive⟩]
  next different =>
    have other : key ≠ Partitions.globalSeqKey := fun same =>
      different (Std.compare_eq_iff_eq.mpr same.symm)
    rw [represents key, if_neg fun found => other found.1, if_neg fun found => other found.1]

end Stage

section Call

variable {mode : AllIndex}

theorem Staged.count_lt (staged : Staged mode partitions log) : log.count < 2 ^ 64 := by
  have within : log.count ≤ 2 ^ 64 - 1 := staged.bounded.count_le
  omega

theorem Staged.toNat_count (staged : Staged mode partitions log) :
    (UInt64.ofNat log.count).toNat = log.count :=
  UInt64.toNat_ofNat_of_lt' staged.count_lt

theorem Staged.toNat_length (staged : Staged mode partitions log) (id : StreamKey) :
    (UInt64.ofNat (log.stream id).length).toNat = (log.stream id).length :=
  UInt64.toNat_ofNat_of_lt' (Nat.lt_of_le_of_lt (log.length_stream_le id) staged.count_lt)

theorem ofLittleEndian_word (value : UInt64) :
    UInt64.ofNat (ofLittleEndian (littleEndian 8 value.toNat)) = value := by
  rw [ofLittleEndian_littleEndian value.toNat_lt, UInt64.ofNat_toNat]

theorem decodeStreamVersion_encodeStreamVersion (version : UInt64) :
    decodeStreamVersion (encodeStreamVersion version) = .ok version := by
  have eight : ¬ (encodeStreamVersion version).length ≠ 8 := by
    rw [encodeStreamVersion, length_littleEndian]
    decide
  rw [decodeStreamVersion, rejectIf_of_not _ eight, ok_bind, encodeStreamVersion,
    ofLittleEndian_word]
  rfl

theorem Represents.readVersion (represents : Represents mode partitions log) (id : StreamKey) :
    partitions.readVersion id = .ok (UInt64.ofNat (log.stream id).length) := by
  rw [Partitions.readVersion, represents.streams id, EventLog.stream]
  by_cases absent : eventsOf log.entries id = []
  · rw [if_pos absent, absent]
    rfl
  · rw [if_neg absent]
    exact mapError_eq_ok.mpr (decodeStreamVersion_encodeStreamVersion _)

theorem Represents.readGlobal (represents : Represents mode partitions log) (id : StreamKey) :
    partitions.readGlobal id = .ok (UInt64.ofNat log.count) := by
  have word : (UInt64.ofNat log.count).toNat = log.count :=
    UInt64.toNat_ofNat_of_lt' represents.count_lt
  rw [Partitions.readGlobal, represents.global]
  by_cases none : log.count = 0
  · rw [if_neg fun found => found.2 none, none]
    rfl
  · have eight : ¬ (littleEndian 8 log.count).length ≠ 8 := by
      rw [length_littleEndian]
      decide
    rw [if_pos ⟨rfl, none⟩]
    change (rejectIf _ _ >>= _) = _
    rw [rejectIf_of_not _ eight, ok_bind, ← word, ofLittleEndian_word, word]
    rfl

/-- The frames of a run. -/
def framesOf (write : PlannedAppend) : List Bytes := write.batch.toList.map frameBytes

/-- A run that the log accepts is planned, and its rows have the same effect. -/
theorem Staged.run {tx : Partitions} (staged : Staged mode tx log) {write : PlannedAppend}
    {after : Log} (appended : log.append limits write.toWrite = some after) :
    ∃ run, planPreparedRun (rawHead write.expectedVersion) (UInt64.ofNat log.count)
        write.target (framesOf write) = .ok run ∧
      run.endingGlobal.toNat = after.count ∧
      Staged mode
        ((run.rows.foldl Partitions.stageEvent tx).setVersion write.target run.newVersion)
        after := by
  obtain ⟨admitted, ⟨head, numbered⟩, room, added⟩ := EventLog.append_eq_some.mp appended
  obtain ⟨_, fits⟩ := of_decide_eq_true admitted.1
  have head : (rawHead write.expectedVersion).toNat =
    (log.stream write.target).length := head
  have room : log.count + write.toWrite.events.length ≤ 2 ^ 64 - 1 := room
  have frames : (framesOf write).length = write.toWrite.events.length := List.length_map _
  have inLog := log.length_stream_le write.target
  obtain ⟨run, planned⟩ :=
    @exists_planPreparedRun (rawHead write.expectedVersion) (UInt64.ofNat log.count)
      write.target (framesOf write) fits (by omega) (by rw [staged.toNat_count]; omega)
  obtain ⟨newVersion, endingGlobal⟩ := counters_of_planPreparedRun planned
  rw [staged.toNat_count] at endingGlobal
  have count := EventLog.count_of_entries added
  rw [Write.length_entries] at count
  refine ⟨run, planned, by omega, ?_⟩
  constructor
  · exact (stageRows_keeps _ _).1.trans staged.mode
  · change VersionsRepresent (Std.ExtTreeMap.insert
      (run.rows.foldl Partitions.stageEvent tx).streams _ _) _
    rw [(stageRows_keeps _ _).2.1, added]
    refine @VersionsRepresent.setVersion _ _ write.toWrite _ staged.streams
      write.batch.toList_ne_nil ?_
    rw [newVersion, head, frames]
    rfl
  · rw [added]
    have indexed := staged.indexed.stageRows (by rw [head]; exact numbered)
      (fun other present => by
        rw [head]
        exact EventLog.version_le_length (mem_eventsOf.mpr present))
      staged.toNat_count planned
    exact ⟨indexed.short, indexed.events, indexed.eventsGlobal⟩
  · exact staged.bounded.append appended

/-- Runs that the log accepts are staged and have the same effect. -/
theorem Staged.runs (staged : Staged mode tx log) {writes : List PlannedAppend}
    (appended : (writes.map PlannedAppend.toWrite).foldlM (EventLog.append limits) log =
      some after) :
    ∃ txAfter,
      stageRuns tx (UInt64.ofNat log.count)
        (writes.map fun write => (write, framesOf write)) =
        .ok (txAfter, UInt64.ofNat after.count) ∧
      Staged mode txAfter after ∧ txAfter.global = tx.global := by
  induction writes generalizing tx log with
  | nil =>
    cases appended
    exact ⟨tx, rfl, staged, rfl⟩
  | cons write writes rest =>
    rw [List.map_cons, List.foldlM_cons, Option.bind_eq_bind, Option.bind_eq_some_iff] at appended
    obtain ⟨middle, first, appended⟩ := appended
    obtain ⟨run, planned, ending, stagedRun⟩ := staged.run first
    obtain ⟨txAfter, stagedRest, related, sameGlobal⟩ := rest stagedRun appended
    rw [← ending, UInt64.ofNat_toNat] at stagedRest
    refine ⟨txAfter, ?_, related, sameGlobal.trans (stageRows_keeps _ _).2.2⟩
    rw [List.map_cons, stageRuns, planned, mapError_ok, ok_bind]
    exact stagedRest

theorem counter_of_stageRuns {writes : List PlannedAppend}
    (staged : stageRuns tx globalSeq (writes.map fun write => (write, framesOf write)) =
      .ok (txAfter, globalAfter)) :
    globalAfter.toNat = globalSeq.toNat +
      ((writes.map PlannedAppend.toWrite).flatMap Write.entries).length := by
  induction writes generalizing tx globalSeq with
  | nil =>
    cases staged
    rfl
  | cons write writes rest =>
    simp only [List.map_cons, stageRuns, bind_eq_ok, mapError_eq_ok] at staged
    obtain ⟨run, planned, staged⟩ := staged
    have ending := (counters_of_planPreparedRun planned).2
    rw [rest staged, ending, List.map_cons, List.flatMap_cons, List.length_append,
      Write.length_entries, framesOf, List.length_map, Nat.add_assoc]
    rfl

theorem Staged.commit (staged : Staged mode tx log)
    (counter : CounterRepresents tx.global count) (nonempty : log.count ≠ 0) :
    ∃ position, Version.new (UInt64.ofNat log.count) = some position ∧
      position.toNat = log.count ∧
      Represents mode (tx.setGlobal (UInt64.ofNat log.count)) log := by
  have word := staged.toNat_count
  obtain ⟨position, isPosition⟩ :=
    Version.exists_toNat_eq (Nat.pos_of_ne_zero nonempty) staged.count_lt
  have samePosition : position.asU64 = UInt64.ofNat log.count :=
    UInt64.toNat_inj.mp (isPosition.trans word.symm)
  refine ⟨position, Version.new_eq_some.mpr samePosition, isPosition, ?_⟩
  have indexed : Indexed (tx.setGlobal (UInt64.ofNat log.count)) log.entries :=
    ⟨staged.indexed.short, staged.indexed.events, staged.indexed.eventsGlobal⟩
  exact ⟨⟨staged.mode, staged.streams, indexed, staged.bounded⟩, counter.setGlobal word nonempty⟩

theorem Represents.validate_eq_ok (represents : Represents mode partitions log) {id : StreamKey} :
    validateAppendVersions (UInt64.ofNat (log.stream id).length) expected envelopes id = .ok () ↔
      EventLog.Continues versionNumber (log.stream id).length
        ⟨id, depth expected, envelopes.toList⟩ := by
  rw [validateAppendVersions_eq_ok, represents.toNat_length]
  rfl

theorem Staged.rawHead_eq (staged : Staged mode partitions log) {id : StreamKey}
    (head : depth expected = (log.stream id).length) :
    rawHead expected = UInt64.ofNat (log.stream id).length := by
  rw [← UInt64.toNat_inj, staged.toNat_length]
  exact head

/-- An append that the log accepts succeeds and has the same effect. -/
theorem Represents.append_of_some (represents : Represents mode partitions log) {id : StreamKey}
    (accepted : log.append limits ⟨id, depth expected, envelopes.toList⟩ = some after) :
    ∃ position partitionsAfter,
      (append id expected envelopes).exec partitions = (.ok position, partitionsAfter) ∧
      position.toNat = after.count ∧ Represents mode partitionsAfter after := by
  obtain ⟨admitted, continues, _, added⟩ := EventLog.append_eq_some.mp accepted
  have valid : validateKey id maxStreamIdLen = .ok () :=
    validateKey_eq_ok.mpr (of_decide_eq_true admitted.1)
  have prepared : prepareRun envelopes = .ok (envelopes.toList.map frameBytes) :=
    prepareEnvelopes_eq_ok.mpr
      ⟨fun envelope present => of_decide_eq_true (admitted.2 envelope present), rfl⟩
  obtain ⟨run, planned, ending, staged⟩ := @Staged.run _ _ _ represents.toStaged
    ⟨id, expected, envelopes.first, envelopes.rest⟩ after accepted
  rw [represents.rawHead_eq continues.1] at planned
  have planned : planPreparedRun (UInt64.ofNat (log.stream id).length)
    (UInt64.ofNat log.count) id (envelopes.toList.map frameBytes) = .ok run := planned
  have positive : after.count ≠ 0 := by
    rw [EventLog.count_of_entries added, Write.length_entries]
    exact Nat.ne_of_gt (Nat.add_pos_right _ (List.length_pos_of_ne_nil envelopes.toList_ne_nil))
  obtain ⟨position, isPosition, number, committed⟩ :=
    staged.commit ((stageRows_keeps run.rows partitions).2.2.symm ▸ represents.global) positive
  rw [← ending, UInt64.ofNat_toNat] at isPosition committed
  refine ⟨position, _, ?_, number, committed⟩
  rw [append, exec_mapped_bind valid, exec_mapped_bind prepared,
    exec_get_bind, exec_mapped_bind (represents.readVersion id),
    exec_mapped_bind (represents.validate_eq_ok.mpr continues),
    exec_mapped_bind (represents.readGlobal id), exec_mapped_bind planned,
    exec_set_bind, isPosition, okOr_some]
  rfl

/-- An append that the log refuses fails. -/
theorem Represents.append_of_none (represents : Represents mode partitions log) {id : StreamKey}
    (refused : log.append limits ⟨id, depth expected, envelopes.toList⟩ = none) :
    (append id expected envelopes).Fails partitions := by
  refine fails_ofResult_bind fun _ valid => ?_
  refine fails_ofResult_bind fun frames prepared => ?_
  refine fails_get_bind ?_
  rw [represents.readVersion, represents.readGlobal]
  refine fails_ofResult_bind fun _ current => ?_
  obtain rfl := Except.ok.inj current
  refine fails_ofResult_bind fun _ contract => ?_
  refine fails_ofResult_bind fun _ counter => ?_
  obtain rfl := Except.ok.inj counter
  refine fails_ofResult_bind fun run planned => ?_
  -- Everything passed, so that the log would have accepted the batch.
  rw [mapError_eq_ok] at valid prepared contract planned
  obtain ⟨fits, rfl⟩ := prepareEnvelopes_eq_ok.mp prepared
  have ending := (counters_of_planPreparedRun planned).2
  rw [represents.toNat_count, List.length_map] at ending
  have below : run.endingGlobal.toNat < 2 ^ 64 := run.endingGlobal.toNat_lt
  have room : log.count + envelopes.toList.length ≤ 2 ^ 64 - 1 := by omega
  obtain ⟨after, accepted⟩ :=
    @EventLog.exists_append _ _ _ ⟨id, depth expected, envelopes.toList⟩ _ limits log
      ⟨decide_eq_true (validateKey_eq_ok.mp valid),
        fun envelope present => decide_eq_true (fits envelope present)⟩
      (represents.validate_eq_ok.mp contract) room
  cases refused.symm.trans accepted

theorem validateKeys_eq_ok :
    validateKeys writes = .ok () ↔
      ∀ write ∈ writes, write.target ≠ [] ∧ write.target.length ≤ maxStreamIdLen := by
  induction writes with
  | nil => simp [validateKeys]
  | cons write writes rest =>
    simp only [validateKeys, bind_eq_ok, mapError_eq_ok, validateKey_eq_ok, rest,
      List.forall_mem_cons, exists_const]

theorem prepareRuns_eq_ok :
    prepareRuns writes = .ok prepared ↔
      (∀ write ∈ writes, ∀ envelope ∈ write.batch.toList, envelopeLen envelope < 2 ^ 32) ∧
        (writes.map fun write => (write, framesOf write)) = prepared := by
  induction writes generalizing prepared with
  | nil => simp [prepareRuns]
  | cons write writes rest =>
    simp only [prepareRuns, prepareRun, bind_eq_ok, mapError_eq_ok, prepareEnvelopes_eq_ok,
      pure_eq_ok, Except.ok.injEq, rest, List.forall_mem_cons, List.map_cons]
    constructor
    · rintro ⟨_, ⟨first, rfl⟩, _, ⟨others, rfl⟩, rfl⟩
      exact ⟨⟨first, others⟩, rfl⟩
    · rintro ⟨⟨first, others⟩, rfl⟩
      exact ⟨_, ⟨first, rfl⟩, _, ⟨others, rfl⟩, rfl⟩

section

variable (represents : Represents mode partitions log)
include represents

theorem Represents.checksHeads : ChecksHeads log (validateAtomicWrites partitions) where
  nil _ := rfl
  cons _ _ _ := by rw [validateAtomicWrites, represents.readVersion, mapError_ok, ok_bind]
  bounded id := Nat.lt_of_le_of_lt (log.length_stream_le id) represents.count_lt

/-- Runs that pass all checks and can be staged are acceptable. -/
theorem Represents.acceptable_of_stageRuns (keys : validateKeys writes = .ok ())
    (fits : ∀ write ∈ writes, ∀ envelope ∈ write.batch.toList, envelopeLen envelope < 2 ^ 32)
    (continues : ∀ write ∈ writes, EventLog.Continues versionNumber
      (log.stream write.target).length write.toWrite)
    (staged : stageRuns partitions (UInt64.ofNat log.count)
      (writes.map fun write => (write, framesOf write)) = .ok (tx, globalAfter)) :
    EventLog.Acceptable limits log (writes.map PlannedAppend.toWrite) := by
  have counter := counter_of_stageRuns staged
  rw [represents.toNat_count] at counter
  have below : globalAfter.toNat < 2 ^ 64 := globalAfter.toNat_lt
  constructor
  · rw [List.forall_mem_map]
    exact fun write isWrite => ⟨decide_eq_true (validateKeys_eq_ok.mp keys write isWrite),
      fun envelope present => decide_eq_true (fits write isWrite envelope present)⟩
  · rw [List.forall_mem_map]
    exact continues
  · change _ ≤ 2 ^ 64 - 1
    omega

/-- Runs that the log accepts are committed together. -/
theorem Represents.atomicAppendMany_of_some (nonempty : writes ≠ [])
    (accepted : log.appendAll limits (writes.map PlannedAppend.toWrite) = some after) :
    ∃ position partitionsAfter,
      (atomicAppendMany writes).exec partitions = (.ok (some position), partitionsAfter) ∧
      position.toNat = after.count ∧ Represents mode partitionsAfter after := by
  rw [EventLog.appendAll, Option.ite_none_right_eq_some] at accepted
  obtain ⟨distinct, accepted⟩ := accepted
  obtain ⟨acceptable, added⟩ :=
    EventLog.acceptable_of_foldlM represents.bounded.count_le distinct accepted
  obtain ⟨tx, staged, related, sameGlobal⟩ := represents.runs accepted
  rw [map_target_toWrite] at distinct
  have admitted := List.forall_mem_map.mp acceptable.admitted
  obtain ⟨runsValid, heads⟩ :=
    continues_iff_validateAtomicRuns.mp (List.forall_mem_map.mp acceptable.continues)
  have keysValid : validateKeys writes = .ok () :=
    validateKeys_eq_ok.mpr fun write isWrite => of_decide_eq_true (admitted write isWrite).1
  have prepared : prepareRuns writes = .ok (writes.map fun write => (write, framesOf write)) :=
    prepareRuns_eq_ok.mpr ⟨fun write isWrite envelope present =>
      of_decide_eq_true ((admitted write isWrite).2 envelope present), rfl⟩
  cases writes with
  | nil => exact absurd rfl nonempty
  | cons first rest =>
    have positive : after.count ≠ 0 := by
      rw [EventLog.count_of_entries added, List.map_cons, List.flatMap_cons,
        List.length_append, Write.length_entries]
      have := List.length_pos_of_ne_nil first.batch.toList_ne_nil
      change _ + (first.batch.toList.length + _) ≠ 0
      omega
    obtain ⟨position, isPosition, number, committed⟩ :=
      related.commit (sameGlobal.symm ▸ represents.global) positive
    refine ⟨position, _, ?_, number, committed⟩
    have written : writeAtomicRuns partitions first.target
        ((first :: rest).map fun write => (write, framesOf write)) =
        .ok (position, tx.setGlobal (UInt64.ofNat after.count)) := by
      rw [writeAtomicRuns, represents.readGlobal, mapError_ok, ok_bind, staged, ok_bind]
      change (okOr (Version.new (UInt64.ofNat after.count)) _ >>= _) = _
      rw [isPosition]
      rfl
    rw [atomicAppendMany, exec_mapped_bind (validateDistinctTargets_eq_ok.mpr distinct),
      exec_mapped_bind runsValid, keysValid, exec_ofResult_ok_bind, prepared,
      exec_ofResult_ok_bind, exec_get_bind, represents.checksHeads.eq_ok.mpr heads,
      exec_ofResult_ok_bind, written, exec_ofResult_ok_bind]
    rfl

/-- Runs that the log refuses fail together. -/
theorem Represents.atomicAppendMany_of_none (nonempty : writes ≠ [])
    (refused : log.appendAll limits (writes.map PlannedAppend.toWrite) = none) :
    (atomicAppendMany writes).Fails partitions := by
  cases writes with
  | nil => exact absurd rfl nonempty
  | cons first rest =>
    refine fails_ofResult_bind fun _ route => ?_
    refine fails_ofResult_bind fun _ runs => ?_
    refine fails_ofResult_bind fun _ keys => ?_
    refine fails_ofResult_bind fun prepared isPrepared => ?_
    refine fails_get_bind ?_
    refine fails_ofResult_bind fun _ heads => ?_
    refine fails_ofResult_bind fun written isWritten => ?_
    -- Everything passed, so that the log would have accepted the runs.
    rw [mapError_eq_ok] at route runs
    obtain ⟨fits, rfl⟩ := prepareRuns_eq_ok.mp isPrepared
    rw [writeAtomicRuns, represents.readGlobal, mapError_ok, ok_bind, bind_eq_ok] at isWritten
    obtain ⟨⟨tx, globalAfter⟩, staged, _⟩ := isWritten
    have continues := continues_iff_validateAtomicRuns.mpr
      ⟨runs, represents.checksHeads.eq_ok.mp heads⟩
    have acceptable := represents.acceptable_of_stageRuns keys fits continues staged
    have distinct := validateDistinctTargets_eq_ok.mp route
    rw [← map_target_toWrite] at distinct
    obtain ⟨after, accepted⟩ := acceptable.exists_foldlM distinct
    rw [EventLog.appendAll, if_pos distinct, accepted] at refused
    cases refused

end

end Call

theorem implements (mode : AllIndex) : Implements (machine mode) limits (Represents mode) where
  refines := writeMachine_refines (represents_new mode)
    (fun related => related.append_of_some) (fun related => related.append_of_none)
    (fun _ => rfl)
    (fun related => related.atomicAppendMany_of_some)
    (fun related => related.atomicAppendMany_of_none)
  unique := Represents.unique

end Mnesis.Fjall
