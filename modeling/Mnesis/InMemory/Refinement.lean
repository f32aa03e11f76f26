import Mnesis.InMemory.Store

/-!
# The in-memory store is an event log

The rows of the streams, the index of all events and the position counter
represent one event log, and every call has the same answer and the same effect
on both.
-/

namespace Mnesis.InMemory

open Foundation Kernel Store Wire

/-- What the store admits: any stream, frames of less than 4 GiB, and positions
that have a successor. -/
def limits : LogLimits StreamKey PendingEnvelope where
  admits _ := true
  fits envelope := envelopeLen envelope < 2 ^ 32
  capacity := 2 ^ 64 - 2

/-- The stored form of an envelope. -/
def storedFrame (envelope : PendingEnvelope) : StoredFrame where
  version := envelope.version.asU64
  value := (frameOf envelope).value
  offsets := (frameOf envelope).offsets
  schemaVersion := envelope.schemaVersion

theorem encodePendingToFrame_eq_ok :
    encodePendingToFrame envelope = .ok frame ↔
      envelopeLen envelope < 2 ^ 32 ∧ storedFrame envelope = frame := by
  simp only [encodePendingToFrame, bind_eq_ok, mapError_eq_ok, encodeFrame_envelope,
    pure_eq_ok, Except.ok.injEq]
  constructor
  · rintro ⟨_, ⟨fits, rfl⟩, rfl⟩
    exact ⟨fits, rfl⟩
  · rintro ⟨fits, rfl⟩
    exact ⟨_, ⟨fits, rfl⟩, rfl⟩

/-- The rows of the streams are those of the entries. -/
structure StreamsRepresent (streams : Std.ExtHashMap StreamKey (List StoredFrame))
    (entries : List (StreamKey × PendingEnvelope)) : Prop where
  rows : ∀ key, streams[key]? =
    if eventsOf entries key = [] then none
    else some ((eventsOf entries key).map storedFrame)

/-- The index has the entries at their positions. -/
def IndexRepresents (index : Std.ExtTreeMap InMemoryAllPos (StreamKey × StoredFrame) compare)
    (entries : List (StreamKey × PendingEnvelope)) : Prop :=
  ∀ position : InMemoryAllPos, index[position]? =
    entries[position.toNat - 1]?.map fun entry => (entry.1, storedFrame entry.2)

/-- The state of the store represents an event log. -/
structure Represents (inner : Inner) (log : Log) : Prop where
  streams : StreamsRepresent inner.streams log.entries
  next : inner.nextGlobalSeq.toNat = log.count + 1
  index : IndexRepresents inner.globalIndex log.entries
  bounded : log.Bounded limits

theorem Represents.unique {inner : Inner} (represents : Represents inner log)
    (otherRepresents : Represents other log) :
    inner = other := by
  obtain ⟨streams, next, index⟩ := inner
  obtain ⟨otherStreams, otherNext, otherIndex⟩ := other
  have sameStreams : streams = otherStreams :=
    Std.ExtHashMap.ext_getElem? fun key =>
      (represents.streams.rows key).trans (otherRepresents.streams.rows key).symm
  have sameNext : next = otherNext :=
    Version.toNat_injective (represents.next.trans otherRepresents.next.symm)
  have sameIndex : index = otherIndex :=
    Std.ExtTreeMap.ext_getElem? fun position =>
      (represents.index position).trans (otherRepresents.index position).symm
  rw [sameStreams, sameNext, sameIndex]

theorem represents_default : Represents .default (.empty versionNumber) where
  streams.rows key := by
    simp only [Inner.default, Std.ExtHashMap.getElem?_empty]
    rfl
  next := rfl
  index position := by
    simp only [Inner.default, Std.ExtTreeMap.getElem?_empty]
    rfl
  bounded := EventLog.bounded_empty

theorem IndexRepresents.insert
    (represents : IndexRepresents index entries) (next : position.toNat = entries.length + 1)
    (id : StreamKey) (envelope : PendingEnvelope) :
    IndexRepresents (index.insert position (id, storedFrame envelope))
      (entries ++ [(id, envelope)]) := by
  intro other
  rw [Std.ExtTreeMap.getElem?_insert]
  split
  next same =>
    obtain rfl := Std.compare_eq_iff_eq.mp same
    rw [next, Nat.add_sub_cancel, List.getElem?_concat_length]
    rfl
  next different =>
    have differentNumber : other.toNat ≠ entries.length + 1 := by
      intro same
      exact different (Std.compare_eq_iff_eq.mpr (Version.toNat_injective (next.trans same.symm)))
    have positive := other.toNat_pos
    rw [represents other, List.getElem?_append]
    split
    next => rfl
    next outside =>
      rw [List.getElem?_eq_none (by omega), List.getElem?_eq_none (by simp; omega)]

/-- What was assigned to envelopes: their frames, consecutive positions behind
`seq`, and the last of these positions. -/
structure Assigned (lastAssigned seq : InMemoryAllPos) (envelopes : List PendingEnvelope)
    (rows : List (InMemoryAllPos × StoredFrame)) (lastAfter seqAfter : InMemoryAllPos) : Prop where
  fits : ∀ envelope ∈ envelopes, envelopeLen envelope < 2 ^ 32
  frames : rows.map Prod.snd = envelopes.map storedFrame
  next : seqAfter.toNat = seq.toNat + envelopes.length
  last : envelopes ≠ [] ∨ lastAssigned.toNat + 1 = seq.toNat → lastAfter.toNat + 1 = seqAfter.toNat
  index : ∀ {index : Std.ExtTreeMap InMemoryAllPos (StreamKey × StoredFrame) compare}
    {entries : List (StreamKey × PendingEnvelope)} (id : StreamKey),
    IndexRepresents index entries → seq.toNat = entries.length + 1 →
    IndexRepresents (indexRows id rows index)
      (entries ++ envelopes.map fun envelope => (id, envelope))

theorem assigned_of_assignPositions
    (isAssigned : assignPositions lastAssigned seq envelopes = .ok (rows, lastAfter, seqAfter)) :
    Assigned lastAssigned seq envelopes rows lastAfter seqAfter := by
  induction envelopes generalizing lastAssigned seq rows lastAfter seqAfter with
  | nil =>
    cases isAssigned
    constructor
    · simp
    · rfl
    · rfl
    · rintro (nonempty | last)
      · exact absurd rfl nonempty
      · exact last
    · intro index entries id represents _
      rw [List.map_nil, List.append_nil]
      exact represents
  | cons envelope rest assigned =>
    simp only [assignPositions, bind_eq_ok, encodePendingToFrame_eq_ok, okOr_eq_ok,
      Version.next_eq_some] at isAssigned
    obtain ⟨_, ⟨firstFits, rfl⟩, next, isNext, ⟨_, _, _⟩, isAssigned, same⟩ := isAssigned
    cases same
    have assigned := assigned isAssigned
    constructor
    · rw [List.forall_mem_cons]
      exact ⟨firstFits, assigned.fits⟩
    · rw [List.map_cons, List.map_cons, assigned.frames]
    · rw [assigned.next, isNext, List.length_cons]
      omega
    · intro _
      exact assigned.last (.inr isNext.symm)
    · intro index entries id represents first
      have inserted := represents.insert first id envelope
      have rest := assigned.index id inserted (by rw [isNext, first]; simp)
      rw [List.append_assoc, List.singleton_append] at rest
      exact rest

theorem exists_assignPositions (lastAssigned : InMemoryAllPos) {seq : InMemoryAllPos}
    {envelopes : List PendingEnvelope}
    (fits : ∀ envelope ∈ envelopes, envelopeLen envelope < 2 ^ 32)
    (room : seq.toNat + envelopes.length < 2 ^ 64) :
    ∃ rows lastAfter seqAfter,
      assignPositions lastAssigned seq envelopes = .ok (rows, lastAfter, seqAfter) := by
  induction envelopes generalizing lastAssigned seq with
  | nil => exact ⟨[], lastAssigned, seq, rfl⟩
  | cons envelope rest assigned =>
    rw [List.forall_mem_cons] at fits
    rw [List.length_cons] at room
    have nextRoom : depth (some seq) + 1 < 2 ^ 64 := by
      rw [depth_some]
      omega
    obtain ⟨next, isNext⟩ : ∃ next, seq.next = some next := following_of_lt nextRoom
    have nextNumber := Version.next_eq_some.mp isNext
    obtain ⟨rows, lastAfter, seqAfter, isAssigned⟩ := @assigned seq next fits.2 (by omega)
    refine ⟨(seq, storedFrame envelope) :: rows, lastAfter, seqAfter, ?_⟩
    rw [assignPositions, encodePendingToFrame_eq_ok.mpr ⟨fits.1, rfl⟩, ok_bind, isNext,
      okOr_some, ok_bind, isAssigned, ok_bind]
    rfl

theorem StreamsRepresent.getD (represents : StreamsRepresent streams entries) (key : StreamKey) :
    streams[key]?.getD [] = (eventsOf entries key).map storedFrame := by
  rw [represents.rows key]
  split
  next empty => rw [empty, List.map_nil, Option.getD_none]
  next => rw [Option.getD_some]

theorem StreamsRepresent.extend {streams : Std.ExtHashMap StreamKey (List StoredFrame)}
    {entries : List (StreamKey × PendingEnvelope)} {write : Write StreamKey PendingEnvelope}
    (represents : StreamsRepresent streams entries) (nonempty : write.events ≠ []) :
    StreamsRepresent (extendStream write.target (write.events.map storedFrame) streams)
      (entries ++ write.entries) := by
  refine ⟨fun key => ?_⟩
  rw [extendStream, Std.ExtHashMap.getElem?_insert, represents.getD, eventsOf_append]
  by_cases same : write.target = key
  · subst same
    rw [eventsOf_entries, if_pos (beq_self_eq_true _), if_neg (by simp [nonempty]), List.map_append]
  · rw [if_neg (by simpa using same), eventsOf_entries_of_ne same, List.append_nil]
    exact represents.rows key

/-- The entries of runs. -/
def runEntries (writes : List PlannedAppend) : List (StreamKey × PendingEnvelope) :=
  (writes.map PlannedAppend.toWrite).flatMap Write.entries

theorem runEntries_cons (write : PlannedAppend) (writes : List PlannedAppend) :
    runEntries (write :: writes) = write.toWrite.entries ++ runEntries writes := rfl

/-- The state with staged runs. -/
def Inner.commit (inner : Inner) (staged : List (StreamKey × List (InMemoryAllPos × StoredFrame)))
    (seq : InMemoryAllPos) : Inner where
  streams := staged.foldl
    (fun streams run => extendStream run.1 (run.2.map Prod.snd) streams) inner.streams
  nextGlobalSeq := seq
  globalIndex := staged.foldl (fun index run => indexRows run.1 run.2 index) inner.globalIndex

/-- What was staged for runs: positions for all of them, and rows that add their
entries. -/
structure Staged (lastAssigned seq : InMemoryAllPos) (writes : List PlannedAppend)
    (staged : List (StreamKey × List (InMemoryAllPos × StoredFrame)))
    (lastAfter seqAfter : InMemoryAllPos) : Prop where
  fits : ∀ write ∈ writes, ∀ envelope ∈ write.batch.toList, envelopeLen envelope < 2 ^ 32
  next : seqAfter.toNat = seq.toNat + (runEntries writes).length
  last : writes ≠ [] ∨ lastAssigned.toNat + 1 = seq.toNat → lastAfter.toNat + 1 = seqAfter.toNat
  streams : ∀ {inner : Inner} {entries : List (StreamKey × PendingEnvelope)},
    StreamsRepresent inner.streams entries →
    StreamsRepresent (inner.commit staged seqAfter).streams (entries ++ runEntries writes)
  index : ∀ {inner : Inner} {entries : List (StreamKey × PendingEnvelope)},
    IndexRepresents inner.globalIndex entries → seq.toNat = entries.length + 1 →
    IndexRepresents (inner.commit staged seqAfter).globalIndex (entries ++ runEntries writes)

/-- Runs are staged one behind the other. -/
theorem staged_of_stageRuns
    (isStaged : stageRuns lastAssigned seq writes = .ok (staged, lastAfter, seqAfter)) :
    Staged lastAssigned seq writes staged lastAfter seqAfter := by
  induction writes generalizing lastAssigned seq staged lastAfter seqAfter with
  | nil =>
    cases isStaged
    constructor
    · simp
    · rfl
    · rintro (nonempty | last)
      · exact absurd rfl nonempty
      · exact last
    · intro inner entries represents
      exact (List.append_nil entries).symm ▸ represents
    · intro inner entries represents _
      exact (List.append_nil entries).symm ▸ represents
  | cons write writes rest =>
    simp only [stageRuns, bind_eq_ok] at isStaged
    obtain ⟨⟨rows, lastMiddle, seqMiddle⟩, isAssigned, ⟨_, _, _⟩, isStaged, same⟩ := isStaged
    cases same
    have assigned := assigned_of_assignPositions isAssigned
    have middle : seqMiddle.toNat = seq.toNat + write.toWrite.events.length := assigned.next
    have rest := rest isStaged
    constructor
    · rw [List.forall_mem_cons]
      exact ⟨assigned.fits, rest.fits⟩
    · rw [rest.next, middle, runEntries_cons, List.length_append, Write.length_entries,
        Nat.add_assoc]
    · intro _
      exact rest.last (.inr (assigned.last (.inl write.batch.toList_ne_nil)))
    · intro inner entries represents
      rw [runEntries_cons, ← List.append_assoc]
      have extended :=
        @StreamsRepresent.extend _ _ write.toWrite represents write.batch.toList_ne_nil
      exact @Staged.streams _ _ _ _ _ _ rest
        { inner with streams := extendStream write.target (rows.map Prod.snd) inner.streams } _
        (assigned.frames ▸ extended)
    · intro inner entries represents first
      rw [runEntries_cons, ← List.append_assoc]
      refine @Staged.index _ _ _ _ _ _ rest
        { inner with globalIndex := indexRows write.target rows inner.globalIndex } _
        (assigned.index write.target represents first) ?_
      change seqMiddle.toNat = _
      rw [List.length_append, Write.length_entries]
      omega

theorem exists_stageRuns (lastAssigned : InMemoryAllPos) {seq : InMemoryAllPos}
    {writes : List PlannedAppend}
    (fits : ∀ write ∈ writes, ∀ envelope ∈ write.batch.toList, envelopeLen envelope < 2 ^ 32)
    (room : seq.toNat + (runEntries writes).length < 2 ^ 64) :
    ∃ staged lastAfter seqAfter,
      stageRuns lastAssigned seq writes = .ok (staged, lastAfter, seqAfter) := by
  induction writes generalizing lastAssigned seq with
  | nil => exact ⟨[], lastAssigned, seq, rfl⟩
  | cons write writes staged =>
    rw [List.forall_mem_cons] at fits
    rw [runEntries_cons, List.length_append, Write.length_entries] at room
    have room : seq.toNat + (write.batch.toList.length + (runEntries writes).length) <
      2 ^ 64 := room
    obtain ⟨rows, lastMiddle, seqMiddle, isAssigned⟩ :=
      @exists_assignPositions lastAssigned seq _ fits.1 (by omega)
    have middle := (assigned_of_assignPositions isAssigned).next
    obtain ⟨runs, lastAfter, seqAfter, isStaged⟩ := @staged lastMiddle seqMiddle fits.2 (by omega)
    refine ⟨(write.target, rows) :: runs, lastAfter, seqAfter, ?_⟩
    simp only [stageRuns, isAssigned, ok_bind, isStaged]
    rfl

theorem stageRuns_singleton_eq_ok :
    stageRuns lastAssigned seq [write] = .ok (staged, lastAfter, seqAfter) ↔
      ∃ rows, staged = [(write.target, rows)] ∧
        assignPositions lastAssigned seq write.batch.toList = .ok (rows, lastAfter, seqAfter) := by
  simp only [stageRuns, bind_eq_ok, pure_eq_ok, Except.ok.injEq, Prod.mk.injEq]
  constructor
  · rintro ⟨⟨rows, _, _⟩, isAssigned, _, rfl, rfl, rfl, rfl⟩
    exact ⟨rows, rfl, isAssigned⟩
  · rintro ⟨rows, rfl, isAssigned⟩
    exact ⟨_, isAssigned, _, rfl, rfl, rfl, rfl⟩

section Call

variable {inner : Inner}

section

variable (represents : Represents inner log)
include represents

theorem Represents.streamLen (id : StreamKey) : inner.streamLen id = (log.stream id).length := by
  rw [Inner.streamLen, represents.streams.rows id]
  split
  next empty => simp [EventLog.stream, empty]
  next => simp [EventLog.stream]

theorem Represents.length_lt (id : StreamKey) : (log.stream id).length < 2 ^ 64 := by
  have inLog := log.length_stream_le id
  have within : log.count ≤ 2 ^ 64 - 2 := represents.bounded.count_le
  omega

theorem Represents.lenAsU64 (id : StreamKey) :
    InMemory.lenAsU64 (inner.streamLen id) = .ok (UInt64.ofNat (log.stream id).length) := by
  rw [represents.streamLen, InMemory.lenAsU64, narrow_of_lt (represents.length_lt id)]
  rfl

theorem Represents.toNat_length (id : StreamKey) :
    (UInt64.ofNat (log.stream id).length).toNat = (log.stream id).length :=
  UInt64.toNat_ofNat_of_lt' (represents.length_lt id)

theorem Represents.validate_eq_ok {id : StreamKey} :
    validateAppendVersions (UInt64.ofNat (log.stream id).length) expected envelopes id = .ok () ↔
      EventLog.Continues versionNumber (log.stream id).length
        ⟨id, depth expected, envelopes.toList⟩ := by
  rw [validateAppendVersions_eq_ok, represents.toNat_length]
  rfl

/-- Runs that the log accepts are staged and have the same effect. -/
theorem Represents.commit {writes : List PlannedAppend} {after : Log} (nonempty : writes ≠ [])
    (distinct : ((writes.map PlannedAppend.toWrite).map Write.target).Nodup)
    (accepted : (writes.map PlannedAppend.toWrite).foldlM (EventLog.append limits) log =
      some after) :
    ∃ staged position seqAfter,
      stageRuns inner.nextGlobalSeq inner.nextGlobalSeq writes = .ok (staged, position, seqAfter) ∧
      position.toNat = after.count ∧ Represents (inner.commit staged seqAfter) after := by
  obtain ⟨acceptable, added⟩ :=
    EventLog.acceptable_of_foldlM represents.bounded.count_le distinct accepted
  have fits : ∀ write ∈ writes, ∀ envelope ∈ write.batch.toList, envelopeLen envelope < 2 ^ 32 := by
    intro write isWrite envelope present
    obtain ⟨_, fits⟩ := acceptable.admitted _ (List.mem_map_of_mem isWrite)
    exact of_decide_eq_true (fits envelope present)
  have capacity : log.count + (runEntries writes).length ≤ 2 ^ 64 - 2 := acceptable.room
  have next := represents.next
  obtain ⟨staged, position, seqAfter, isStaged⟩ :=
    @exists_stageRuns inner.nextGlobalSeq inner.nextGlobalSeq _ fits (by omega)
  have stagedRuns := staged_of_stageRuns isStaged
  have last := stagedRuns.last (.inl nonempty)
  have nextAfter := stagedRuns.next
  have count : after.count = log.count + (runEntries writes).length :=
    EventLog.count_of_entries added
  refine ⟨staged, position, seqAfter, isStaged, by omega, ?_⟩
  constructor
  · rw [added]
    exact stagedRuns.streams represents.streams
  · change seqAfter.toNat = after.count + 1
    omega
  · rw [added]
    exact stagedRuns.index represents.index next
  · exact represents.bounded.extend acceptable added

/-- Runs that continue their streams are staged only if they are acceptable. -/
theorem Represents.acceptable_of_stageRuns
    {writes : List PlannedAppend} {staged : List (StreamKey × List (InMemoryAllPos × StoredFrame))}
    {position seqAfter : InMemoryAllPos}
    (continues : ∀ write ∈ writes, EventLog.Continues versionNumber
      (log.stream write.target).length write.toWrite)
    (isStaged : stageRuns inner.nextGlobalSeq inner.nextGlobalSeq writes =
      .ok (staged, position, seqAfter)) :
    EventLog.Acceptable limits log (writes.map PlannedAppend.toWrite) := by
  have stagedRuns := staged_of_stageRuns isStaged
  have next := represents.next
  have nextAfter := stagedRuns.next
  have below : seqAfter.toNat < 2 ^ 64 := seqAfter.asU64.toNat_lt
  constructor
  · rw [List.forall_mem_map]
    exact fun write isWrite => ⟨rfl, fun envelope present =>
      decide_eq_true (stagedRuns.fits write isWrite envelope present)⟩
  · rw [List.forall_mem_map]
    exact continues
  · change log.count + (runEntries writes).length ≤ 2 ^ 64 - 2
    omega

theorem Represents.append_of_some {id : StreamKey}
    (accepted : log.append limits ⟨id, depth expected, envelopes.toList⟩ = some after) :
    ∃ position innerAfter,
      (append id expected envelopes).exec inner = (.ok position, innerAfter) ∧
      position.toNat = after.count ∧ Represents innerAfter after := by
  obtain ⟨_, continues, _, _⟩ := EventLog.append_eq_some.mp accepted
  obtain ⟨staged, position, seqAfter, isStaged, last, committed⟩ :=
    @Represents.commit _ _ represents [⟨id, expected, envelopes.first, envelopes.rest⟩] after
      (List.cons_ne_nil _ _) (List.nodup_singleton _)
      ((EventLog.foldlM_append_singleton log _).trans accepted)
  obtain ⟨rows, rfl, isAssigned⟩ := stageRuns_singleton_eq_ok.mp isStaged
  have isAssigned : assignPositions inner.nextGlobalSeq inner.nextGlobalSeq
      envelopes.toList = .ok (rows, position, seqAfter) := isAssigned
  refine ⟨position, _, ?_, last, committed⟩
  rw [append, exec_get_bind, exec_mapped_bind (represents.lenAsU64 id),
    exec_mapped_bind (represents.validate_eq_ok.mpr continues), isAssigned]
  rfl

theorem Represents.append_of_none {id : StreamKey}
    (refused : log.append limits ⟨id, depth expected, envelopes.toList⟩ = none) :
    (append id expected envelopes).Fails inner := by
  refine fails_get_bind ?_
  rw [represents.lenAsU64]
  refine fails_ofResult_bind fun _ current => ?_
  obtain rfl := Except.ok.inj current
  refine fails_ofResult_bind fun _ contract => ?_
  refine fails_ofResult_bind fun assigned isAssigned => ?_
  -- Everything passed, so that the log would have accepted the batch.
  obtain ⟨rows, position, seqAfter⟩ := assigned
  rw [mapError_eq_ok] at contract isAssigned
  have acceptable := @Represents.acceptable_of_stageRuns _ _ represents
    [⟨id, expected, envelopes.first, envelopes.rest⟩] _ position seqAfter
    (List.forall_mem_singleton.mpr (represents.validate_eq_ok.mp contract))
    (stageRuns_singleton_eq_ok.mpr ⟨rows, rfl, isAssigned⟩)
  obtain ⟨after, accepted⟩ := acceptable.exists_foldlM (List.nodup_singleton _)
  cases ((EventLog.foldlM_append_singleton log _).trans refused).symm.trans accepted

theorem Represents.checksHeads : ChecksHeads log (validateHeads inner) where
  nil _ := rfl
  cons _ _ _ := by rw [validateHeads, represents.lenAsU64, mapError_ok, ok_bind]
  bounded := represents.length_lt

theorem Represents.checks_eq_ok :
    (validateAtomicRuns writes = .ok () ∧ validateHeads inner 0 writes = .ok ()) ↔
      ∀ write ∈ writes, EventLog.Continues versionNumber
        (log.stream write.target).length write.toWrite := by
  rw [continues_iff_validateAtomicRuns, represents.checksHeads.eq_ok]

/-- Runs that the log accepts are stored together. -/
theorem Represents.atomicAppendMany_of_some (nonempty : writes ≠ [])
    (accepted : log.appendAll limits (writes.map PlannedAppend.toWrite) = some after) :
    ∃ position innerAfter,
      (atomicAppendMany writes).exec inner = (.ok (some position), innerAfter) ∧
      position.toNat = after.count ∧ Represents innerAfter after := by
  rw [EventLog.appendAll, Option.ite_none_right_eq_some] at accepted
  obtain ⟨distinct, accepted⟩ := accepted
  obtain ⟨acceptable, _⟩ :=
    EventLog.acceptable_of_foldlM represents.bounded.count_le distinct accepted
  obtain ⟨staged, position, seqAfter, isStaged, last, committed⟩ :=
    represents.commit nonempty distinct accepted
  rw [map_target_toWrite] at distinct
  obtain ⟨runsValid, headsValid⟩ :=
    represents.checks_eq_ok.mpr (List.forall_mem_map.mp acceptable.continues)
  refine ⟨position, _, ?_, last, committed⟩
  rw [atomicAppendMany, if_neg (by simpa using nonempty),
    validateDistinctTargets_eq_ok.mpr distinct, runsValid]
  change ((Locked.ofResult (validateHeads inner 0 writes) >>= _ : Locked _ _ _)).exec inner = _
  rw [headsValid, exec_ofResult_ok_bind, isStaged]
  rfl

theorem Represents.atomicAppendMany_of_none (nonempty : writes ≠ [])
    (refused : log.appendAll limits (writes.map PlannedAppend.toWrite) = none) :
    (atomicAppendMany writes).Fails inner := by
  rw [atomicAppendMany, if_neg (by simpa using nonempty)]
  refine fails_ofResult_bind fun _ route => ?_
  refine fails_ofResult_bind fun _ runs => ?_
  refine fails_get_bind ?_
  refine fails_ofResult_bind fun _ heads => ?_
  refine fails_ofResult_bind fun staged isStaged => ?_
  -- Everything passed, so that the log would have accepted the runs.
  obtain ⟨staged, position, seqAfter⟩ := staged
  rw [mapError_eq_ok] at route runs isStaged
  have distinct := validateDistinctTargets_eq_ok.mp route
  rw [← map_target_toWrite] at distinct
  have acceptable := represents.acceptable_of_stageRuns
    (represents.checks_eq_ok.mp ⟨runs, heads⟩) isStaged
  obtain ⟨after, accepted⟩ := acceptable.exists_foldlM distinct
  rw [EventLog.appendAll, if_pos distinct, accepted] at refused
  cases refused

end

end Call

theorem implements : Implements machine limits Represents where
  refines := writeMachine_refines represents_default
    (fun related => related.append_of_some) (fun related => related.append_of_none)
    (fun _ => rfl)
    (fun related => related.atomicAppendMany_of_some)
    (fun related => related.atomicAppendMany_of_none)
  unique := Represents.unique

end Mnesis.InMemory
