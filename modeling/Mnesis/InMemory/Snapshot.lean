import Mnesis.InMemory.Refinement

/-!
# What export cursors read

The rows of a store stay at their places while others write to it.  The cursors of
a session therefore yield the streams as they were when it was opened, whatever
was appended before any of their pages.
-/

namespace Mnesis.InMemory

open Foundation Kernel Store Wire

/-- The last version of a stream. -/
def headOf (log : Log) (key : StreamKey) : Option UInt64 :=
  if log.stream key = [] then none else some (UInt64.ofNat (log.stream key).length)

theorem frameToEnvelope_storedFrame (fits : envelopeLen envelope < 2 ^ 32) :
    ∃ event, frameToEnvelope (storedFrame envelope) = .ok event ∧ event.toPending = envelope := by
  have encoded := encodeFrame_envelope.mpr ⟨fits, rfl⟩
  obtain ⟨event, built, values⟩ := tryNew_encodeFrame encoded envelope.version
  have isVersion : Version.new (storedFrame envelope).version = some envelope.version :=
    Version.new_eq_some.mpr rfl
  refine ⟨event, ?_, values⟩
  unfold frameToEnvelope
  rw [isVersion, okOr_some, ok_bind, mapError_eq_ok]
  exact built

section Represents

variable {inner : Inner}

theorem Represents.heads_of_open (represents : Represents inner log)
    (opened : openExportSession clockLimit lifetime now inner = .ok session) (key : StreamKey) :
    headAmong session.heads key = headOf log key := by
  unfold openExportSession at opened
  obtain ⟨_, _, opened⟩ := bind_eq_ok.mp opened
  obtain ⟨deadline, _, opened⟩ := bind_eq_ok.mp opened
  cases opened
  change (inner.streams.filterMap _)[key]? = _
  rw [Std.ExtHashMap.getElem?_filterMap', represents.streams.rows key, headOf]
  change (if log.stream key = [] then _ else some ((log.stream key).map storedFrame)).bind _ = _
  split
  next => rfl
  next nonempty =>
    obtain ⟨last, isLast⟩ := List.getLast?_isSome.mpr nonempty |> Option.isSome_iff_exists.mp
    have place := isLast
    rw [List.getLast?_eq_getElem?] at place
    have number := EventLog.version_of_getElem? place
    have positive := List.length_pos_iff.mpr nonempty
    rw [Option.bind_some, List.getLast?_map, isLast, Option.map_some, Option.map_some,
      Option.some_inj]
    apply UInt64.toNat_inj.mp
    rw [represents.toNat_length]
    change versionNumber last = _
    omega

end Represents

theorem drop_below_numbered {rows : List StoredFrame}
    (numbered : rows.map (fun row => row.version.toNat) = List.range' 1 rows.length)
    (isStart : start.toNat = place + 1) :
    rows.drop (rows.takeWhile fun row => row.version < start).length = rows.drop place := by
  have skipped : rows.takeWhile (fun row => row.version < start) = rows.take place := by
    have below := takeWhile_numbered numbered start.toNat
    rw [isStart, Nat.add_sub_cancel] at below
    rw [← below]
    congr 1
    funext row
    simp only [UInt64.lt_iff_toNat_lt, isStart]
  rw [skipped, List.length_take]
  rcases Nat.le_total place rows.length with inside | beyond
  · rw [Nat.min_eq_left inside]
  · rw [Nat.min_eq_right beyond, List.drop_length, List.drop_of_length_le beyond]

theorem exportPage_numbered (batchSize : BatchSize) {rows : List StoredFrame}
    (numbered : rows.map (fun row => row.version.toNat) = List.range' 1 rows.length)
    (isStart : start.toNat = place + 1) :
    exportPage batchSize start ceiling rows =
      ((rows.take ceiling.toNat).drop place).take batchSize.get := by
  have numberedRest := numbered_of_prefix_drop numbered (List.prefix_refl (rows.drop place))
  have kept : (rows.drop place).takeWhile (fun row => row.version ≤ ceiling) =
      (rows.drop place).take (ceiling.toNat - place) := by
    have below := takeWhile_numbered numberedRest (ceiling.toNat + 1)
    rw [show ceiling.toNat + 1 - (1 + place) = ceiling.toNat - place by omega] at below
    rw [← below]
    congr 1
    funext row
    simp only [UInt64.le_iff_toNat_le, Nat.lt_succ_iff]
  rw [exportPage, drop_below_numbered numbered isStart, kept, List.drop_take]

/-- What a cursor has read of a stream: it stands behind the first `place` events
and has some of the following ones read ahead. -/
structure ExportState.At (log : Log) (place : Nat) (state : ExportState) : Prop where
  head : state.head = headOf log state.key
  next : ∃ version, state.next = some version ∧ version.toNat = place + 1
  buffer : ∃ ahead, state.buffer = (((log.stream state.key).drop place).take ahead).map storedFrame

section Cursor

variable {inner : Inner} {log later : Log}

/-- In a store with at least the events of a log, a page up to the last version of
a stream has the next events of the log. -/
theorem Represents.exportPage (represents : Represents inner later)
    (more : log.entries <+: later.entries) (batchSize : BatchSize)
    {start : Version} (isStart : start.toNat = place + 1) (nonempty : log.stream key ≠ []) :
    ((inner.history key).map fun history => InMemory.exportPage batchSize start.asU64
        (UInt64.ofNat (log.stream key).length) history) =
      some ((((log.stream key).drop place).take batchSize.get).map storedFrame) := by
  have first := EventLog.stream_prefix more key
  have longer := first.length_le
  have present : later.stream key ≠ [] := by
    intro empty
    rw [empty] at first
    exact nonempty (List.prefix_nil.mp first)
  have numbered : ((later.stream key).map storedFrame).map (fun row => row.version.toNat) =
      List.range' 1 ((later.stream key).map storedFrame).length := by
    rw [List.map_map, List.length_map]
    exact later.numbered key
  have ceiling : (UInt64.ofNat (log.stream key).length).toNat = (log.stream key).length :=
    UInt64.toNat_ofNat_of_lt' (Nat.lt_of_le_of_lt longer (represents.length_lt key))
  rw [Inner.history, represents.streams.rows key]
  change Option.map _ (if later.stream key = [] then none
    else some ((later.stream key).map storedFrame)) = _
  rw [if_neg present, Option.map_some, exportPage_numbered batchSize numbered isStart, ceiling,
    ← List.map_take, ← List.prefix_iff_eq_take.mp first, ← List.map_drop, ← List.map_take]

theorem length_succ_lt (bounded : log.Bounded limits) (key : StreamKey) :
    (log.stream key).length + 1 < 2 ^ 64 := by
  have inLog := log.length_stream_le key
  have within : log.count ≤ 2 ^ 64 - 2 := bounded.count_le
  omega

theorem ofNat_length_lt_iff (bounded : log.Bounded limits) {version : Version}
    (number : version.toNat = place + 1) :
    UInt64.ofNat (log.stream key).length < version.asU64 ↔ (log.stream key).length ≤ place := by
  have fits := Nat.lt_of_succ_lt (length_succ_lt bounded key)
  rw [UInt64.lt_iff_toNat_lt, UInt64.toNat_ofNat_of_lt' fits]
  change _ < version.toNat ↔ _
  rw [number, Nat.lt_succ_iff]

theorem ExportState.At.refill_of_nil (at_ : state.At log place) (bounded : log.Bounded limits)
    (batchSize : BatchSize) (inner : Inner) (ended : (log.stream state.key).drop place = []) :
    refill batchSize inner state = none := by
  obtain ⟨version, isNext, number⟩ := at_.next
  obtain ⟨ahead, isBuffer⟩ := at_.buffer
  rw [ended, List.take_nil, List.map_nil] at isBuffer
  rw [refill, isBuffer, List.isEmpty_nil, if_pos rfl, isNext, at_.head, headOf]
  split
  next => rfl
  next =>
    exact if_pos ((ofNat_length_lt_iff bounded number).mpr (List.drop_eq_nil_iff.mp ended))

/-- In front of an event, its row is the first one to take. -/
theorem ExportState.At.refill_of_cons (at_ : state.At log place) (bounded : log.Bounded limits)
    (batchSize : BatchSize) (represents : Represents inner later)
    (more : log.entries <+: later.entries) {envelopes : List PendingEnvelope}
    (remaining : (log.stream state.key).drop place = envelope :: envelopes) :
    ∃ ahead, refill batchSize inner state =
      some (storedFrame envelope :: (envelopes.take ahead).map storedFrame) := by
  obtain ⟨version, isNext, number⟩ := at_.next
  obtain ⟨ahead, isBuffer⟩ := at_.buffer
  rw [remaining] at isBuffer
  cases ahead with
  | zero =>
    -- nothing was read ahead: another page is read
    have inside : place < (log.stream state.key).length := by
      by_contra beyond
      rw [List.drop_of_length_le (Nat.le_of_not_lt beyond)] at remaining
      cases remaining
    have nonempty : log.stream state.key ≠ [] :=
      List.ne_nil_of_length_pos (Nat.zero_lt_of_lt inside)
    have within : ¬ UInt64.ofNat (log.stream state.key).length < version.asU64 := by
      rw [ofNat_length_lt_iff bounded number]
      exact Nat.not_le_of_lt inside
    have page := represents.exportPage more batchSize number nonempty
    obtain ⟨history, isHistory, isPage⟩ := Option.map_eq_some_iff.mp page
    refine ⟨batchSize.get - 1, ?_⟩
    rw [List.take_zero, List.map_nil] at isBuffer
    rw [refill, isBuffer, List.isEmpty_nil, if_pos rfl, isNext, at_.head, headOf, if_neg nonempty]
    change (if _ then _ else _) = _
    rw [if_neg within, isHistory]
    change some (InMemory.exportPage _ _ _ _) = _
    rw [isPage, remaining, List.take_cons batchSize.positive, List.map_cons]
  | succ ahead =>
    refine ⟨ahead, ?_⟩
    rw [refill, isBuffer, List.take_succ_cons, List.map_cons, List.isEmpty_cons]
    rfl

/-- Every stored frame decodes to its event. -/
theorem frameToEnvelope_of_stream (bounded : log.Bounded limits)
    (isNth : (log.stream key)[place]? = some envelope) :
    ∃ event following, frameToEnvelope (storedFrame envelope) = .ok event ∧
      event.toPending = envelope ∧
      event.version.next = some following ∧ following.toNat = place + 1 + 1 := by
  have present := List.mem_of_getElem? isNth
  have number : versionNumber envelope = place + 1 := EventLog.version_of_getElem? isNth
  have fits : envelopeLen envelope < 2 ^ 32 :=
    of_decide_eq_true (bounded.admitted _ (mem_eventsOf.mp present)).2
  obtain ⟨event, built, values⟩ := frameToEnvelope_storedFrame fits
  have isVersion : event.version = envelope.version := congrArg PendingEnvelope.version values
  -- the capacity of the store leaves a version behind the last event
  obtain ⟨following, isFollowing⟩ : ∃ following : Version, following.toNat = place + 1 + 1 := by
    have inside := (List.getElem?_eq_some_iff.mp isNth).1
    have room := length_succ_lt bounded key
    exact Version.exists_toNat_eq (Nat.succ_pos _) (by omega)
  refine ⟨event, following, built, values, ?_, isFollowing⟩
  rw [isVersion, Version.next_eq_some, isFollowing, ← number]
  rfl

/-- A cursor yields the next event of a stream as it was. -/
theorem ExportState.At.nextExported_of_cons (at_ : state.At log place)
    (bounded : log.Bounded limits) (batchSize : BatchSize) (represents : Represents inner later)
    (more : log.entries <+: later.entries)
    (remaining : (log.stream state.key).drop place = envelope :: envelopes) :
    ∃ event after, nextExported batchSize inner state = some (.ok event, after) ∧
      event.toPending = envelope ∧ after.key = state.key ∧ after.At log (place + 1) := by
  have isNth : (log.stream state.key)[place]? = some envelope := by
    rw [← List.head?_drop, remaining, List.head?_cons]
  obtain ⟨event, following, built, values, next, isFollowing⟩ :=
    frameToEnvelope_of_stream bounded isNth
  obtain ⟨ahead, refilled⟩ := at_.refill_of_cons bounded batchSize represents more remaining
  refine ⟨event, ⟨state.key, state.head, some following,
    (envelopes.take ahead).map storedFrame⟩, ?_, values, rfl, ?_⟩
  · unfold nextExported
    rw [refilled]
    simp only [built, mapError_ok, Except.toOption, Option.bind_some, next]
  · refine ⟨at_.head, ⟨following, rfl, isFollowing⟩, ahead, ?_⟩
    rw [← List.drop_drop, remaining, List.drop_succ_cons, List.drop_zero]

theorem ExportState.At.nextExported_of_nil (at_ : state.At log place) (bounded : log.Bounded limits)
    (batchSize : BatchSize) (inner : Inner) (ended : (log.stream state.key).drop place = []) :
    nextExported batchSize inner state = none := by
  unfold nextExported
  rw [at_.refill_of_nil bounded batchSize inner ended]

end Cursor

end Mnesis.InMemory
