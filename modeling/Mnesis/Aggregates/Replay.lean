import Mathlib.Data.List.Forall2
import Mnesis.Aggregates.Procedures
import Mnesis.Store.Append

/-!
# What stored rows decode and fold to

Rows record events when they have the versions from one on and decode to the
events one by one.  A root is faithful to the recorded events when its state is the
fold of as many of them as its version says.
-/

namespace Mnesis.Aggregates

open Foundation Kernel Store

variable {S : EventStore}

/-- The codec decodes what it encoded. -/
def EventStore.Lawful (S : EventStore) : Prop :=
  ∀ {event : S.A.Event} {bytes : Bytes} {envelope : PendingEnvelope},
    S.codec.encode event = .ok bytes →
    envelope.payload.asSlice = bytes →
    envelope.eventType = S.codec.name event →
    S.codec.decode envelope = .ok event

/-- Rows decode to events one by one. -/
def Decodes (S : EventStore) : List PendingEnvelope → List S.A.Event → Prop :=
  List.Forall₂ fun row event => S.codec.decode row = .ok event

/-- Rows have the versions behind a number of earlier ones. -/
def Numbered (earlier : Nat) (rows : List PendingEnvelope) : Prop :=
  rows.map versionNumber = List.range' (earlier + 1) rows.length

theorem numbered_nil (earlier : Nat) : Numbered earlier [] := rfl

theorem numbered_cons :
    Numbered earlier (row :: rows) ↔
      row.version.toNat = earlier + 1 ∧ Numbered (earlier + 1) rows := by
  simp [Numbered, List.range'_succ, versionNumber]

theorem numbered_append :
    Numbered earlier (rows ++ more) ↔
      Numbered earlier rows ∧ Numbered (earlier + rows.length) more := by
  induction rows generalizing earlier with
  | nil => simp [numbered_nil]
  | cons row rows step =>
    rw [List.cons_append, numbered_cons, numbered_cons, step, List.length_cons, and_assoc,
      Nat.add_assoc, Nat.add_comm 1]

theorem buildEnvelope_eq_ok :
    buildEnvelope version eventType payload.asSlice schemaVersion (metadata.map Metadata.asSlice) =
      .ok { version, eventType, schemaVersion, payload, metadata } := by
  unfold buildEnvelope
  rw [Payload.fromBytes_asSlice]
  cases metadata with
  | none => rfl
  | some metadata => simp

theorem encodeAt_eq_ok (lawful : S.Lawful)
    (encoded : S.encodeAt schemas event version = .ok envelope) :
    envelope.version = version ∧ S.codec.decode envelope = .ok event := by
  simp only [EventStore.encodeAt, bind_eq_ok, mapError_eq_ok, buildEnvelope_eq_ok,
    Except.ok.injEq] at encoded
  obtain ⟨bytes, encodes, payload, isPayload, rfl⟩ := encoded
  exact ⟨rfl, lawful encodes (Payload.fromBytes_eq_ok.mp isPayload) rfl⟩

theorem encodeRest_eq_ok (lawful : S.Lawful)
    (encoded : S.encodeRest schemas last events = .ok envelopes) :
    Numbered last.toNat envelopes ∧ Decodes S envelopes events := by
  induction events generalizing last envelopes with
  | nil =>
    cases encoded
    exact ⟨numbered_nil _, .nil⟩
  | cons event rest step =>
    simp only [EventStore.encodeRest, bind_eq_ok, okOr_eq_ok, pure_eq_ok,
      Except.ok.injEq] at encoded
    obtain ⟨version, isNext, envelope, first, others, encodedRest, rfl⟩ := encoded
    obtain ⟨rfl, decodes⟩ := encodeAt_eq_ok lawful first
    obtain ⟨numbered, decodesRest⟩ := step encodedRest
    have number := Version.next_eq_some.mp isNext
    rw [number] at numbered
    exact ⟨numbered_cons.mpr ⟨number, numbered⟩, .cons decodes decodesRest⟩

theorem prepareBatch_eq_ok (lawful : S.Lawful)
    (prepared : S.prepareBatch schemas root events = .ok batch) :
    (∃ version, root.commitVersion events = .ok version) ∧
      Numbered (depth root.version) batch.toList ∧
      Decodes S batch.toList events.toList := by
  simp only [EventStore.prepareBatch, bind_eq_ok, mapError_eq_ok, okOr_eq_ok, pure_eq_ok,
    Except.ok.injEq, following_eq_some] at prepared
  obtain ⟨ending, committed, version, isNext, head, first, tail, rest, rfl⟩ := prepared
  obtain ⟨rfl, decodes⟩ := encodeAt_eq_ok lawful first
  obtain ⟨numbered, decodesRest⟩ := encodeRest_eq_ok lawful rest
  rw [isNext] at numbered
  exact ⟨⟨ending, committed⟩, numbered_cons.mpr ⟨isNext, numbered⟩, .cons decodes decodesRest⟩

/-- Rows record events from the first version on. -/
structure Recorded (S : EventStore) (rows : List PendingEnvelope) (events : List S.A.Event) :
    Prop where
  numbered : Numbered 0 rows
  decodes : Decodes S rows events

namespace Recorded

variable {events : List S.A.Event}

theorem nil : Recorded S [] [] := ⟨numbered_nil 0, .nil⟩

section

variable (recorded : Recorded S rows events)
include recorded

theorem length_eq : rows.length = events.length :=
  recorded.decodes.length_eq

theorem append (numbered : Numbered events.length more) (decodes : Decodes S more later) :
    Recorded S (rows ++ more) (events ++ later) where
  numbered := by
    rw [numbered_append, Nat.zero_add, recorded.length_eq]
    exact ⟨recorded.numbered, numbered⟩
  decodes := List.rel_append recorded.decodes decodes

theorem of_prefix (earlier : moment <+: rows) : Recorded S moment (events.take moment.length) := by
  obtain ⟨rest, rfl⟩ := earlier
  refine ⟨(numbered_append.mp recorded.numbered).1, ?_⟩
  have taken := List.forall₂_take moment.length recorded.decodes
  rwa [List.take_left] at taken

theorem toNat_head :
    (rawHead (rows.getLast?.map PendingEnvelope.version)).toNat = rows.length := by
  have numbered := recorded.numbered
  cases rows using List.reverseRecOn with
  | nil => rfl
  | append_singleton rows row =>
    obtain ⟨_, last⟩ := numbered_append.mp numbered
    obtain ⟨number, _⟩ := numbered_cons.mp last
    rw [List.getLast?_concat, List.length_append, List.length_singleton]
    rw [Nat.zero_add] at number
    exact number

theorem exists_row (isEvent : events[index]? = some event) :
    ∃ row, rows[index]? = some row ∧ row.version.toNat = index + 1 ∧
      S.codec.decode row = .ok event := by
  obtain ⟨within, rfl⟩ := List.getElem?_eq_some_iff.mp isEvent
  have withinRows : index < rows.length := by
    rw [recorded.length_eq]
    exact within
  have number := congrArg (fun numbers => numbers[index]?) recorded.numbered
  rw [List.getElem?_map, List.getElem?_eq_getElem withinRows, List.getElem?_range' withinRows,
    Option.map_some, Option.some_inj] at number
  refine ⟨rows[index], List.getElem?_eq_getElem withinRows, ?_, recorded.decodes.get _ within⟩
  change versionNumber rows[index] = index + 1
  omega

end

end Recorded

/-- The state that the first events fold to. -/
def stateAfter (S : EventStore) (events : List S.A.Event) (count : Nat) : S.A.State :=
  (events.take count).foldl S.A.apply S.A.initial

/-- The state of a root is the fold of the first events, as many as its version
says. -/
structure Faithful (events : List S.A.Event) (root : S.Root) : Prop where
  within : depth root.version ≤ events.length
  state : root.state? = some (stateAfter S events (depth root.version))

theorem stateAfter_of_grown (isPrefix : events <+: longer) (within : count ≤ events.length) :
    stateAfter S longer count = stateAfter S events count := by
  obtain ⟨rest, rfl⟩ := isPrefix
  rw [stateAfter, List.take_append_of_le_length within]
  rfl

theorem Faithful.mono (faithful : Faithful events root) (isPrefix : events <+: longer) :
    Faithful longer root where
  within := Nat.le_trans faithful.within isPrefix.length_le
  state := by rw [stateAfter_of_grown isPrefix faithful.within, faithful.state]

theorem faithful_new (events : List S.A.Event) : Faithful events (.new : S.Root) where
  within := Nat.zero_le _
  state := rfl

/-- Rows that were replayed were folded. -/
theorem replayRows_eq_ok (usable : root.state? = some current) (decodes : Decodes S rows events)
    (replayed : (Repository.replayRows S.codec root rows : Except S.Error _) = .ok after) :
    after.state? = some (events.foldl S.A.apply current) ∧
      depth after.version = depth root.version + rows.length ∧
      after.replayedEvents = root.replayedEvents + rows.length := by
  induction decodes generalizing root current with
  | nil =>
    cases replayed
    exact ⟨usable, rfl, rfl⟩
  | @cons row event rows events decodesRow _ step =>
    rw [Repository.replayRows_cons, bind_eq_ok] at replayed
    obtain ⟨middle, first, rest⟩ := replayed
    rw [Repository.replayRow, decodesRow, mapError_ok, ok_bind, mapError_eq_ok] at first
    obtain ⟨state, isState, number, _, rfl⟩ := AggregateRoot.replay_eq_ok.mp first
    rw [usable, Option.some_inj] at isState
    subst isState
    obtain ⟨folded, reached, count⟩ := step rfl rest
    rw [depth_some, number] at reached
    refine ⟨folded, ?_, ?_⟩
    · rw [reached, List.length_cons, Nat.add_assoc, Nat.add_comm 1]
    · rw [count, List.length_cons, Nat.add_assoc, Nat.add_comm 1]

/-- Rows with the next versions are replayed, within the limit. -/
theorem exists_replayRows (usable : root.state? = some current)
    (numbered : Numbered (depth root.version) rows) (decodes : Decodes S rows events)
    (within : root.replayedEvents + rows.length ≤ S.A.maxRehydrationEvents) :
    ∃ after, (Repository.replayRows S.codec root rows : Except S.Error _) = .ok after := by
  induction decodes generalizing root current with
  | nil => exact ⟨root, rfl⟩
  | @cons row event rows events decodesRow _ step =>
    rw [List.length_cons] at within
    obtain ⟨number, numberedRest⟩ := numbered_cons.mp numbered
    have below : root.replayedEvents < S.A.maxRehydrationEvents := by omega
    have first : root.replay row.version event = .ok
        ⟨some (S.A.apply current event), some row.version, root.replayedEvents + 1⟩ :=
      AggregateRoot.replay_eq_ok.mpr ⟨current, usable, number, below, rfl⟩
    rw [Repository.replayRows_cons, Repository.replayRow, decodesRow, mapError_ok, ok_bind, first]
    apply step rfl
    · rw [depth_some, number]
      exact numberedRest
    · change root.replayedEvents + 1 + rows.length ≤ _
      omega

/-- A read from a version on leaves out the rows before. -/
theorem rowsFrom_eq_drop (numbered : Numbered earlier rows) (start : Version) :
    rowsFrom start rows = rows.drop (start.toNat - (earlier + 1)) := by
  induction rows generalizing earlier with
  | nil => rw [List.drop_nil, rowsFrom, List.filter_nil]
  | cons row rows step =>
    obtain ⟨number, numberedRest⟩ := numbered_cons.mp numbered
    have isLe : start ≤ row.version ↔ start.toNat ≤ earlier + 1 := by
      rw [← number]
      exact UInt64.le_iff_toNat_le
    have rest := step numberedRest
    rw [rowsFrom] at rest ⊢
    by_cases behind : start.toNat ≤ earlier + 1
    · have zero : start.toNat - (earlier + 1) = 0 := by omega
      have noneLater : start.toNat - (earlier + 1 + 1) = 0 := by omega
      rw [List.filter_cons_of_pos (by simpa [isLe] using behind), rest, zero, noneLater,
        List.drop_zero, List.drop_zero]
    · have one : start.toNat - (earlier + 1) = start.toNat - (earlier + 1 + 1) + 1 := by omega
      rw [List.filter_cons_of_neg (by simpa [isLe] using behind), rest, one, List.drop_succ_cons]

section Answers

variable {root : S.Root}

/-- What a read behind a root delivers: rows that continue it, and their events. -/
theorem rowsFrom_continues (recorded : Recorded S history events) (earlier : moment <+: history)
    (follows : start.toNat = depth root.version + 1) :
    rowsFrom start moment = moment.drop (depth root.version) ∧
      Numbered (depth root.version) (moment.drop (depth root.version)) ∧
      Decodes S (moment.drop (depth root.version))
        ((events.take moment.length).drop (depth root.version)) := by
  have recordedThen := recorded.of_prefix earlier
  have isDrop := rowsFrom_eq_drop recordedThen.numbered start
  rw [follows, Nat.zero_add, Nat.add_sub_cancel] at isDrop
  refine ⟨isDrop, ?_, List.forall₂_drop _ recordedThen.decodes⟩
  rcases Nat.le_total (depth root.version) moment.length with within | beyond
  · have parts := recordedThen.numbered
    rw [← List.take_append_drop (depth root.version) moment, numbered_append,
      List.length_take_of_le within, Nat.zero_add] at parts
    exact parts.2
  · rw [List.drop_of_length_le beyond]
    exact numbered_nil _

/-- A replay from the next version on keeps a root faithful. -/
theorem Faithful.replay (recorded : Recorded S history events) (earlier : moment <+: history)
    (faithful : Faithful events root) (follows : start.toNat = depth root.version + 1)
    (replayed : (Repository.replayRows S.codec root (rowsFrom start moment) :
      Except S.Error _) = .ok after) :
    Faithful events after ∧
      depth after.version = max (depth root.version) moment.length := by
  obtain ⟨isDrop, _, decodes⟩ := rowsFrom_continues recorded earlier follows
  rw [isDrop] at replayed
  obtain ⟨folded, reached, _⟩ := replayRows_eq_ok faithful.state decodes replayed
  have momentWithin : moment.length ≤ events.length := by
    rw [← recorded.length_eq]
    exact earlier.length_le
  have within := faithful.within
  rw [List.length_drop] at reached
  have isMax : depth after.version = max (depth root.version) moment.length := by
    omega
  refine ⟨⟨by omega, ?_⟩, isMax⟩
  rw [folded, isMax, stateAfter, stateAfter, ← List.foldl_append]
  rcases Nat.le_total (depth root.version) moment.length with short | long
  · rw [Nat.max_eq_right short]
    have parts := List.take_append_drop (depth root.version) (events.take moment.length)
    rw [List.take_take, Nat.min_eq_left short] at parts
    rw [parts]
  · rw [Nat.max_eq_left long, List.drop_of_length_le, List.append_nil]
    rw [List.length_take]
    omega

end Answers

end Mnesis.Aggregates
