import Mnesis.Postgres.Delivery
import Mnesis.Postgres.EventWalks
import Mnesis.Postgres.Streams

/-!
# What scans guarantee next to appends

Sessions append to stored rows of any content, while scans of both kinds are opened
and polled.  A scan yields the events it is about to the last one, unless one of its
statements fails, a row is too large for it, or a stored row is not a valid event.
-/

namespace Mnesis.Postgres

open Foundation Foundation.Program Kernel Store Database Wire

theorem envelopeLen_le_pendingBytes (id : StreamKey) (envelope : PendingEnvelope) :
    envelopeLen envelope ≤ pendingBytes id envelope := by
  have padding : alignPadding (prePayloadLen envelope.eventType.asBytes.length
      (envelope.metadata.map (·.asSlice.length))) payloadAlign < payloadAlign :=
    Nat.mod_lt _ (by decide)
  simp only [envelopeLen, frameLen, payloadOffset, pendingBytes, payloadAlign] at padding ⊢
  simp only [prePayloadLen, headerFixedSize] at padding ⊢
  omega

/-- A row that was appended decodes to its event. -/
theorem rowToEnvelope_eventRow {id : StreamKey} (fits : pendingBytes id envelope < 2 ^ 32)
    (number globalSeq txid : Nat) (label : StreamKey) :
    ∃ event, rowToEnvelope (eventRow number globalSeq txid envelope) label = .ok event ∧
      event.toPending = envelope := by
  have short := Nat.lt_of_le_of_lt (envelopeLen_le_pendingBytes id envelope) fits
  have encoded := encodeFrame_envelope.mpr ⟨short, rfl⟩
  obtain ⟨event, isEvent, isPending⟩ := tryNew_encodeFrame encoded envelope.version
  refine ⟨event, ?_, isPending⟩
  have isVersion : ((narrow (2 ^ 64) envelope.version.toNat).bind fun number =>
      Version.new (UInt64.ofNat number)) = some envelope.version := by
    rw [narrow_of_lt (show envelope.version.toNat < 2 ^ 64 from UInt64.toNat_lt _),
      Option.bind_some]
    exact Version.new_eq_some.mpr UInt64.ofNat_toNat.symm
  have isSchema : ((toU32 envelope.schemaVersion.get.toNat).bind fun number =>
      (SchemaVersion.fromU32 number).toOption) = some envelope.schemaVersion := by
    rw [toU32_eq_some.mpr rfl, Option.bind_some, SchemaVersion.fromU32_get]
    rfl
  have isMetadata : (envelope.metadata.map fun metadata => metadata.asSlice).mapM
      Metadata.fromBytes = .ok envelope.metadata := by
    cases envelope.metadata with
    | none => rfl
    | some metadata =>
      rw [Option.map_some, Option.mapM_some, Metadata.fromBytes_asSlice]
      rfl
  unfold rowToEnvelope eventRow
  dsimp only
  rw [isVersion, isSchema, EventType.fromBytes_asBytes, Payload.fromBytes_asSlice, isMetadata]
  simp only [okOr_some, mapError_ok, ok_bind, encoded, isEvent]

theorem item_of_rowToEnvelope (checked : row.Checked) {id : StreamKey}
    (isEvent : rowToEnvelope row id = .ok event) (history : History) :
    AllEventRow.item history ⟨id, row⟩ = .ok (row.at history, id, event) := by
  have seqFits : row.globalSeq < 2 ^ 64 := Nat.lt_trans checked.globalSeq_lt (by decide)
  have nonzero : row.globalSeq ≠ 0 := Nat.ne_of_gt checked.globalSeq_pos
  simp only [AllEventRow.item, narrow_of_lt checked.txid_lt, narrow_of_lt seqFits, okOr_some,
    ok_bind, rejectIf_of_not _ nonzero, isEvent]
  rfl

variable {Session : Type} {db after : Database Session}

theorem appended_of_extends (rows : numbering.Extends db.events after.events)
    (sound : after.Sound) (keys : db.keys <+: after.keys) :
    Appended db after where
  sound := sound
  keys := keys
  events := rows.isPrefix
  above row present added other committed same :=
    (rows.beyond row present).resolve_left added other committed same

variable [DecidableEq Session]

theorem Executes.extends
    (executes : Executes session statement db reply after) (appending : db.Appending) :
    numbering.Extends db.events after.events := by
  rcases executes.events_eq with same | ⟨tx, active, constraints, grown⟩
  · rw [same]
    exact .refl _
  · rw [grown]
    exact (appending.continues active constraints).extend

namespace System

variable {s t u : System Session}

theorem Invariant.extends (invariant : s.Invariant wanted stored) (step : Step s label t) :
    numbering.Extends s.db.events t.db.events := by
  cases step with
  | answered waiting executes => exact executes.extends invariant.appending
  | unacknowledged waiting executes => exact executes.extends invariant.appending
  | late orphaned executes => exact executes.extends invariant.appending
  | _ => exact .refl _

/-- What a run leaves for a scan. -/
theorem Invariant.meanwhile (invariant : s.Invariant (fun _ _ => True) stored)
    (run : Run Step s trace t) :
    t.Invariant (fun _ _ => True) stored ∧ numbering.Extends s.db.events t.db.events ∧
      Evolves s.db t.db := by
  have both : t.Invariant (fun _ _ => True) stored ∧ numbering.Extends s.db.events t.db.events := by
    induction run with
    | refl => exact ⟨invariant, .refl _⟩
    | snoc _ step reached =>
      exact ⟨reached.1.step step fun _ _ _ _ _ _ => trivial,
        reached.2.trans (reached.1.extends step)⟩
  have started : Reading.Invariant someHistory ⟨s.db, [], .idle⟩ :=
    ⟨invariant.appending.sound, ⟨[], .nil⟩, trivial⟩
  obtain ⟨labels, reading⟩ := Reading.exists_run_of_run someHistory ⟨s.db, [], .idle⟩ run
  exact ⟨both.1, both.2, Reading.evolves_of_run started reading⟩

/-- Stored rows of any content that the schema permits, with no session at work. -/
structure AtRest (s : System Session) : Prop where
  sound : s.db.Sound
  idle : ∀ session, s.controls session = .idle
  quiet : ∀ session, s.db.active session = none

theorem AtRest.invariant (atRest : s.AtRest) (wanted : StreamKey → PendingEnvelope → Prop) :
    s.Invariant wanted s.db.events where
  appending := by
    refine ⟨atRest.sound, fun session tx active => ?_⟩
    cases (atRest.quiet session).symm.trans active
  rows := by
    refine ⟨fun _ => .inl, fun session tx active => ?_⟩
    cases (atRest.quiet session).symm.trans active
  held session := by
    rw [atRest.idle session]
    trivial

/-- A moment after a state. -/
def Precedes (s : System Session) (moment : Moment Session) : Prop :=
  ∃ trace t, Run Step s trace t ∧ moment.db = t.db

theorem Invariant.precedes (invariant : s.Invariant (fun _ _ => True) stored)
    (precedes : s.Precedes moment) :
    Appended s.db moment.db ∧ Evolves s.db moment.db := by
  obtain ⟨trace, t, run, isDb⟩ := precedes
  obtain ⟨later, rows, evolves⟩ := invariant.meanwhile run
  rw [isDb]
  exact ⟨appended_of_extends rows later.appending.sound evolves.keys, evolves⟩

/-- A row with its key that a call of a run has appended.  It is valid, and not too
large for a store with no smaller limit than that of the call. -/
structure FromCall (trace : List (Label Session)) (pair : EventRow × KeyRow) : Prop where
  valid : ∃ event, rowToEnvelope pair.1 pair.2.value = .ok event ∧
    ∀ history, AllEventRow.item history ⟨pair.2.value, pair.1⟩ =
      .ok (pair.1.at history, pair.2.value, event)
  accepted : ∃ session call envelope, .call session call ∈ trace ∧
    (pair.2.value, envelope) ∈ call.writes ∧
    pair.1 = eventRow pair.1.streamId pair.1.globalSeq pair.1.txid envelope ∧
    ∀ limits : Limits, call.limits.bytes ≤ limits.bytes →
      pageRow limits pair = .value ⟨pair.2.value, pair.1⟩

/-- Every further row is that of a call. -/
theorem AtRest.fromCall (atRest : s.AtRest) (run : Run Step s trace t)
    (present : pair ∈ joined t.db.keys t.db.events) :
    pair.1 ∈ s.db.events ∨ FromCall trace pair := by
  obtain ⟨committed, hasKey, isNumber⟩ := mem_joined.mp present
  have invariant := (atRest.invariant fun id envelope => ∃ session call,
    .call session call ∈ trace ∧ call.Accepts id envelope).run run
      fun session call isCall _ _ accepts => ⟨session, call, isCall, accepts⟩
  have sound := invariant.appending.sound
  refine (invariant.rows.committed pair.1 committed).imp_right ?_
  rintro ⟨id, envelope, ⟨session, call, isCall, accepts⟩, known, isRow⟩
  have isKey : pair.2 = ⟨pair.1.streamId, id⟩ :=
    List.inj_on_of_nodup_map sound.constraints.keysPkey hasKey known isNumber
  have isBytes : rowBytes pair = pendingBytes id envelope := by
    rw [rowBytes, Candidate.of, isKey, isRow]
    simp [eventRow, pendingBytes, Option.map_map, Function.comp_def]
  obtain ⟨event, isEvent, _⟩ := rowToEnvelope_eventRow
    (Nat.lt_of_le_of_lt accepts.fits call.limits.bytes_lt) pair.1.streamId pair.1.globalSeq
    pair.1.txid pair.2.value
  rw [← isRow] at isEvent
  refine ⟨⟨event, isEvent, item_of_rowToEnvelope (sound.checked _ committed) isEvent⟩,
    session, call, envelope, isCall, ?_, isRow, ?_⟩
  · rw [isKey]
    exact accepts.written
  · intro limits enough
    have fits : rowBytes pair ≤ limits.bytes := isBytes ▸ Nat.le_trans accepts.fits enough
    exact if_pos fits

/-- A scan of a stream that is opened while sessions append yields the events of the
stream from a version on that are committed then, in the order of their versions.  A
scan of all streams yields the events behind a position and below its cutoff, in the
order of their positions. -/
theorem scans_yield_their_events (atRest : s.AtRest) (run : Run Step s trace u) (limits : Limits)
    (moments : List (Moment Session)) (later : ∀ moment ∈ moments, u.Precedes moment) :
    (∀ id start, ∃ events walk,
      readStreamWalk limits id start ⟨u.db, none⟩ moments = .ok walk ∧
      Lists u.db (fun row => ⟨row.streamId, id⟩ ∈ u.db.keys ∧ start.toNat ≤ row.version)
        (fun row other => row.version < other.version) events ∧
      Exact limits rowBytes (pageRow limits) (fun pair => rowToEnvelope pair.1 id) events moments
        walk) ∧
    (∀ history start cutoff, Settled u.db cutoff →
      (∀ position, start = some position → position.history = history) →
      ∃ events walk, readAllWalk limits history start cutoff ⟨u.db, none⟩ moments = .ok walk ∧
        Lists u.db (fun row => row.txid < cutoff ∧
            ∀ position, start = some position → position.Before (row.at history))
          EventRow.Before events ∧
        Exact limits rowBytes (pageRow limits)
          (fun pair => AllEventRow.item history ⟨pair.2.value, pair.1⟩) events moments walk) ∧
    ∀ pair ∈ joined u.db.keys u.db.events, pair.1 ∈ s.db.events ∨ FromCall trace pair := by
  have invariant := ((atRest.invariant _).meanwhile run).1
  have sound := invariant.appending.sound
  have after := fun moment present => invariant.precedes (later moment present)
  refine ⟨fun id start => ?_, fun history start cutoff settled same => ?_,
    fun pair present => atRest.fromCall run present⟩
  · exact readStreamWalk_exact limits id start sound moments fun moment present =>
      (after moment present).1
  · obtain ⟨walk, isWalk, exact⟩ := readAllWalk_exact limits sound settled same moments
      fun moment present => ⟨(after moment present).2, (after moment present).1.sound⟩
    exact ⟨_, walk, isWalk, lists_allEvents sound same, exact⟩

/-- Two stored events with a gap between their versions, the second one with an empty text
in place of its metadata. -/
def emptyMetadata : System Bool where
  db :=
    { nextTxid := 2
      keys := [⟨1, [1]⟩]
      events := [⟨1, 1, 1, [], 1, [], none, 1⟩, ⟨2, 3, 1, [], 1, [], some [], 1⟩]
      active := fun _ => none }
  controls _ := .idle

theorem emptyMetadata_atRest : emptyMetadata.AtRest where
  idle _ := rfl
  quiet _ := rfl
  sound := by
    refine ⟨by decide, ?_, ⟨by decide, by decide, by decide, by decide, by decide⟩, nofun⟩
    · have checked : ∀ row ∈ emptyMetadata.db.events, 0 < row.globalSeq ∧
          row.globalSeq < 2 ^ 63 ∧ 0 < row.version ∧ row.version < 2 ^ 64 ∧
          0 < row.schemaVersion ∧ row.schemaVersion < 2 ^ 32 ∧ row.txid < 2 ^ 64 := by decide
      intro row present
      obtain ⟨a, b, c, d, e, f, g⟩ := checked row present
      exact ⟨a, b, c, d, e, f, g⟩

/-- The stored events are scanned in pages of one row. -/
theorem stored_events_are_scanned :
    (∃ events walk,
      readStreamWalk singleRows [1] ⟨1, by decide⟩ ⟨emptyMetadata.db, none⟩
        [⟨emptyMetadata.db, none⟩] = .ok walk ∧
      Lists emptyMetadata.db (fun row => ⟨row.streamId, [1]⟩ ∈ emptyMetadata.db.keys ∧
          1 ≤ row.version)
        (fun row other => row.version < other.version) events ∧
      Exact singleRows rowBytes (pageRow singleRows) (fun pair => rowToEnvelope pair.1 [1]) events
        [⟨emptyMetadata.db, none⟩] walk) ∧
    ∃ events walk,
      readAllWalk singleRows someHistory none 2 ⟨emptyMetadata.db, none⟩
        [⟨emptyMetadata.db, none⟩] = .ok walk ∧
      Lists emptyMetadata.db (fun row => row.txid < 2 ∧
          ∀ position : PgAllPos, none = some position → position.Before (row.at someHistory))
        EventRow.Before events ∧
      Exact singleRows rowBytes (pageRow singleRows)
        (fun pair => AllEventRow.item someHistory ⟨pair.2.value, pair.1⟩) events
        [⟨emptyMetadata.db, none⟩] walk := by
  have scans := scans_yield_their_events emptyMetadata_atRest .refl singleRows
    [⟨emptyMetadata.db, none⟩] (List.forall_mem_singleton.mpr ⟨[], emptyMetadata, .refl, rfl⟩)
  exact ⟨scans.1 [1] ⟨1, by decide⟩, scans.2.1 someHistory none 2 ⟨Nat.le_refl 2, nofun⟩ nofun⟩

/-- A scan also stops early at a row that is not a valid event, and when a statement
fails. -/
theorem scans_stop_at_other_failures :
    emptyMetadata.AtRest ∧
      (readStreamWalk singleRows [1] ⟨1, by decide⟩ ⟨emptyMetadata.db, none⟩
        [⟨emptyMetadata.db, none⟩, ⟨emptyMetadata.db, none⟩]).map Walk.fate =
          .ok (.failed (corruptValue [1] .metadataEmpty)) ∧
      (readStreamWalk singleRows [1] ⟨1, by decide⟩ ⟨emptyMetadata.db, none⟩
        [⟨emptyMetadata.db, some .connection⟩]).map Walk.fate = .ok (.failed (.sqlx .connection)) :=
  ⟨emptyMetadata_atRest, rfl, rfl⟩

end System

end Mnesis.Postgres
