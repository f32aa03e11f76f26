import Mnesis.Foundation.Numbering
import Mnesis.Postgres.Sessions

/-!
# Races between sessions

A session that reads the head of a stream knows which versions are committed there.
Others may commit more of them before the session writes its rows; the id of its
transaction is then still larger than those of all rows that it saw.  So its rows are
next to what it knows, or to its own rows, and these commit in order or not at all.

Every row that sessions commit is that of an event of a call, under the key of the
stream that the call names.
-/

namespace Mnesis.Postgres

open Foundation Kernel Store

/-- Events are numbered by their versions and stamped with their transactions. -/
abbrev numbering : Numbering EventRow Nat where
  stream := EventRow.streamId
  number := EventRow.version
  stamp := EventRow.txid

/-- A lower bound for the id of a transaction. -/
def Transaction.stamp (tx : Transaction) (nextTxid : Nat) : Nat := tx.txid.getD nextTxid

variable {Session : Type}

namespace Database

/-- The keys of a transaction have other numbers than the committed ones.  A key that
has not can be inserted, but not committed. -/
def Distinct (db : Database Session) (tx : Transaction) : Prop :=
  ((db.keys ++ tx.keys).map KeyRow.number).Nodup

/-- What holds of a database with rows of any content that only appends write to. -/
structure Appending (db : Database Session) : Prop where
  sound : db.Sound
  justified : ∀ session tx, db.active session = some tx → db.Distinct tx →
    numbering.Justified db.events (tx.stamp db.nextTxid) tx.events

/-- What holds of a database besides if all its rows were appended. -/
structure Ordered (db : Database Session) : Prop extends Appending db where
  gapless : numbering.Gapless db.events
  ordered : db.events.Pairwise fun row other => row.streamId = other.streamId → row.Before other

theorem ordered_empty : (empty : Database Session).Ordered where
  sound := sound_empty
  gapless := Numbering.gapless_nil
  ordered := .nil
  justified _ _ absent := by cases absent

/-- What the other sessions may do to a session: add rows, and abort its
transaction. -/
structure Interferes (session : Session) (db after : Database Session) : Prop where
  nextTxid : db.nextTxid ≤ after.nextTxid
  keys : db.keys <+: after.keys
  events : numbering.Extends db.events after.events
  own : after.active session = db.active session ∨ after.active session = none

/-- What a session finds later in its transaction. -/
structure Follows (session : Session) (db after : Database Session) : Prop where
  nextTxid : db.nextTxid ≤ after.nextTxid
  keys : db.keys <+: after.keys
  events : numbering.Extends db.events after.events
  own : ∀ new, after.active session = some new → ∃ tx, db.active session = some tx ∧
    tx.stamp db.nextTxid ≤ new.stamp after.nextTxid ∧ tx.keys <+: new.keys ∧
      tx.events <+: new.events

variable {db middle after : Database Session}

theorem Follows.trans (first : Follows session db middle) (second : Follows session middle after) :
    Follows session db after where
  nextTxid := Nat.le_trans first.nextTxid second.nextTxid
  keys := first.keys.trans second.keys
  events := first.events.trans second.events
  own new isNew := by
    obtain ⟨between, isBetween, le, keys, events⟩ := second.own new isNew
    obtain ⟨tx, isTx, first_le, first_keys, first_events⟩ := first.own between isBetween
    exact ⟨tx, isTx, Nat.le_trans first_le le, first_keys.trans keys, first_events.trans events⟩

theorem Follows.mem_keys (follows : Follows session db after)
    (present : ∀ tx, db.active session = some tx → key ∈ db.keys ++ tx.keys)
    (active : after.active session = some tx) : key ∈ after.keys ++ tx.keys := by
  obtain ⟨old, isOld, _, keys, _⟩ := follows.own tx active
  rcases List.mem_append.mp (present old isOld) with committed | own
  · exact List.mem_append_left _ (follows.keys.subset committed)
  · exact List.mem_append_right _ (keys.subset own)

theorem Distinct.mono (distinct : after.Distinct new) (keys : db.keys <+: after.keys)
    (own : tx.keys <+: new.keys) : db.Distinct tx :=
  List.Nodup.sublist ((keys.sublist.append own.sublist).map _) distinct

theorem stamp_mono (tx : Transaction) {nextTxid : Nat} (le : nextTxid ≤ larger) :
    tx.stamp nextTxid ≤ tx.stamp larger := by
  unfold Transaction.stamp
  cases tx.txid with
  | none => exact le
  | some txid => exact Nat.le_refl txid

theorem Follows.refl (session : Session) (db : Database Session) : Follows session db db where
  nextTxid := Nat.le_refl _
  keys := List.prefix_refl _
  events := .refl _
  own new isNew := ⟨new, isNew, Nat.le_refl _, List.prefix_refl _, List.prefix_refl _⟩

theorem Interferes.refl (session : Session) (db : Database Session) : Interferes session db db where
  nextTxid := Nat.le_refl _
  keys := List.prefix_refl _
  events := .refl _
  own := .inl rfl

theorem Interferes.trans (first : Interferes session db middle)
    (second : Interferes session middle after) :
    Interferes session db after where
  nextTxid := Nat.le_trans first.nextTxid second.nextTxid
  keys := first.keys.trans second.keys
  events := first.events.trans second.events
  own := by
    rcases second.own with same | gone
    · rw [same]
      exact first.own
    · exact .inr gone

theorem Interferes.follows (interferes : Interferes session db after) :
    Follows session db after where
  nextTxid := interferes.nextTxid
  keys := interferes.keys
  events := interferes.events
  own new isNew := by
    rcases interferes.own with same | gone
    · exact ⟨new, same.symm.trans isNew, stamp_mono new interferes.nextTxid, List.prefix_refl _,
        List.prefix_refl _⟩
    · cases gone.symm.trans isNew

theorem Appending.reserve (appending : db.Appending) {nextTxid : Nat}
    (later : db.nextTxid ≤ nextTxid) :
    Appending { db with nextTxid := nextTxid } where
  sound := appending.sound.reserve later
  justified session tx active distinct :=
    (appending.justified session tx active distinct).extend (.refl _) (stamp_mono tx later)

/-- The constraints make a transaction that commits continue its streams. -/
theorem Appending.continues (appending : db.Appending) (active : db.active session = some tx)
    (constraints : Constraints (db.keys ++ tx.keys) (db.events ++ tx.events)) :
    numbering.Continues db.events (tx.stamp db.nextTxid) tx.events :=
  (appending.justified session tx active constraints.keysPkey).continues
    constraints.eventsStreamIdVersionKey

/-- Rows of a stream are in the order of their positions. -/
theorem Ordered.before (ordered : db.Ordered) (active : db.active session = some tx)
    (constraints : Constraints (db.keys ++ tx.keys) (db.events ++ tx.events)) :
    (db.events ++ tx.events).Pairwise fun row other =>
      row.streamId = other.streamId → row.Before other := by
  have sound := ordered.sound.active session tx active
  have continues := ordered.continues active constraints
  refine List.pairwise_append.mpr ⟨ordered.ordered, ?_, ?_⟩
  · apply sound.increasing.imp_of_mem
    intro row other present otherPresent increases _
    have same := (sound.own row present).symm.trans (sound.own other otherPresent)
    exact .inr ⟨Option.some.inj same, increases⟩
  · intro row present other otherPresent same
    have older := continues.older other otherPresent row present same
      (ordered.sound.checked row present).version_pos
    rw [Transaction.stamp, sound.own other otherPresent] at older
    exact .inl older

variable [DecidableEq Session]

theorem Appending.put (appending : db.Appending)
    (soundTx : ∀ new, tx = some new → new.Sound db.nextTxid)
    (justified : ∀ new, tx = some new → db.Distinct new →
      numbering.Justified db.events (new.stamp db.nextTxid) new.events) :
    (db.put session tx).Appending where
  sound := appending.sound.put soundTx
  justified other found isFound := by
    rcases put_active_eq_some isFound with ⟨_, isNew⟩ | ⟨_, isFound⟩
    · exact justified found isNew
    · exact appending.justified other found isFound

theorem Appending.abort (appending : db.Appending) : (db.put session none).Appending :=
  appending.put (by simp) (by simp)

/-- A transaction id is larger than those of all rows that were seen. -/
theorem Appending.identify (appending : db.Appending) {tx : Transaction} {txid : Nat}
    (active : db.active session = some tx) (first : tx.txid = none) (later : db.nextTxid ≤ txid) :
    (db.identify session tx txid).Appending where
  sound := appending.sound.identify active first later
  justified other found isFound distinct := by
    rcases put_active_eq_some isFound with ⟨_, isNew⟩ | ⟨_, isFound⟩
    · cases isNew
      have noEvents := (appending.sound.active session tx active).events_eq_nil first
      simpa [Transaction.identify, noEvents] using Numbering.Justified.nil
    · exact (appending.justified other found isFound distinct).extend (.refl _)
        (stamp_mono found (Nat.le_succ_of_le later))

/-- A transaction commits next to what is committed. -/
theorem Appending.commit (appending : db.Appending) (active : db.active session = some tx)
    (constraints : Constraints (db.keys ++ tx.keys) (db.events ++ tx.events)) :
    (db.commit session tx).Appending where
  sound := appending.sound.commit active constraints
  justified other found isFound distinct := by
    rcases put_active_eq_some isFound with ⟨_, impossible⟩ | ⟨_, isFound⟩
    · cases impossible
    · have earlier := distinct.mono (List.prefix_append ..) (List.prefix_refl _)
      exact (appending.justified other found isFound earlier).extend
        (appending.continues active constraints).extend (Nat.le_refl _)

theorem Follows.put (active : db.active session = some tx)
    (stamp : tx.stamp db.nextTxid ≤ new.stamp db.nextTxid) (keys : tx.keys <+: new.keys)
    (events : tx.events <+: new.events) :
    Follows session db (db.put session (some new)) where
  nextTxid := Nat.le_refl _
  keys := List.prefix_refl _
  events := .refl _
  own found isFound := by
    rw [put_active_self] at isFound
    cases isFound
    exact ⟨tx, active, stamp, keys, events⟩

theorem put_none_active (other : Session) :
    (db.put session none).active other = db.active other ∨
      (db.put session none).active other = none := by
  by_cases same : other = session
  · subst same
    exact .inr (put_active_self none)
  · exact .inl (put_active_of_ne same none)

theorem Interferes.abort (other : Session) : Interferes other db (db.put session none) where
  nextTxid := Nat.le_refl _
  keys := List.prefix_refl _
  events := .refl _
  own := put_none_active other

theorem Interferes.commit (appending : db.Appending) (active : db.active session = some tx)
    (constraints : Constraints (db.keys ++ tx.keys) (db.events ++ tx.events)) (other : Session) :
    Interferes other db (db.commit session tx) where
  nextTxid := Nat.le_refl _
  keys := List.prefix_append ..
  events := (appending.continues active constraints).extend
  own := put_none_active other

theorem Interferes.put (different : other ≠ session) (tx : Option Transaction) :
    Interferes other db (db.put session tx) where
  nextTxid := Nat.le_refl _
  keys := List.prefix_refl _
  events := .refl _
  own := .inl (put_active_of_ne different tx)

end Database

open Database

variable {db middle after : Database Session}

/-- The rows that a session may insert: those of wanted events, under their keys and next to
what is there. -/
def Allowed (session : Session) (wanted : StreamKey → PendingEnvelope → Prop) :
    Statement → Database Session → Prop
  | .insertEvent number row, db =>
    (∀ tx, db.active session = some tx → db.Distinct tx → ∃ base, row.version.toNat = base + 1 ∧
      (numbering.Based db.events (tx.stamp db.nextTxid) number base ∨
        ∃ earlier ∈ tx.events, numbering.place earlier = (number, base))) ∧
    ∃ id, wanted id row ∧ ∀ tx, db.active session = some tx → ⟨number, id⟩ ∈ db.keys ++ tx.keys
  | _, _ => True

variable {wanted : StreamKey → PendingEnvelope → Prop}

/-- What a session may insert stays allowed. -/
theorem Allowed.follow (allowed : Allowed session wanted statement db)
    (follows : Follows session db after) :
    Allowed session wanted statement after := by
  cases statement with
  | insertEvent number row =>
    obtain ⟨isNext, id, isWanted, present⟩ := allowed
    refine ⟨fun new isNew distinct => ?_, id, isWanted, fun _ => follows.mem_keys present⟩
    obtain ⟨tx, isTx, stamp, keys, events⟩ := follows.own new isNew
    obtain ⟨base, isNext, basis⟩ := isNext tx isTx (distinct.mono follows.keys keys)
    refine ⟨base, isNext, basis.imp ?_ ?_⟩
    · exact fun based => based.extend follows.events stamp
    · exact fun ⟨earlier, present, isPlace⟩ => ⟨earlier, events.subset present, isPlace⟩
  | _ => trivial

variable [DecidableEq Session]

namespace Identifies

/-- Statements that are allowed keep the streams in order. -/
theorem appending (identifies : Identifies session db middle) (appending : db.Appending) :
    middle.Appending := by
  cases identifies with
  | already active identified => exact appending
  | now active first later => exact appending.identify active first later

theorem events (identifies : Identifies session db middle) : middle.events = db.events := by
  cases identifies <;> rfl

/-- A statement is mere interference to other sessions. -/
theorem interferes (identifies : Identifies session db middle) (different : other ≠ session) :
    Interferes other db middle := by
  cases identifies with
  | already active identified => exact .refl other db
  | now active first later =>
    exact ⟨Nat.le_succ_of_le later, List.prefix_refl _, .refl _,
      .inl (put_active_of_ne different _)⟩

/-- What a session knows stays true over its statements. -/
theorem follows (identifies : Identifies session db middle) : Follows session db middle := by
  cases identifies with
  | already active identified => exact .refl session db
  | @now tx txid active first later =>
    refine ⟨Nat.le_succ_of_le later, List.prefix_refl _, .refl _, ?_⟩
    intro new isNew
    have isIdentified : some (tx.identify txid) = some new := (put_active_self _).symm.trans isNew
    cases isIdentified
    refine ⟨tx, active, ?_, List.prefix_refl _, List.prefix_refl _⟩
    simpa [Transaction.stamp, Transaction.identify, first] using later

end Identifies

namespace Executes

variable {statement : Statement}

theorem appending (executes : Executes session statement db reply after)
    (appending : db.Appending) (allowed : Allowed session wanted statement db) :
    after.Appending := by
  cases executes with
  | begin idle =>
    apply appending.put
    · rintro _ ⟨⟩
      exact .new _
    · rintro _ ⟨⟩ _
      exact .nil
  | @insertKey _ middle tx number id identifies active =>
    have isAppending := identifies.appending appending
    have soundTx := isAppending.sound.active session tx active
    apply isAppending.put
    · rintro _ ⟨⟩
      exact ⟨soundTx.known, soundTx.own, soundTx.checked, soundTx.increasing⟩
    · rintro _ ⟨⟩ distinct
      exact isAppending.justified session tx active
        (distinct.mono (List.prefix_refl _) (List.prefix_append ..))
  | keyExistsIdentified id identifies active present => exact identifies.appending appending
  | @insertEvent _ middle tx number globalSeq txid envelope identifies active identified checked
      increases =>
      have isAppending := identifies.appending appending
      have soundTx := isAppending.sound.active session tx active
      apply isAppending.put
      · rintro _ ⟨⟩
        exact soundTx.addEvent identified checked increases
      · rintro _ ⟨⟩ distinct
        obtain ⟨base, isNext, basis⟩ := (allowed.follow identifies.follows).1 tx active distinct
        exact (isAppending.justified session tx active distinct).snoc isNext basis
  | commit active constraints => exact appending.commit active constraints
  | rollback active => exact appending.abort
  | _ => exact appending

/-- A statement changes the committed events only if it commits a transaction. -/
theorem events_eq (executes : Executes session statement db reply after) :
    after.events = db.events ∨ ∃ tx, db.active session = some tx ∧
      Constraints (db.keys ++ tx.keys) (db.events ++ tx.events) ∧
      after.events = db.events ++ tx.events := by
  cases executes with
  | insertKey number id identifies active => exact .inl identifies.events
  | keyExistsIdentified id identifies active present => exact .inl identifies.events
  | insertEvent identifies active identified checked increases => exact .inl identifies.events
  | commit active constraints => exact .inr ⟨_, active, constraints, rfl⟩
  | _ => exact .inl rfl

theorem ordered (executes : Executes session statement db reply after) (ordered : db.Ordered)
    (appending : after.Appending) :
    after.Ordered := by
  refine ⟨appending, ?_, ?_⟩
  all_goals rcases executes.events_eq with same | ⟨tx, active, constraints, grown⟩
  · exact same ▸ ordered.gapless
  · exact grown ▸ (ordered.continues active constraints).gapless ordered.gapless
  · exact same ▸ ordered.ordered
  · exact grown ▸ ordered.before active constraints

theorem interferes (executes : Executes session statement db reply after)
    (appending : db.Appending) (different : other ≠ session) :
    Interferes other db after := by
  cases executes with
  | begin idle => exact .put different _
  | insertKey number id identifies active =>
    exact (identifies.interferes different).trans (.put different _)
  | keyExistsIdentified id identifies active present => exact identifies.interferes different
  | insertEvent identifies active identified checked increases =>
    exact (identifies.interferes different).trans (.put different _)
  | commit active constraints => exact .commit appending active constraints other
  | rollback active => exact .abort other
  | _ => exact .refl other db

theorem follows (executes : Executes session statement db reply after)
    (appending : db.Appending) (started : statement ≠ .begin) :
    Follows session db after := by
  cases executes with
  | begin idle => exact absurd rfl started
  | insertKey number id identifies active =>
    exact identifies.follows.trans (.put active (Nat.le_refl _) (List.prefix_append ..)
      (List.prefix_refl _))
  | keyExistsIdentified id identifies active present => exact identifies.follows
  | insertEvent identifies active identified checked increases =>
    exact identifies.follows.trans (.put active (Nat.le_refl _) (List.prefix_refl _)
      (List.prefix_append ..))
  | commit active constraints =>
    exact (Interferes.commit appending active constraints session).follows
  | rollback active => exact (Interferes.abort session).follows
  | _ => exact .refl session db

end Executes

section

open Foundation Foundation.Program Kernel Store Database

/-- The size that a row of an event has. -/
def pendingBytes (id : StreamKey) (envelope : PendingEnvelope) : Nat :=
  32 + id.length + envelope.eventType.asBytes.length + envelope.payload.asSlice.length +
    (envelope.metadata.map fun metadata => metadata.asSlice.length).getD 0

/-- The limits of the store that serves a call. -/
def Call.limits : Call → Limits
  | .append limits _ _ _ _ => limits
  | .atomicAppendMany limits _ _ => limits

/-- The events of a call with their streams. -/
def Call.writes : Call → List (StreamKey × PendingEnvelope)
  | .append _ _ id _ envelopes => envelopes.toList.map fun envelope => (id, envelope)
  | .atomicAppendMany _ _ writes => writes.flatMap fun write =>
    write.batch.toList.map fun envelope => (write.target, envelope)

/-- An event of a call that is within its limits. -/
structure Call.Accepts (call : Call) (id : StreamKey) (envelope : PendingEnvelope) : Prop where
  written : (id, envelope) ∈ call.writes
  fits : pendingBytes id envelope ≤ call.limits.bytes

theorem sum_le_of_validateBytes (valid : validateBytes lengths limits = .ok ()) :
    32 + lengths.sum ≤ limits.bytes := by
  obtain ⟨actual, isActual, enough⟩ := bind_eq_ok.mp valid
  have total (start : Nat) (lengths : List Nat) {actual : Nat}
      (isActual : lengths.foldlM (fun total length => do
        let size ← okOr (narrow (2 ^ 63) length) PostgresError.sizeOverflow
        okOr (narrow (2 ^ 63) (total + size)) .sizeOverflow) start = .ok actual) :
      actual = start + lengths.sum := by
    induction lengths generalizing start with
    | nil =>
      cases isActual
      rfl
    | cons length lengths rest =>
      rw [List.foldlM_cons] at isActual
      obtain ⟨middle, isMiddle, isActual⟩ := bind_eq_ok.mp isActual
      obtain ⟨size, isSize, isMiddle⟩ := bind_eq_ok.mp isMiddle
      obtain ⟨_, rfl⟩ := narrow_eq_some.mp (okOr_eq_ok.mp isSize)
      obtain ⟨_, rfl⟩ := narrow_eq_some.mp (okOr_eq_ok.mp isMiddle)
      rw [rest _ isActual, List.sum_cons, Nat.add_assoc]
  rw [← total 32 lengths isActual]
  exact Nat.le_of_not_lt (rejectIf_eq_ok.mp enough)

theorem pendingBytes_le_of_validateSizes {id : StreamKey}
    {events : List PendingEnvelope} (valid : validateSizes id limits events = .ok ()) :
    ∀ event ∈ events, pendingBytes id event ≤ limits.bytes := by
  induction events with
  | nil => exact List.forall_mem_nil _
  | cons event events rest =>
    obtain ⟨_, isValid, valid⟩ := bind_eq_ok.mp valid
    refine List.forall_mem_cons.mpr ⟨?_, rest valid⟩
    have fits := sum_le_of_validateBytes isValid
    simpa [pendingBytes, Nat.add_assoc] using fits

variable {Session : Type} {wanted : StreamKey → PendingEnvelope → Prop}

/-- A row of a wanted event, under the key of its stream. -/
def IsFrom (wanted : StreamKey → PendingEnvelope → Prop) (keys : List KeyRow) (row : EventRow) :
    Prop :=
  ∃ id envelope, wanted id envelope ∧ ⟨row.streamId, id⟩ ∈ keys ∧
    row = eventRow row.streamId row.globalSeq row.txid envelope

theorem IsFrom.mono {keys : List KeyRow} (isFrom : IsFrom wanted keys row) (subset : keys ⊆ more) :
    IsFrom wanted more row := by
  obtain ⟨id, envelope, isWanted, hasKey, isRow⟩ := isFrom
  exact ⟨id, envelope, isWanted, subset hasKey, isRow⟩

/-- All rows but some stored ones are of wanted events. -/
structure Originated (wanted : StreamKey → PendingEnvelope → Prop) (stored : List EventRow)
    (db : Database Session) : Prop where
  committed : ∀ row ∈ db.events, row ∈ stored ∨ IsFrom wanted db.keys row
  active : ∀ session tx, db.active session = some tx →
    ∀ row ∈ tx.events, IsFrom wanted (db.keys ++ tx.keys) row

namespace Originated

variable [DecidableEq Session]

section

variable (originated : Originated wanted stored db)
include originated

theorem put
    (areFrom : ∀ new, tx = some new → ∀ row ∈ new.events, IsFrom wanted (db.keys ++ new.keys) row) :
    Originated wanted stored (db.put session tx) where
  committed := originated.committed
  active other found isFound := by
    rcases put_active_eq_some isFound with ⟨_, isNew⟩ | ⟨_, isFound⟩
    · exact areFrom found isNew
    · exact originated.active other found isFound

theorem abort : Originated wanted stored (db.put session none) :=
  originated.put (by simp)

/-- Rows that are committed keep their origin. -/
theorem commit (active : db.active session = some tx) :
    Originated wanted stored (db.commit session tx) where
  committed := List.forall_mem_append.mpr
    ⟨fun row present => (originated.committed row present).imp_right fun isFrom =>
        isFrom.mono (List.subset_append_left _ _),
      fun row present => .inr (originated.active session tx active row present)⟩
  active other found isFound := by
    rcases put_active_eq_some isFound with ⟨_, impossible⟩ | ⟨_, isFound⟩
    · cases impossible
    · intro row present
      refine (originated.active other found isFound row present).mono ?_
      exact List.append_subset.mpr ⟨List.subset_append_of_subset_left _
        (List.subset_append_left _ _), List.subset_append_right _ _⟩

theorem identify (identifies : Identifies session db middle) :
    Originated wanted stored middle := by
  cases identifies with
  | already active identified => exact originated
  | @now tx txid active first later =>
    have put : Originated wanted stored (db.put session (some (tx.identify txid))) := by
      apply originated.put
      rintro _ ⟨⟩
      exact originated.active session tx active
    exact ⟨put.committed, put.active⟩

/-- Statements that are allowed insert rows of calls only. -/
theorem execute (executes : Executes session statement db reply after)
    (allowed : Allowed session wanted statement db) :
    Originated wanted stored after := by
  cases executes with
  | begin idle =>
    apply originated.put
    rintro _ ⟨⟩ _ ⟨⟩
  | @insertKey _ middle tx number id identifies active =>
    have identified := originated.identify identifies
    apply identified.put
    rintro _ ⟨⟩ row present
    refine (identified.active session tx active row present).mono ?_
    exact List.append_subset.mpr ⟨List.subset_append_left _ _,
      List.subset_append_of_subset_right _ (List.subset_append_left _ _)⟩
  | keyExistsIdentified id identifies active present => exact originated.identify identifies
  | @insertEvent _ middle tx number globalSeq txid envelope identifies active identified checked
      increases =>
      have isOriginated := originated.identify identifies
      obtain ⟨_, id, isWanted, hasKey⟩ := allowed.follow identifies.follows
      apply isOriginated.put
      rintro _ ⟨⟩
      exact List.forall_mem_append.mpr ⟨isOriginated.active session tx active,
        List.forall_mem_singleton.mpr ⟨id, envelope, isWanted, hasKey tx active, rfl⟩⟩
  | commit active constraints => exact originated.commit active
  | rollback active => exact originated.abort
  | _ => exact originated

end

end Originated

end

end Mnesis.Postgres
