import Mnesis.Postgres.ReadAll
import Mnesis.Postgres.Sessions

/-!
# A reader among writers

A reader opens a scan behind the last position that was delivered to it, takes any
number of events from it, and opens another one.  Meanwhile writers take transaction
ids, insert, commit and abort.  Rows are not committed in the order of their
positions, but none is committed any more below the cutoff of a scan, so that all its
pages together are one walk over the events below it.
-/

namespace Mnesis.Postgres

open Foundation Foundation.Program Kernel Store

variable {Session : Type}

/-- A cutoff: no transaction in progress has a smaller id, and none will get one. -/
structure Settled (db : Database Session) (ceiling : Nat) : Prop where
  assigned : ceiling ≤ db.nextTxid
  inProgress : ∀ session tx txid, db.active session = some tx → tx.txid = some txid → ceiling ≤ txid

/-- What the statements of a scan return. -/
inductive Reads (db : Database Session) : (statement : ReadStatement) → statement.Reply → Prop
  | snapshotXmin (settled : Settled db ceiling) : Reads db .snapshotXmin ceiling
  | selectPage (limits : Limits) (ceiling : Nat) (bound : Option Bound) :
      Reads db (.selectPage limits ceiling bound)
        (selectPage db.keys db.events limits ceiling bound)

/-- What the code of a scan returns. -/
inductive ReadResult
  | opened (result : Except PostgresError Scan)
  | polled (result : Except PostgresError (Option (AllItem × Scan)))

/-- Where the code of a scan is suspended. -/
abbrev ReadPause := Pause Unit ReadStatement ReadStatement.Answer ReadResult

/-- What a reader is doing. -/
inductive Reader
  | idle
  | scanning (limits : Limits) (scan : Scan)
  | running (limits : Limits) (pause : ReadPause)

/-- A database and a reader, with the events that were delivered to it. -/
structure Reading (Session : Type) where
  db : Database Session
  delivered : List AllItem
  reader : Reader

namespace Reading

/-- No rows, and nothing delivered. -/
def initial : Reading Session := ⟨.empty, [], .idle⟩

/-- The last position that was delivered. -/
def last (s : Reading Session) : Option PgAllPos := s.delivered.getLast?.map Prod.fst

/-- Run some code of a scan up to its next statement. -/
def run (s : Reading Session) (limits : Limits)
    (code : Program Unit ReadStatement ReadStatement.Answer ReadResult) : Reading Session :=
  { s with reader := .running limits (code.advance ()).2 }

/-- What happens in a step. -/
inductive Label (Session : Type)
  | writer (session : Session)
  | elsewhere
  | request
  | answered
  | failed
  | opened
  | poll
  | delivered (item : AllItem)
  | ended
  | dropped

/-- The steps of writers and of a reader.  The reader drops its scan when it ends or
fails, and whenever it likes. -/
inductive Step [DecidableEq Session] (history : History) :
    Transition (Reading Session) (Label Session)
  | writer (step : s.db.Step session after) :
      Step history s (.writer session) { s with db := after }
  | elsewhere (later : s.db.nextTxid ≤ nextTxid) :
      Step history s .elsewhere { s with db := { s.db with nextTxid := nextTxid } }
  | request (limits : Limits) (idle : s.reader = .idle) :
      Step history s .request (s.run limits (.opened <$> (readAll history s.last).run))
  | answered (waiting : s.reader = .running limits (.waiting statement next))
      (reads : Reads s.db statement reply) :
      Step history s .answered (s.run limits (next (.ok reply)))
  | failed {next : statement.Answer → Program Unit ReadStatement ReadStatement.Answer ReadResult}
      (error : SqlxError) (waiting : s.reader = .running limits (.waiting statement next)) :
      Step history s .failed (s.run limits (next (.error error)))
  | opened (finished : s.reader = .running limits (.finished (.opened (.ok scan)))) :
      Step history s .opened { s with reader := .scanning limits scan }
  | poll {s : Reading Session} {limits : Limits} {scan : Scan}
      (scanning : s.reader = .scanning limits scan) :
      Step history s .poll (s.run limits (.polled <$> (scan.next limits history).run))
  | delivered {s : Reading Session} {limits : Limits} {item : AllItem} {scan : Scan}
      (finished : s.reader = .running limits (.finished (.polled (.ok (some (item, scan)))))) :
      Step history s (.delivered item)
        { s with delivered := s.delivered ++ [item], reader := .scanning limits scan }
  | ended (finished : s.reader = .running limits (.finished result)) :
      Step history s .ended { s with reader := .idle }
  | dropped : Step history s .dropped { s with reader := .idle }

variable [DecidableEq Session] (history : History)

theorem exists_run_of_writes (r : Reading Session) (run : Run Writes r.db trace after) :
    ∃ labels, Run (Step history) r labels { r with db := after } := by
  induction run with
  | refl => exact ⟨_, .refl⟩
  | snoc _ step reached =>
    obtain ⟨labels, reached⟩ := reached
    cases step with
    | session step => exact ⟨_, reached.snoc (.writer step)⟩
    | elsewhere later => exact ⟨_, reached.snoc (.elsewhere later)⟩

theorem exists_run_of_run (r : Reading Session) {trace : List (System.Label Session)}
    (run : Run System.Step s trace t) :
    ∃ labels, Run (Step history) { r with db := s.db } labels { r with db := t.db } := by
  obtain ⟨labels, run⟩ := System.exists_writes run
  exact exists_run_of_writes history { r with db := s.db } run

end Reading

variable {db middle after : Database Session}

/-- What may happen to a database meanwhile: the tables grow, and no row appears
below a cutoff. -/
structure Evolves (db after : Database Session) : Prop where
  keys : db.keys <+: after.keys
  events : db.events <+: after.events
  settled : ∀ {ceiling}, Settled db ceiling → Settled after ceiling
  final : ∀ {ceiling}, Settled db ceiling →
    ∀ row ∈ after.events, row.txid < ceiling → row ∈ db.events

theorem Evolves.refl (db : Database Session) : Evolves db db where
  keys := List.prefix_refl _
  events := List.prefix_refl _
  settled := id
  final _ _ present _ := present

theorem Evolves.trans (first : Evolves db middle) (second : Evolves middle after) :
    Evolves db after where
  keys := first.keys.trans second.keys
  events := first.events.trans second.events
  settled settled := second.settled (first.settled settled)
  final settled row present below :=
    first.final settled row (second.final (first.settled settled) row present below) below

/-- The ids of the transactions in progress, and all ids that are not taken yet, are
hidden. -/
structure Hides (db : Database Session) (hidden : Nat → Prop) : Prop where
  unassigned : ∀ txid, db.nextTxid ≤ txid → hidden txid
  inProgress : ∀ session tx txid, db.active session = some tx → tx.txid = some txid → hidden txid

theorem settled_iff_hides : Settled db ceiling ↔ Hides db fun txid => ceiling ≤ txid := by
  constructor
  · intro settled
    exact ⟨fun _ => Nat.le_trans settled.assigned, settled.inProgress⟩
  · intro hides
    exact ⟨hides.unassigned _ (Nat.le_refl _), hides.inProgress⟩

namespace Hides

variable {hidden : Nat → Prop}

theorem reserve (hides : Hides db hidden) (later : db.nextTxid ≤ nextTxid) :
    Hides { db with nextTxid := nextTxid } hidden where
  unassigned txid enough := hides.unassigned txid (Nat.le_trans later enough)
  inProgress := hides.inProgress

variable [DecidableEq Session]

theorem put (hides : Hides db hidden)
    (isHidden : ∀ new txid, tx = some new → new.txid = some txid → hidden txid) :
    Hides (db.put session tx) hidden where
  unassigned := hides.unassigned
  inProgress other found txid isFound isTxid := by
    rcases Database.put_active_eq_some isFound with ⟨_, isNew⟩ | ⟨_, isFound⟩
    · exact isHidden found txid isNew isTxid
    · exact hides.inProgress other found txid isFound isTxid

/-- No step commits a row below a cutoff. -/
theorem step (hides : Hides db hidden) (step : db.Step session after) : Hides after hidden := by
  cases step with
  | begin idle => exact hides.put (by rintro _ _ ⟨⟩ ⟨⟩)
  | @identify _ _ tx txid active first later =>
    have kept : Hides (db.put session (some (tx.identify txid))) hidden := by
      apply hides.put
      rintro _ _ ⟨⟩ ⟨⟩
      exact hides.unassigned txid later
    exact ⟨fun other enough => hides.unassigned other
      (Nat.le_trans later (Nat.le_of_succ_le enough)), kept.inProgress⟩
  | addKey key active identified =>
    apply hides.put
    rintro _ txid ⟨⟩ isTxid
    exact hides.inProgress session _ txid active isTxid
  | addEvent active identified checked increases =>
    apply hides.put
    rintro _ txid ⟨⟩ isTxid
    exact hides.inProgress session _ txid active isTxid
  | commit active constraints =>
    have kept : Hides (db.put session none) hidden := hides.put (by rintro _ _ ⟨⟩)
    exact ⟨hides.unassigned, kept.inProgress⟩
  | abort active => exact hides.put (by rintro _ _ ⟨⟩)

theorem committed (hides : Hides db hidden) (sound : db.Sound) (step : db.Step session after) :
    ∀ row ∈ after.events, row ∈ db.events ∨ hidden row.txid := by
  cases step with
  | @commit _ _ tx active constraints =>
    refine List.forall_mem_append.mpr ⟨fun _ => .inl, fun row isOwn => .inr ?_⟩
    have isTxid := (sound.active session tx active).own row isOwn
    exact hides.inProgress session tx row.txid active isTxid
  | _ => exact fun _ => .inl

end Hides

theorem Evolves.step [DecidableEq Session] (sound : db.Sound) (step : db.Step session after) :
    Evolves db after where
  keys := step.grows.keys
  events := step.grows.events
  settled settled := settled_iff_hides.mpr ((settled_iff_hides.mp settled).step step)
  final settled row present below :=
    ((settled_iff_hides.mp settled).committed sound step row present).resolve_right
      (Nat.not_le.mpr below)

theorem Evolves.reserve (later : db.nextTxid ≤ nextTxid) :
    Evolves db { db with nextTxid := nextTxid } where
  keys := List.prefix_refl _
  events := List.prefix_refl _
  settled settled := ⟨Nat.le_trans settled.assigned later, settled.inProgress⟩
  final _ _ present _ := present

/-- The position of an event. -/
def EventRow.at (row : EventRow) (history : History) : PgAllPos :=
  ⟨history, row.txid, row.globalSeq⟩

theorem EventRow.at_before_iff {row other : EventRow} :
    (row.at history).Before (other.at history) ↔ row.position < other.position := by
  rw [EventRow.position_lt_iff, PgAllPos.Before]
  simp [EventRow.at, EventRow.Before]

theorem EventRow.bound_at {row : EventRow} (checked : row.Checked) (history : History) :
    (row.at history).bound = .row row.txid row.globalSeq := by
  rw [PgAllPos.bound, EventRow.at, narrow_of_lt checked.globalSeq_lt]

theorem EventRow.admits_bound_at {row : EventRow} (checked : row.Checked) (history : History) :
    (row.at history).bound.admits other = true ↔ row.position < other.position := by
  rw [row.bound_at checked, Bound.admits, decide_eq_true_eq]
  rfl

theorem Bound.admits_mono {bound : Bound} {row : EventRow} (admits : bound.admits row = true)
    (before : row.position < other.position) :
    bound.admits other = true := by
  cases bound with
  | row txid seq =>
    rw [Bound.admits, decide_eq_true_eq] at admits ⊢
    exact lt_trans admits before
  | transaction txid =>
    rw [Bound.admits, decide_eq_true_eq] at admits ⊢
    rcases EventRow.position_lt_iff.mp before with lt | ⟨same, _⟩
    · exact Nat.lt_trans admits lt
    · exact same ▸ admits

theorem EventRow.txid_le {row other : EventRow} (before : row.position < other.position) :
    row.txid ≤ other.txid := by
  rcases EventRow.position_lt_iff.mp before with lt | ⟨same, _⟩
  · exact Nat.le_of_lt lt
  · exact Nat.le_of_eq same

/-- An item that a scan yields for an event. -/
structure IsItem (history : History) (db : Database Session) (row : EventRow) (item : AllItem) :
    Prop where
  position : item.1 = row.at history
  stream : ⟨row.streamId, item.2.1⟩ ∈ db.keys
  event : rowToEnvelope row item.2.1 = .ok item.2.2

/-- The rows at hand are the first ones behind a position. -/
structure Buffer (db : Database Session) (ceiling : Nat) (start : Option PgAllPos)
    (rows : List PageRow) (limits : Limits) (pairs : List (EventRow × KeyRow)) : Prop where
  rows_eq : rows = pairs.map fun pair => .of limits (Candidate.of pair).rowBytes pair
  present : ∀ pair ∈ pairs, pair ∈ joined db.keys db.events
  leading : Leading EventRow.position (Eligible db ceiling (start.map PgAllPos.bound))
    (pairs.map Prod.fst)

/-- A scan behind a position. -/
structure ScanAt (db : Database Session) (start : Option PgAllPos) (scan : Scan) : Prop where
  after_eq : scan.after = start
  settled : Settled db scan.ceiling
  buffered : ∃ limits pairs, Buffer db scan.ceiling start scan.rows limits pairs

theorem Evolves.leading (evolves : Evolves db after) (settled : Settled db ceiling)
    (leading : Leading EventRow.position (Eligible db ceiling bound) rows) :
    Leading EventRow.position (Eligible after ceiling bound) rows := by
  apply leading.congr
  · intro row present
    have eligible := leading.members row present
    exact ⟨evolves.events.subset eligible.committed, eligible.below, eligible.behind⟩
  · intro row eligible _ _ _
    exact ⟨evolves.final settled row eligible.committed eligible.below, eligible.below,
      eligible.behind⟩

theorem Buffer.evolve (buffer : Buffer db ceiling start rows limits pairs)
    (settled : Settled db ceiling) (evolves : Evolves db after) :
    Buffer after ceiling start rows limits pairs where
  rows_eq := buffer.rows_eq
  present pair isPair := by
    obtain ⟨isEvent, isKey, same⟩ := mem_joined.mp (buffer.present pair isPair)
    exact mem_joined.mpr ⟨evolves.events.subset isEvent, evolves.keys.subset isKey, same⟩
  leading := evolves.leading settled buffer.leading

theorem ScanAt.evolve (scanAt : ScanAt db start scan) (evolves : Evolves db after) :
    ScanAt after start scan where
  after_eq := scanAt.after_eq
  settled := evolves.settled scanAt.settled
  buffered := by
    obtain ⟨limits, pairs, buffer⟩ := scanAt.buffered
    exact ⟨limits, pairs, buffer.evolve scanAt.settled evolves⟩

theorem exists_buffer (sound : db.Sound) (limits : Limits) (ceiling : Nat)
    (start : Option PgAllPos) :
    ∃ pairs, Buffer db ceiling start
      (selectPage db.keys db.events limits ceiling (start.map PgAllPos.bound)) limits pairs := by
  obtain ⟨pairs, isPrefix, isPage⟩ :=
    exists_selectPage sound limits ceiling (start.map PgAllPos.bound)
  exact ⟨pairs, isPage, fun pair present => mem_joined_of_mem_selection (isPrefix.subset present),
    leading_selection sound isPrefix⟩

theorem item_eq_ok {row : AllEventRow} (isItem : row.item history = .ok item) :
    item.1 = row.event.at history ∧ item.2.1 = row.streamId ∧
      rowToEnvelope row.event row.streamId = .ok item.2.2 := by
  obtain ⟨txid, isTxid, isItem⟩ := bind_eq_ok.mp isItem
  obtain ⟨seq, isSeq, isItem⟩ := bind_eq_ok.mp isItem
  obtain ⟨_, _, isItem⟩ := bind_eq_ok.mp isItem
  obtain ⟨event, isEvent, isItem⟩ := bind_eq_ok.mp isItem
  obtain ⟨_, rfl⟩ := narrow_eq_some.mp (okOr_eq_ok.mp isTxid)
  obtain ⟨_, rfl⟩ := narrow_eq_some.mp (okOr_eq_ok.mp isSeq)
  cases isItem
  exact ⟨rfl, rfl, isEvent⟩

theorem intoValue_of_eq_ok (isValue : (PageRow.of limits bytes pair).intoValue = .ok row) :
    row = ⟨pair.2.value, pair.1⟩ := by
  unfold PageRow.of at isValue
  split at isValue
  · cases isValue
    rfl
  · cases isValue

theorem Buffer.tail {ceiling : Nat}
    (buffer : Buffer db ceiling start (buffered :: rows) limits (pair :: pairs))
    (checked : pair.1.Checked) (history : History) :
    Buffer db ceiling (some (pair.1.at history)) rows limits pairs where
  rows_eq := (List.cons.inj buffer.rows_eq).2
  present := (List.forall_mem_cons.mp buffer.present).2
  leading := by
    apply buffer.leading.tail.congr
    · intro row present
      obtain ⟨eligible, before⟩ := buffer.leading.tail.members row present
      refine ⟨eligible.committed, eligible.below, ?_⟩
      rintro _ ⟨⟩
      exact (EventRow.admits_bound_at checked history).mpr before
    · intro row eligible _ _ _
      have before := (EventRow.admits_bound_at checked history).mp (eligible.behind _ rfl)
      have first := buffer.leading.members pair.1 List.mem_cons_self
      exact ⟨⟨eligible.committed, eligible.below, fun bound isBound =>
        Bound.admits_mono (first.behind bound isBound) before⟩, before⟩

/-- The first buffered row is the next event. -/
theorem Buffer.pop {start : Option PgAllPos}
    (buffer : Buffer db ceiling start (buffered :: rows) limits pairs) (sound : db.Sound)
    (isValue : buffered.intoValue = .ok row) (isItem : row.item history = .ok item) :
    ∃ event rest, IsItem history db event item ∧
      Leading EventRow.position (Eligible db ceiling (start.map PgAllPos.bound)) [event] ∧
      Buffer db ceiling (some item.1) rows limits rest := by
  cases pairs with
  | nil => cases buffer.rows_eq
  | cons pair rest =>
    have isRow := intoValue_of_eq_ok ((List.cons.inj buffer.rows_eq).1 ▸ isValue)
    subst isRow
    obtain ⟨isPosition, isStream, isEvent⟩ := item_eq_ok isItem
    obtain ⟨committed, hasKey, isNumber⟩ := mem_joined.mp (buffer.present pair List.mem_cons_self)
    refine ⟨pair.1, rest, ⟨isPosition, ?_, ?_⟩, buffer.leading.head, ?_⟩
    · rw [isStream, ← isNumber]
      exact hasKey
    · rw [isStream]
      exact isEvent
    · rw [isPosition]
      exact buffer.tail (sound.checked pair.1 committed) history

/-- What the code of a scan may assume. -/
def readContract : Contract Unit ReadStatement ReadStatement.Answer (Database Session) where
  guard _ _ _ := True
  issue _ db := db
  rely := Evolves
  answer statement db answer after :=
    after = db ∧ db.Sound ∧ ∀ reply, answer = .ok reply → Reads db statement reply
  rely_trans := Evolves.trans

/-- What holds of a result behind a position: a scan is at that position, and an
item is of the first event behind it. -/
def ReadResult.Holds (history : History) (start : Option PgAllPos) (db : Database Session) :
    ReadResult → Prop
  | .opened (.ok scan) => ScanAt db start scan
  | .polled (.ok (some (item, scan))) => ScanAt db (some item.1) scan ∧
      ∃ event, IsItem history db event item ∧
        Leading EventRow.position (Eligible db scan.ceiling (start.map PgAllPos.bound)) [event]
  | _ => True

theorem IsItem.evolve (isItem : IsItem history db row item) (evolves : Evolves db after) :
    IsItem history after row item where
  position := isItem.position
  stream := evolves.keys.subset isItem.stream
  event := isItem.event

theorem ReadResult.Holds.evolve {result : ReadResult}
    (holds : result.Holds history start db) (evolves : Evolves db after) :
    result.Holds history start after := by
  match result with
  | .opened (.ok scan) => exact ScanAt.evolve holds evolves
  | .opened (.error _) => trivial
  | .polled (.ok (some (item, scan))) =>
    obtain ⟨scanAt, event, isItem, leading⟩ := holds
    exact ⟨scanAt.evolve evolves, event, isItem.evolve evolves,
      evolves.leading scanAt.settled leading⟩
  | .polled (.ok none) => trivial
  | .polled (.error _) => trivial

theorem succeeds_fetch (statement : ReadStatement)
    {post : statement.Reply → Database Session → Prop}
    (delivers : ∀ {later reply}, Evolves db later → later.Sound →
      Reads later statement reply → post reply later) :
    Succeeds readContract (fun value _ => post value) (fetch statement) () db := by
  apply Succeeds.adapt
  refine ⟨trivial, ?_⟩
  rintro later _ answer evolves ⟨rfl, sound, reads⟩ reply isReply
  exact delivers evolves sound (reads reply isReply)

theorem succeeds_readAll (history : History) (start : Option PgAllPos) :
    Succeeds readContract (fun scan _ db => ScanAt db start scan) (readAll history start) ()
      db := by
  apply Succeeds.bind
  refine succeeds_ofExcept fun _ _ => ?_
  apply Succeeds.bind
  apply succeeds_fetch .snapshotXmin
  intro later ceiling evolves sound reads
  cases reads with
  | snapshotXmin settled =>
    rintro _ ⟨⟩
    exact ⟨rfl, settled, singleRows, [], rfl, by simp, .nil⟩

/-- A refilled buffer holds the next rows. -/
theorem succeeds_refill (scanAt : ScanAt db start scan) (sound : db.Sound) (limits : Limits) :
    Succeeds readContract
      (fun rows _ db => db.Sound ∧ Settled db scan.ceiling ∧
        ∃ limits pairs, Buffer db scan.ceiling start rows limits pairs)
      (scan.refill limits) () db := by
  by_cases exhausted : scan.rows.isEmpty = true
  · rw [Scan.refill, if_pos exhausted]
    apply succeeds_fetch (.selectPage limits scan.ceiling (scan.after.map PgAllPos.bound))
    intro later rows evolves sound reads
    cases reads
    rw [scanAt.after_eq]
    exact ⟨sound, evolves.settled scanAt.settled, limits, exists_buffer sound limits _ _⟩
  · rw [Scan.refill, if_neg exhausted]
    exact succeeds_pure ⟨sound, scanAt.settled, scanAt.buffered⟩

/-- A poll yields the next event. -/
theorem succeeds_next (scanAt : ScanAt db start scan)
    (sound : db.Sound) (limits : Limits) (history : History) :
    Succeeds readContract
      (fun result _ db => (ReadResult.polled (.ok result)).Holds history start db)
      (scan.next limits history) () db := by
  apply Succeeds.bind
  refine (succeeds_refill scanAt sound limits).mono ?_
  rintro rows ⟨⟩ db ⟨sound, settled, _, pairs, buffer⟩
  cases rows with
  | nil => exact succeeds_pure trivial
  | cons buffered rows =>
    apply Succeeds.bind
    refine succeeds_ofExcept fun row isValue => ?_
    apply Succeeds.bind
    refine succeeds_ofExcept fun item isItem => ?_
    obtain ⟨event, rest, isOf, first, buffer⟩ := buffer.pop sound isValue isItem
    apply succeeds_pure
    exact ⟨⟨rfl, settled, _, rest, buffer⟩, event, isOf, first⟩

end Mnesis.Postgres
