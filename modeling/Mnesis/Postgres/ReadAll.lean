import Mathlib.Data.List.Sort
import Mathlib.Data.Prod.Lex
import Mnesis.Foundation.Leading
import Mnesis.Postgres.Append
import Mnesis.Postgres.Database

/-!
# Reading all streams

A scan is opened with a cutoff: the smallest transaction id that was in progress, or
not taken yet, when it was opened.  It fetches pages of the events below the cutoff,
each behind the last event it yielded.  The rows of a page are the first ones behind
its bound, in the order of their positions.
-/

namespace Mnesis.Postgres

open Foundation Kernel Store Wire

/-- The order of events over all streams. -/
def EventRow.position (row : EventRow) : Nat ×ₗ Nat := toLex (row.txid, row.globalSeq)

/-- From where on a page selects its rows. -/
inductive Bound
  | row (txid seq : Nat)
  | transaction (txid : Nat)
  deriving DecidableEq

/-- The rows behind a bound. -/
def Bound.admits : Bound → EventRow → Bool
  | .row txid seq, event => toLex (txid, seq) < event.position
  | .transaction txid, event => txid < event.txid

/-- The bound behind a position.  A sequence number is a signed 64-bit number. -/
def PgAllPos.bound (position : PgAllPos) : Bound :=
  match narrow (2 ^ 63) position.seq with
  | some sequence => .row position.txid sequence
  | none => .transaction position.txid

/-- Events with their keys. -/
def joined (keys : List KeyRow) (events : List EventRow) : List (EventRow × KeyRow) :=
  events.flatMap fun row =>
    (keys.filter fun key => key.number = row.streamId).map fun key => (row, key)

/-- The header of an event. -/
structure Candidate where
  globalSeq : Nat
  version : Nat
  txid : Nat
  rowBytes : Nat
  deriving DecidableEq

/-- The order of headers. -/
def Candidate.position (candidate : Candidate) : Nat ×ₗ Nat :=
  toLex (candidate.txid, candidate.globalSeq)

/-- The header of an event with its key.  The size counts 32 bytes for its numbers. -/
def Candidate.of (pair : EventRow × KeyRow) : Candidate where
  globalSeq := pair.1.globalSeq
  version := pair.1.version
  txid := pair.1.txid
  rowBytes := 32 + pair.2.value.length + pair.1.eventType.length + pair.1.payload.length +
    (pair.1.metadata.map List.length).getD 0

/-- The headers of at most a page of events. -/
def candidates (keys : List KeyRow) (events : List EventRow) (limits : Limits) (ceiling : Nat)
    (bound : Option Bound) : List Candidate :=
  let selected := (joined keys events).filter fun pair =>
    pair.1.txid < ceiling && bound.all fun bound => bound.admits pair.1
  ((selected.map Candidate.of).insertionSort fun candidate other =>
    candidate.position ≤ other.position).take limits.rows.get

/-- Headers with their ordinals and their running sizes. -/
def ranked : Nat → Nat → List Candidate → List (Candidate × Nat × Nat)
  | _, _, [] => []
  | ordinal, total, candidate :: rest =>
    (candidate, ordinal + 1, total + candidate.rowBytes) ::
      ranked (ordinal + 1) (total + candidate.rowBytes) rest

/-- An event with the value of its key. -/
structure AllEventRow where
  streamId : Bytes
  event : EventRow
  deriving DecidableEq

/-- A row of a page; one that is too large has no body. -/
inductive PageRow
  | value (row : AllEventRow)
  | oversized (actual limit : Nat)
  deriving DecidableEq

/-- The body of a row. -/
def PageRow.intoValue : PageRow → Except PostgresError AllEventRow
  | .value row => .ok row
  | .oversized actual limit => .error (.rowLimit actual limit)

/-- The row of an event whose size is known. -/
def PageRow.of (limits : Limits) (rowBytes : Nat) (pair : EventRow × KeyRow) : PageRow :=
  if rowBytes ≤ limits.bytes then .value ⟨pair.2.value, pair.1⟩
  else .oversized rowBytes limits.bytes

/-- Select a page: as many of its rows as have room, and at least the first one. -/
def selectPage (keys : List KeyRow) (events : List EventRow) (limits : Limits) (ceiling : Nat)
    (bound : Option Bound) : List PageRow :=
  let kept := (ranked 0 0 (candidates keys events limits ceiling bound)).filter fun item =>
    item.2.2 ≤ limits.bytes || item.2.1 = 1
  let found := kept.flatMap fun item =>
    (joined keys (events.filter fun row => row.globalSeq = item.1.globalSeq)).map fun pair =>
      (item.1.rowBytes, pair)
  (found.insertionSort fun item other => item.2.1.position ≤ other.2.1.position).map fun item =>
    .of limits item.1 item.2

/-- The statements that scans send. -/
inductive ReadStatement
  | snapshotXmin
  | selectPage (limits : Limits) (ceiling : Nat) (bound : Option Bound)

/-- What a statement returns. -/
def ReadStatement.Reply : ReadStatement → Type
  | .snapshotXmin => Nat
  | .selectPage _ _ _ => List PageRow

/-- The answer to a statement. -/
def ReadStatement.Answer (statement : ReadStatement) : Type :=
  Except SqlxError statement.Reply

/-- Code of a scan. -/
abbrev ReadCode (α : Type) :=
  ExceptT PostgresError (Program Unit ReadStatement ReadStatement.Answer) α

/-- Send a statement. -/
def fetch (statement : ReadStatement) : ReadCode statement.Reply :=
  ExceptT.adapt PostgresError.sqlx (ExceptT.mk (.await statement .done))

/-- A value that its column should not hold. -/
def corruptValue (streamId : StreamKey) (error : ValueError) : PostgresError :=
  .corruptRow streamId (.value error)

/-- The envelope of a row. -/
def rowToEnvelope (row : EventRow) (label : StreamKey) :
    Except PostgresError PersistedEnvelope := do
  let version ← okOr ((narrow (2 ^ 64) row.version).bind fun number =>
    Version.new (UInt64.ofNat number)) (corrupt label "version <= 0 or out of range")
  let schema ← okOr ((toU32 row.schemaVersion).bind fun number =>
    (SchemaVersion.fromU32 number).toOption) (corrupt label "schema_version == 0 or out of range")
  let eventType ← (EventType.fromBytes row.eventType).mapError (corruptValue label)
  let payload ← (Payload.fromBytes row.payload).mapError (corruptValue label)
  let metadata ← (row.metadata.mapM Metadata.fromBytes).mapError (corruptValue label)
  let frame ← (encodeFrame schema eventType payload metadata).mapError (.frame label version.asU64)
  (PersistedEnvelope.tryNew version frame.value schema frame.offsets.eventType
    frame.offsets.payload frame.offsets.metadata).mapError (.envelopeCorrupt label version.asU64)

/-- What a scan yields: a position, a stream and an event. -/
abbrev AllItem := PgAllPos × StreamKey × PersistedEnvelope

/-- The state of a scan. -/
structure Scan where
  after : Option PgAllPos
  rows : List PageRow
  ceiling : Nat

/-- A position must be of the same history. -/
def History.check (history actual : History) : Except PostgresError Unit :=
  rejectIf (history ≠ actual) (.historyMismatch history actual)

/-- Open a scan behind a position. -/
def readAll (history : History) (start : Option PgAllPos) : ReadCode Scan := do
  MonadExcept.ofExcept (start.forM fun position => history.check position.history)
  let upper ← fetch .snapshotXmin
  return ⟨start, [], upper⟩

/-- Fetch the page behind the last event of a scan. -/
def Scan.fetchPage (limits : Limits) (scan : Scan) : ReadCode (List PageRow) :=
  fetch (.selectPage limits scan.ceiling (scan.after.map PgAllPos.bound))

/-- The rows of a scan that are at hand; without any, the next page is fetched. -/
def Scan.refill (limits : Limits) (scan : Scan) : ReadCode (List PageRow) :=
  if scan.rows.isEmpty then
    scan.fetchPage limits
  else
    return scan.rows

/-- What a row yields. -/
def AllEventRow.item (history : History) (row : AllEventRow) : Except PostgresError AllItem := do
  let txid ← okOr (narrow (2 ^ 64) row.event.txid) (corrupt row.streamId "txid out of range")
  let seq ← okOr (narrow (2 ^ 64) row.event.globalSeq)
    (corrupt row.streamId "global_seq out of range")
  rejectIf (seq = 0) (corrupt row.streamId "global_seq is zero")
  let event ← rowToEnvelope row.event row.streamId
  return (⟨history, txid, seq⟩, row.streamId, event)

/-- What a scan yields next, with its state behind it. -/
def Scan.next (limits : Limits) (history : History) (scan : Scan) :
    ReadCode (Option (AllItem × Scan)) := do
  match ← scan.refill limits with
  | [] => return none
  | buffered :: rows => do
    let row ← MonadExcept.ofExcept buffered.intoValue
    let item ← MonadExcept.ofExcept (row.item history)
    return some (item, ⟨some item.1, rows, scan.ceiling⟩)

variable {Session : Type} {db : Database Session}

theorem EventRow.position_lt_iff {row : EventRow} :
    row.position < other.position ↔ row.Before other :=
  Prod.Lex.toLex_lt_toLex

theorem Constraints.position_nodup (constraints : Constraints keys events) :
    (events.map EventRow.position).Nodup := by
  apply List.Nodup.of_map fun position => (ofLex position).2
  rw [List.map_map]
  exact constraints.eventsPkey

/-- A unique column tells rows apart. -/
theorem filter_eq_singleton {column : α → Nat} {rows : List α}
    (unique : (rows.map column).Nodup) (present : row ∈ rows) :
    (rows.filter fun other => column other = column row) = [row] := by
  induction rows with
  | nil => cases present
  | cons first rows rest =>
    obtain ⟨fresh, unique⟩ := List.nodup_cons.mp unique
    rcases List.mem_cons.mp present with rfl | present
    · rw [List.filter_cons_of_pos (by simp), List.filter_eq_nil_iff.mpr]
      intro other isOther same
      exact fresh (List.mem_map.mpr ⟨other, isOther, of_decide_eq_true same⟩)
    · have different : column first ≠ column row := fun same =>
        fresh (same ▸ List.mem_map_of_mem present)
      rw [List.filter_cons_of_neg (by simpa using different)]
      exact rest unique present

theorem mem_joined :
    pair ∈ joined keys events ↔
      pair.1 ∈ events ∧ pair.2 ∈ keys ∧ pair.2.number = pair.1.streamId := by
  simp only [joined, List.mem_flatMap, List.mem_map, List.mem_filter, decide_eq_true_eq]
  constructor
  · rintro ⟨row, present, key, ⟨hasKey, same⟩, rfl⟩
    exact ⟨present, hasKey, same⟩
  · rintro ⟨present, hasKey, same⟩
    exact ⟨pair.1, present, pair.2, ⟨hasKey, same⟩, rfl⟩

theorem map_fst_joined {events : List EventRow} (unique : (keys.map KeyRow.number).Nodup)
    (known : ∀ row ∈ events, row.streamId ∈ keys.map KeyRow.number) :
    (joined keys events).map Prod.fst = events := by
  induction events with
  | nil => rfl
  | cons row events rest =>
    obtain ⟨hasKey, known⟩ := List.forall_mem_cons.mp known
    obtain ⟨key, present, isNumber⟩ := List.mem_map.mp hasKey
    rw [joined, List.flatMap_cons, ← isNumber, filter_eq_singleton unique present]
    exact congrArg (row :: ·) (rest known)

theorem joined_filter (sound : db.Sound) (present : pair ∈ joined db.keys db.events) :
    joined db.keys (db.events.filter fun row => row.globalSeq = pair.1.globalSeq) = [pair] := by
  obtain ⟨isEvent, isKey, same⟩ := mem_joined.mp present
  rw [filter_eq_singleton sound.constraints.eventsPkey isEvent, joined, List.flatMap_singleton,
    ← same, filter_eq_singleton sound.constraints.keysPkey isKey]
  rfl

theorem ranked_eq (ordinal total : Nat) (candidates : List Candidate) :
    ranked ordinal total candidates = rankedBy Candidate.rowBytes ordinal total candidates := by
  induction candidates generalizing ordinal total with
  | nil => rfl
  | cons candidate candidates rest => rw [ranked, rankedBy, rest]

section Order

variable {Position : Type} [LinearOrder Position]

/-- A page of the rows that meet a condition, in the order of a column. -/
def pageBy (header : Candidate → Position) (column : EventRow → Position)
    (condition : EventRow → Bool) (keys : List KeyRow) (events : List EventRow)
    (limits : Limits) : List PageRow :=
  let selected := (joined keys events).filter fun pair => condition pair.1
  let candidates := ((selected.map Candidate.of).insertionSort fun candidate other =>
    header candidate ≤ header other).take limits.rows.get
  let kept := (ranked 0 0 candidates).filter fun item =>
    item.2.2 ≤ limits.bytes || item.2.1 = 1
  let found := kept.flatMap fun item =>
    (joined keys (events.filter fun row => row.globalSeq = item.1.globalSeq)).map fun pair =>
      (item.1.rowBytes, pair)
  (found.insertionSort fun item other => column item.2.1 ≤ column other.2.1).map fun item =>
    .of limits item.1 item.2

/-- The events that meet a condition with their keys, in order. -/
def selectionBy (column : EventRow → Position) (condition : EventRow → Bool)
    (db : Database Session) : List (EventRow × KeyRow) :=
  ((joined db.keys db.events).filter fun pair => condition pair.1).insertionSort
    fun pair other => column pair.1 ≤ column other.1

/-- The row of a page for an event with its key. -/
def pageRow (limits : Limits) (pair : EventRow × KeyRow) : PageRow :=
  .of limits (Candidate.of pair).rowBytes pair

variable {header : Candidate → Position} {column : EventRow → Position}
theorem mem_selectionBy :
    pair ∈ selectionBy column condition db ↔
      pair ∈ joined db.keys db.events ∧ condition pair.1 = true := by
  rw [selectionBy, List.mem_insertionSort, List.mem_filter]

theorem map_fst_selectionBy (sound : db.Sound) :
    (selectionBy column condition db).map Prod.fst =
      (db.events.filter condition).insertionSort fun row other => column row ≤ column other := by
  have events := map_fst_joined sound.constraints.keysPkey sound.constraints.eventsStreamIdFkey
  rw [selectionBy, List.map_insertionSort _ fun row other => column row ≤ column other]
  · nth_rewrite 2 [← events]
    rw [List.filter_map]
    rfl
  · exact fun _ _ _ _ => Iff.rfl

/-- The headers that a page keeps are those of the first events, and at least of one
if there is any. -/
theorem exists_kept (db : Database Session)
    (agree : ∀ pair, header (Candidate.of pair) = column pair.1) (condition : EventRow → Bool)
    (limits : Limits) :
    ∃ pairs, pairs <+: selectionBy column condition db ∧
      (pairs = [] → selectionBy column condition db = []) ∧
      ((ranked 0 0 (((((joined db.keys db.events).filter fun pair => condition pair.1).map
        Candidate.of).insertionSort fun candidate other =>
          header candidate ≤ header other).take limits.rows.get)).filter
        (fun item => item.2.2 ≤ limits.bytes || item.2.1 = 1)).map Prod.fst =
          pairs.map Candidate.of := by
  have sorted : (((joined db.keys db.events).filter fun pair => condition pair.1).map
      Candidate.of).insertionSort (fun candidate other => header candidate ≤ header other) =
        (selectionBy column condition db).map Candidate.of := by
    rw [selectionBy, List.map_insertionSort _ fun candidate other =>
      header candidate ≤ header other]
    intro pair _ other _
    rw [agree, agree]
  rw [sorted, ranked_eq]
  exact exists_withinBudget limits.rows.positive Candidate.rowBytes limits.bytes Candidate.of
    (selectionBy column condition db)

/-- Candidates are joined with their own rows again. -/
theorem flatMap_joined (sound : db.Sound) {pairs : List (EventRow × KeyRow)}
    (present : ∀ pair ∈ pairs, pair ∈ joined db.keys db.events) :
    ((pairs.map Candidate.of).flatMap fun candidate =>
      (joined db.keys (db.events.filter fun row => row.globalSeq = candidate.globalSeq)).map
        fun pair => (candidate.rowBytes, pair)) =
      pairs.map fun pair => ((Candidate.of pair).rowBytes, pair) := by
  induction pairs with
  | nil => rfl
  | cons pair pairs rest =>
    obtain ⟨isPair, present⟩ := List.forall_mem_cons.mp present
    rw [List.map_cons, List.flatMap_cons, rest present, Candidate.of, joined_filter sound isPair]
    rfl

/-- A page holds the first rows selected, and one at least. -/
theorem exists_pageBy (sound : db.Sound)
    (agree : ∀ pair, header (Candidate.of pair) = column pair.1) (condition : EventRow → Bool)
    (limits : Limits) :
    ∃ pairs, pairs <+: selectionBy column condition db ∧
      (pairs = [] → selectionBy column condition db = []) ∧
      pageBy header column condition db.keys db.events limits = pairs.map (pageRow limits) := by
  obtain ⟨pairs, isPrefix, progress, kept⟩ := exists_kept db agree condition limits
  have found := flatMap_joined sound fun pair present =>
    (mem_selectionBy.mp (isPrefix.subset present)).1
  rw [← kept, List.flatMap_map] at found
  have sorted : (pairs.map fun pair => ((Candidate.of pair).rowBytes, pair)).Pairwise
      fun item other => column item.2.1 ≤ column other.2.1 :=
    List.pairwise_map.mpr ((List.pairwise_insertionSort _ _).sublist isPrefix.sublist)
  refine ⟨pairs, isPrefix, progress, ?_⟩
  simp only [pageBy]
  rw [found, sorted.insertionSort_eq, List.map_map]
  rfl

end Order

/-- The condition under which a page selects a row. -/
def selects (ceiling : Nat) (bound : Option Bound) (row : EventRow) : Bool :=
  row.txid < ceiling && bound.all fun bound => bound.admits row

/-- The selected events with their keys, in order. -/
def selection (db : Database Session) (ceiling : Nat) (bound : Option Bound) :
    List (EventRow × KeyRow) :=
  ((joined db.keys db.events).filter fun pair => selects ceiling bound pair.1).insertionSort
    fun pair other => pair.1.position ≤ other.1.position

theorem mem_joined_of_mem_selection (present : pair ∈ selection db ceiling bound) :
    pair ∈ joined db.keys db.events :=
  (List.mem_filter.mp ((List.mem_insertionSort _).mp present)).1

theorem map_fst_selection (sound : db.Sound) (ceiling : Nat) (bound : Option Bound) :
    (selection db ceiling bound).map Prod.fst =
      (db.events.filter (selects ceiling bound)).insertionSort
        fun row other => row.position ≤ other.position :=
  map_fst_selectionBy sound

theorem exists_selectPage (sound : db.Sound) (limits : Limits) (ceiling : Nat)
    (bound : Option Bound) :
    ∃ pairs, pairs <+: selection db ceiling bound ∧
      selectPage db.keys db.events limits ceiling bound =
        pairs.map fun pair => .of limits (Candidate.of pair).rowBytes pair := by
  have agree (pair : EventRow × KeyRow) : (Candidate.of pair).position = pair.1.position := rfl
  obtain ⟨pairs, isPrefix, _, isPage⟩ := exists_pageBy sound agree (selects ceiling bound) limits
  exact ⟨pairs, isPrefix, isPage⟩

/-- The events that a page selects from. -/
structure Eligible (db : Database Session) (ceiling : Nat) (bound : Option Bound)
    (row : EventRow) : Prop where
  committed : row ∈ db.events
  below : row.txid < ceiling
  behind : ∀ limit, bound = some limit → limit.admits row = true

theorem mem_filter_selects :
    row ∈ db.events.filter (selects ceiling bound) ↔ Eligible db ceiling bound row := by
  rw [List.mem_filter, selects, Bool.and_eq_true, decide_eq_true_eq, Option.all_eq_true]
  constructor
  · exact fun ⟨committed, below, behind⟩ => ⟨committed, below, behind⟩
  · exact fun eligible => ⟨eligible.committed, eligible.below, eligible.behind⟩

/-- The rows of a page lead those that are eligible. -/
theorem leading_selection (sound : db.Sound) (isPrefix : pairs <+: selection db ceiling bound) :
    Leading EventRow.position (Eligible db ceiling bound) (pairs.map Prod.fst) := by
  have rows := isPrefix.map Prod.fst
  rw [map_fst_selection sound] at rows
  have distinct : ((db.events.filter (selects ceiling bound)).map EventRow.position).Nodup :=
    sound.constraints.position_nodup.sublist (List.filter_sublist.map _)
  have leading := Leading.of_prefix rows distinct
  exact leading.congr (fun row present => mem_filter_selects.mp (leading.members row present))
    fun row eligible _ _ _ => mem_filter_selects.mpr eligible

end Mnesis.Postgres
