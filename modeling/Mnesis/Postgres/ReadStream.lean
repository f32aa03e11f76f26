import Mnesis.Foundation.Walk
import Mnesis.Postgres.ReadAll
import Mnesis.Postgres.Sessions

/-!
# Reading one stream, and listing the streams

A scan of a stream is opened with the last version of the stream.  It fetches pages
of the events up to that version, each page behind the last event it yielded.  Each
poll of a scan sends at most one statement.

A listing captures a snapshot of the transactions when it is opened, and fetches pages
of the keys behind the last key it listed.  A key is listed if an event of its stream
is committed when the page is fetched, and its transaction is visible in the captured
snapshot.
-/

namespace Mnesis.Postgres

open Foundation Kernel Store

section

variable {Session : Type}

/-- The events of a stream between two versions, and behind another one. -/
def inStream (key lower upper : Nat) (after : Option Nat) (row : EventRow) : Bool :=
  row.streamId = key && lower ≤ row.version && row.version ≤ upper &&
    after.all fun position => position < row.version

/-- Select a page of a stream. -/
def streamPage (keys : List KeyRow) (events : List EventRow) (limits : Limits)
    (key lower upper : Nat) (after : Option Nat) : List PageRow :=
  pageBy Candidate.version EventRow.version (inStream key lower upper after) keys events limits

/-- The statements that scans of a stream send. -/
inductive StreamStatement
  | readHead (id : StreamKey)
  | selectPage (limits : Limits) (key lower upper : Nat) (after : Option Nat)

/-- What a statement returns. -/
def StreamStatement.Reply : StreamStatement → Type
  | .readHead _ => Head
  | .selectPage _ _ _ _ _ => List PageRow

/-- The answer to a statement. -/
def StreamStatement.Answer (statement : StreamStatement) : Type :=
  Except SqlxError statement.Reply

/-- Code of a scan of a stream. -/
abbrev StreamCode (α : Type) :=
  ExceptT PostgresError (Program Unit StreamStatement StreamStatement.Answer) α

/-- Send a statement. -/
def fetchStream (statement : StreamStatement) : StreamCode statement.Reply :=
  ExceptT.adapt PostgresError.sqlx (ExceptT.mk (.await statement .done))

/-- The state of a scan of a stream. -/
structure StreamScan where
  key : Nat
  after : Option Nat
  rows : List PageRow
  floor : Nat
  ceiling : Nat

/-- Open a scan from a version on.  A stream without events has none. -/
def readStream (id : StreamKey) (start : Version) : StreamCode (Option StreamScan) := do
  match ← fetchStream (.readHead id) with
  | some (number, some upper) => return some ⟨number, none, [], start.toNat, upper⟩
  | _ => return none

/-- The rows of a scan that are at hand; without any, the next page is fetched. -/
def StreamScan.refill (limits : Limits) (scan : StreamScan) : StreamCode (List PageRow) :=
  if scan.rows.isEmpty then
    fetchStream (.selectPage limits scan.key scan.floor scan.ceiling scan.after)
  else
    return scan.rows

/-- What a row yields. -/
def PageRow.envelope (label : StreamKey) (buffered : PageRow) :
    Except PostgresError PersistedEnvelope := do
  let row ← buffered.intoValue
  rowToEnvelope row.event label

/-- What the first of some rows yields, with the state behind it. -/
def StreamScan.pop (label : StreamKey) (scan : StreamScan) :
    List PageRow → StreamCode (Option (PersistedEnvelope × StreamScan))
  | [] => return none
  | buffered :: rows => do
    let event ← MonadExcept.ofExcept (buffered.envelope label)
    return some (event, { scan with after := some event.version.toNat, rows })

/-- What a scan yields next, with its state behind it. -/
def StreamScan.next (limits : Limits) (label : StreamKey) (scan : StreamScan) :
    StreamCode (Option (PersistedEnvelope × StreamScan)) := do
  scan.pop label (← scan.refill limits)

/-- The database when a scan is polled, and whether its statement fails. -/
structure Moment (Session : Type) where
  db : Database Session
  failure : Option SqlxError

/-- An answer at a moment. -/
def Moment.answer {Reply : Type} (moment : Moment Session) (reply : Reply) :
    Except SqlxError Reply :=
  moment.failure.elim (.ok reply) .error

/-- Scans of a stream. -/
def streamKind (limits : Limits) (label : StreamKey) :
    ScanKind StreamStatement.Answer StreamScan PageRow PersistedEnvelope PostgresError where
  next scan := (scan.next limits label).run
  page
    | ⟨.selectPage _ _ _ _ _, .ok page⟩ => some page
    | _ => none

/-- What the statements of a scan of a stream return at a moment. -/
def StreamStatement.answerAt (moment : Moment Session) :
    (statement : StreamStatement) → statement.Answer
  | .readHead id => moment.answer (headOf moment.db.keys moment.db.events id)
  | .selectPage limits key lower upper after =>
    moment.answer (streamPage moment.db.keys moment.db.events limits key lower upper after)

/-- Scans of all streams. -/
def allKind (limits : Limits) (history : History) :
    ScanKind ReadStatement.Answer Scan PageRow AllItem PostgresError where
  next scan := (scan.next limits history).run
  page
    | ⟨.selectPage _ _ _, .ok page⟩ => some page
    | _ => none

/-- What the statements of a scan of all streams return at a moment, with the given
cutoff. -/
def ReadStatement.answerAt (moment : Moment Session) (cutoff : Nat) :
    (statement : ReadStatement) → statement.Answer
  | .snapshotXmin => moment.answer cutoff
  | .selectPage limits ceiling bound =>
    moment.answer (Postgres.selectPage moment.db.keys moment.db.events limits ceiling bound)

/-- A scan of a stream, with its pages and its events. -/
abbrev StreamWalk := Walk StreamScan PageRow PersistedEnvelope PostgresError

/-- A scan of all streams, with its pages and its items. -/
abbrev AllWalk := Walk Scan PageRow AllItem PostgresError

/-- A scan of a stream after polls at some moments. -/
def streamWalk (limits : Limits) (label : StreamKey) (scan : StreamScan)
    (moments : List (Moment Session)) : StreamWalk :=
  moments.foldl (fun walk moment =>
    walk.poll (streamKind limits label) (StreamStatement.answerAt moment)) (.opened scan)

/-- A scan of all streams after polls at some moments. -/
def allWalk (limits : Limits) (history : History) (scan : Scan) (moments : List (Moment Session)) :
    AllWalk :=
  moments.foldl (fun walk moment =>
    walk.poll (allKind limits history) (ReadStatement.answerAt moment scan.ceiling)) (.opened scan)

/-- Open a scan of a stream at a moment, and poll it at others. -/
def readStreamWalk (limits : Limits) (id : StreamKey) (start : Version) (opening : Moment Session)
    (moments : List (Moment Session)) : Except PostgresError StreamWalk :=
  ((readStream id start).run.serve (StreamStatement.answerAt opening) ()).2.map fun opened =>
    opened.elim .empty fun scan => streamWalk limits id scan moments

/-- Open a scan of all streams at a moment, and poll it at others. -/
def readAllWalk (limits : Limits) (history : History) (start : Option PgAllPos) (cutoff : Nat)
    (opening : Moment Session) (moments : List (Moment Session)) :
    Except PostgresError AllWalk :=
  ((readAll history start).run.serve (ReadStatement.answerAt opening cutoff) ()).2.map fun scan =>
    allWalk limits history scan moments

end

variable {Session : Type}

/-- A snapshot of the transactions: all below `xmin` had completed, none from `xmax` on,
and of those in between all but some. -/
structure Snapshot where
  xmin : Nat
  xmax : Nat
  xip : List Nat
  deriving DecidableEq

/-- The visibility of a transaction in a snapshot. -/
def Snapshot.visible (snapshot : Snapshot) (txid : Nat) : Bool :=
  txid < snapshot.xmin || txid < snapshot.xmax && txid ∉ snapshot.xip

/-- What a snapshot that was taken of a database tells of its transactions: those that
committed are visible, those in progress or to come are not. -/
structure Snapshot.Captures (snapshot : Snapshot) (db : Database Session) : Prop where
  committed : ∀ row ∈ db.events, snapshot.visible row.txid = true
  inProgress : ∀ session tx txid, db.active session = some tx → tx.txid = some txid →
    snapshot.visible txid = false
  unassigned : ∀ txid, db.nextTxid ≤ txid → snapshot.visible txid = false

/-- The size of a key.  It counts 32 bytes for its number. -/
def keyBytes (key : KeyRow) : Nat := 32 + key.value.length

/-- A row of a page of keys; one that is too large has no value. -/
inductive KeyPageRow
  | value (key : KeyRow)
  | oversized (actual limit : Nat)
  deriving DecidableEq

/-- The key of a row. -/
def KeyPageRow.intoValue : KeyPageRow → Except PostgresError KeyRow
  | .value key => .ok key
  | .oversized actual limit => .error (.rowLimit actual limit)

/-- The row of a key whose size is known. -/
def KeyPageRow.of (limits : Limits) (rowBytes : Nat) (key : KeyRow) : KeyPageRow :=
  if rowBytes ≤ limits.bytes then .value key else .oversized rowBytes limits.bytes

/-- The keys behind a number whose streams have an event that is visible in a snapshot. -/
def isListed (events : List EventRow) (snapshot : Snapshot) (after : Option Nat) (key : KeyRow) :
    Bool :=
  (after.all fun number => number < key.number) &&
    events.any fun row => row.streamId = key.number && snapshot.visible row.txid

/-- Select a page of keys. -/
def keyPage (keys : List KeyRow) (events : List EventRow) (limits : Limits) (snapshot : Snapshot)
    (after : Option Nat) : List KeyPageRow :=
  let selected := keys.filter (isListed events snapshot after)
  -- the number and the size of each candidate
  let candidates := ((selected.map fun key => (key.number, keyBytes key)).insertionSort
    fun candidate other => candidate.1 ≤ other.1).take limits.rows.get
  let kept := withinBudget limits.bytes (rankedBy Prod.snd 0 0 candidates)
  let found := kept.flatMap fun item =>
    (keys.filter fun key => key.number = item.1.1).map fun key => (item.1.2, key)
  (found.insertionSort fun item other => item.2.number ≤ other.2.number).map fun item =>
    .of limits item.1 item.2

/-- The statements that listings send. -/
inductive ListStatement
  | currentSnapshot
  | selectKeys (limits : Limits) (snapshot : Snapshot) (after : Option Nat)

/-- What a statement returns. -/
def ListStatement.Reply : ListStatement → Type
  | .currentSnapshot => Snapshot
  | .selectKeys _ _ _ => List KeyPageRow

/-- The answer to a statement. -/
def ListStatement.Answer (statement : ListStatement) : Type :=
  Except SqlxError statement.Reply

/-- Code of a listing. -/
abbrev ListCode (α : Type) :=
  ExceptT PostgresError (Program Unit ListStatement ListStatement.Answer) α

/-- Send a statement. -/
def fetchList (statement : ListStatement) : ListCode statement.Reply :=
  ExceptT.adapt PostgresError.sqlx (ExceptT.mk (.await statement .done))

/-- The state of a listing. -/
structure KeyScan where
  after : Option Nat
  rows : List KeyPageRow
  snapshot : Snapshot

/-- Open a listing. -/
def listStreams : ListCode KeyScan := do
  let captured ← fetchList .currentSnapshot
  return ⟨none, [], captured⟩

/-- The rows of a listing that are at hand; without any, the next page is fetched. -/
def KeyScan.refill (limits : Limits) (scan : KeyScan) : ListCode (List KeyPageRow) :=
  if scan.rows.isEmpty then
    fetchList (.selectKeys limits scan.snapshot scan.after)
  else
    return scan.rows

/-- What a listing yields next, with its state behind it. -/
def KeyScan.next (limits : Limits) (scan : KeyScan) : ListCode (Option (StreamKey × KeyScan)) := do
  match ← scan.refill limits with
  | [] => return none
  | buffered :: rows => do
    let key ← MonadExcept.ofExcept buffered.intoValue
    return some (key.value, ⟨some key.number, rows, scan.snapshot⟩)

/-- Listings. -/
def listKind (limits : Limits) :
    ScanKind ListStatement.Answer KeyScan KeyPageRow StreamKey PostgresError where
  next scan := (scan.next limits).run
  page
    | ⟨.selectKeys _ _ _, .ok page⟩ => some page
    | _ => none

/-- What the statements of a listing return at a moment, with the given snapshot. -/
def ListStatement.answerAt (moment : Moment Session) (captured : Snapshot) :
    (statement : ListStatement) → statement.Answer
  | .currentSnapshot => moment.answer captured
  | .selectKeys limits snapshot after =>
    moment.answer (keyPage moment.db.keys moment.db.events limits snapshot after)

/-- A listing, with its pages and its ids. -/
abbrev KeyWalk := Walk KeyScan KeyPageRow StreamKey PostgresError

/-- A listing after polls at some moments. -/
def keyWalk (limits : Limits) (scan : KeyScan) (moments : List (Moment Session)) : KeyWalk :=
  moments.foldl (fun walk moment =>
    walk.poll (listKind limits) (ListStatement.answerAt moment scan.snapshot)) (.opened scan)

/-- Open a listing at a moment, and poll it at others. -/
def listStreamsWalk (limits : Limits) (captured : Snapshot) (opening : Moment Session)
    (moments : List (Moment Session)) : Except PostgresError KeyWalk :=
  (listStreams.run.serve (ListStatement.answerAt opening captured) ()).2.map fun scan =>
    keyWalk limits scan moments

end Mnesis.Postgres
