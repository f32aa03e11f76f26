import Mnesis.Fjall.Store
import Mnesis.Fjall.Worker
import Mnesis.InMemory.Store

/-!
# Export sessions

A session reads from a snapshot of the database that the worker keeps until the session
expires.  A cursor of a session does not keep an iterator of the storage engine: every
fetch opens a new scan behind the last row, takes a batch from it and drops it.
-/

namespace Mnesis.Fjall

open Foundation Kernel Store Wire
open InMemory (ExportError)

/-- Failures of an export. -/
abbrev SessionError := ExportError StoreError

/-- A snapshot, and the instant at which it expires. -/
structure View where
  snapshot : Partitions
  deadline : Nat

/-- The snapshots that the worker keeps. -/
structure Views where
  active : Std.ExtTreeMap UInt64 View compare
  nextId : Option UInt64

/-- The session of a snapshot. -/
structure Lease where
  id : UInt64
  deadline : Nat

namespace Views

/-- The worker starts without snapshots. -/
def new : Views where
  active := ∅
  nextId := some 1

/-- Drop the snapshots that have expired. -/
def expire (now : Nat) (views : Views) : Views :=
  { views with active := views.active.filter fun _ view => now < view.deadline }

/-- The snapshot of a session. -/
def get (now : Nat) (id : UInt64) (views : Views) : Except SessionError Partitions := do
  let view ← okOr views.active[id]? .expired
  rejectIf (view.deadline ≤ now) .expired
  return view.snapshot

/-- Keep a snapshot for some time.  An instant is a number below the limit of the
clock. -/
def openView (clockLimit lifetime now : Nat) (partitions : Partitions)
    (views : Views) : Except SessionError (Lease × Views) := do
  let id ← okOr views.nextId (.store .exportSessionIdOverflow)
  let deadline ← okOr ((narrow clockLimit (now + lifetime)).filter fun _ => lifetime ≠ 0)
    (.invalidLifetime lifetime)
  return (⟨id, deadline⟩, ⟨views.active.insert id ⟨partitions, deadline⟩, checkedAdd id 1⟩)

/-- Drop the snapshot of a session. -/
def closeView (id : UInt64) (views : Views) : Views :=
  { views with active := views.active.erase id }

end Views

/-- Open a session: the lifetime is checked at once, and again when the worker takes the
snapshot. -/
def openExportSession (clockLimit lifetime now later : Nat) (admission : Except TrySendError Unit)
    (partitions : Partitions) (views : Views) : Except SessionError (Lease × Views) := do
  rejectIf (lifetime = 0 ∨ narrow clockLimit (now + lifetime) = none) (.invalidLifetime lifetime)
  (reserveCursor admission).mapError .store
  views.openView clockLimit lifetime later partitions

/-- What distinguishes the scans of a session: how one is opened in a snapshot, the rows
of its cursor, and where it goes on behind an item. -/
structure SessionScan (Scan Cursor Item : Type) where
  openAt : Scan → Partitions → Except FjallError Cursor
  nextRow : Cursor → Option (SizedRow FjallError Item) × Cursor
  advance : Item → Scan → Bool × Scan

/-- The ids of streams behind an id, or from the beginning. -/
def Partitions.streamIdsAfter (partitions : Partitions) : Option StreamKey → List StreamKey
  | none => partitions.streams.keys
  | some id => partitions.streams.keys.filter fun key => id < key

/-- A scan of the ids of streams, behind the last id. -/
structure Listing where
  after : Option StreamKey

/-- Which rows the storage engine fails to read, by their keys.  A cursor reads every row
at most once, so that this may be different from one cursor to the next. -/
abbrev Faults := Bytes → Option IoError

/-- A cursor of ids: those to come, and whether it has failed. -/
structure StreamIdCursor where
  iter : List StreamKey
  poisoned : Bool

/-- The next id.  A cursor that has failed has no more ids. -/
def StreamIdCursor.pollOne (faults : Faults) (cursor : StreamIdCursor) :
    Option (Except FjallError StreamKey) × StreamIdCursor :=
  if cursor.poisoned then
    (none, cursor)
  else
    match cursor.iter with
    | [] => (none, cursor)
    | id :: iter =>
      match faults id with
      | none => (some (.ok id), { cursor with iter })
      | some error => (some (.error (.io error)), { iter, poisoned := true })

/-- The next id with its size. -/
def nextStreamId (faults : Faults) (cursor : StreamIdCursor) :
    Option (SizedRow FjallError StreamKey) × StreamIdCursor :=
  let (item, cursor) := cursor.pollOne faults
  (item.map fun item => (item, (item.toOption.map List.length).getD 0), cursor)

/-- The scan of the ids of streams. -/
def listingScan (faults : Faults) : SessionScan Listing StreamIdCursor StreamKey where
  openAt scan snapshot := return ⟨snapshot.streamIdsAfter scan.after, false⟩
  nextRow := nextStreamId faults
  advance id _ := (true, ⟨some id⟩)

/-- A scan of the events of a stream, from a version on. -/
structure Events where
  id : StreamKey
  start : Version

/-- The next row of a scan.  It fails first of all if the row cannot be read. -/
def nextScanned {Item : Type} (faults : Faults) (cursor : ScanCursor Item) :
    Option (SizedRow FjallError Item) × ScanCursor Item :=
  match cursor.nextSized with
  | none => (none, cursor)
  | some (row, after) =>
    match cursor.rows.head?.bind fun stored => faults stored.1 with
    | some error => (some (.error (.io error), 0), { after with poisoned := true })
    | none => (some row, after)

/-- The scan of the events of a stream. -/
def eventsScan (faults : Faults) :
    SessionScan Events (ScanCursor PersistedEnvelope) PersistedEnvelope where
  openAt scan snapshot := ScanCursor.openAt snapshot.events (streamScan scan.id) scan.start
  nextRow := nextScanned faults
  advance envelope scan :=
    match envelope.version.next with
    | none => (false, scan)
    | some start => (true, { scan with start })

section Sessions

variable {Scan Cursor Item : Type}

/-- The rows of a session. -/
abbrev SessionRow (Item : Type) := Except SessionError Item

/-- The rows at hand, and the scan that fetches more. -/
abbrev SessionBatch (Scan Item : Type) := Batch Scan SessionError Item

/-- The rows of a cursor, together with the scan that is advanced behind each item. -/
def SessionScan.rows (kind : SessionScan Scan Cursor Item) :
    RowSource (Cursor × Scan) SessionError Item where
  nextRow state :=
    let (row, cursor) := kind.nextRow state.1
    (row.map fun (row, size) => (row.mapError fun error => .store (.storage error), size),
      (cursor, state.2))
  advance item state :=
    let (more, scan) := kind.advance item state.2
    (more, (state.1, scan))

/-- The limits of a batch of a session. -/
abbrev BlockingConfig.sessionLimits (config : BlockingConfig) : BatchLimits SessionError :=
  config.limits (.store (.storage .scanLengthOverflow))

/-- Fetch a batch from a snapshot. -/
def fetchSession (kind : SessionScan Scan Cursor Item) (config : BlockingConfig) (scan : Scan)
    (snapshot : Partitions) : Except SessionError (SessionBatch Scan Item) := do
  let cursor ← (kind.openAt scan snapshot).mapError fun error => .store (.storage error)
  let filled := kind.rows.fill config.sessionLimits config.scanBatchRows (cursor, scan) 0 []
  return filled.batch Prod.snd

/-- A request to fetch a batch of a session. -/
abbrev SessionRequest (Scan Item : Type) :=
  Request Scan (Except SessionError (SessionBatch Scan Item))

/-- The rows at hand, or the request for more. -/
structure SessionStream (Scan Item : Type) where
  batch : SessionBatch Scan Item
  pending : Option (SessionRequest Scan Item)

/-- What a poll of such a stream finds. -/
inductive Unfolded (Scan Item : Type)
  | pending (stream : SessionStream Scan Item)
  | ended
  | row (row : SessionRow Item) (stream : SessionStream Scan Item)

namespace SessionStream

/-- Take the first row at hand. -/
def popFront (batch : SessionBatch Scan Item) : Unfolded Scan Item :=
  match batch.rows with
  | [] => .ended
  | row :: rows => .row row ⟨{ batch with rows }, none⟩

/-- The rows that a request has brought: a batch, or a failure. -/
def settled : Except StoreError (Except SessionError (SessionBatch Scan Item)) →
    SessionBatch Scan Item
  | .ok (.ok batch) => batch
  | .ok (.error error) => ⟨none, [.error error]⟩
  | .error error => ⟨none, [.error (.store error)]⟩

/-- Poll the request for more rows. -/
def pollRequest (reservation : Reservation) (request : SessionRequest Scan Item) :
    Unfolded Scan Item :=
  match request.poll reservation with
  | .inr request => .pending ⟨⟨none, []⟩, some request⟩
  | .inl result => popFront (settled result)

/-- Poll a stream. -/
def pollNext (reservation : Reservation) (stream : SessionStream Scan Item) :
    Unfolded Scan Item :=
  match stream.pending with
  | some request => pollRequest reservation request
  | none =>
    if stream.batch.rows.isEmpty then
      match stream.batch.scan with
      | none => .ended
      | some scan => pollRequest reservation (.reserving scan)
    else
      popFront stream.batch

end SessionStream

/-- A cursor of a session.  It gives up its stream at the end, with the first failure
and when it has expired. -/
structure FjallExportCursor (Scan Item : Type) where
  inner : Option (SessionStream Scan Item)
  deadline : Nat

/-- Ask a cursor for its next row. -/
def FjallExportCursor.pollNext (now : Nat) (reservation : Reservation)
    (cursor : FjallExportCursor Scan Item) :
    Poll (Option (SessionRow Item)) × FjallExportCursor Scan Item :=
  match cursor.inner with
  | none => (.ready none, cursor)
  | some inner =>
    if cursor.deadline ≤ now then
      (.ready (some (.error .expired)), { cursor with inner := none })
    else
      match inner.pollNext reservation with
      | .pending inner => (.pending, { cursor with inner := some inner })
      | .ended => (.ready none, { cursor with inner := none })
      | .row (.error error) _ => (.ready (some (.error error)), { cursor with inner := none })
      | .row (.ok item) inner => (.ready (some (.ok item)), { cursor with inner := some inner })

namespace Lease

/-- A session is of use before its deadline only. -/
def checkLive (lease : Lease) (now : Nat) : Except SessionError Unit :=
  rejectIf (lease.deadline ≤ now) .expired

/-- A new cursor of a session, if there is a place for its cleanup. -/
def cursor (lease : Lease) (now : Nat) (admission : Except TrySendError Unit) (initial : Scan) :
    Except SessionError (FjallExportCursor Scan Item) := do
  lease.checkLive now
  (reserveCursor admission).mapError .store
  return ⟨some ⟨⟨some initial, []⟩, none⟩, lease.deadline⟩

/-- List the streams of a session. -/
def listStreams (lease : Lease) (now : Nat) (admission : Except TrySendError Unit) :
    Except SessionError (FjallExportCursor Listing StreamKey) :=
  lease.cursor now admission ⟨none⟩

/-- Export the events of a stream from a version on. -/
def exportStream (lease : Lease) (now : Nat) (admission : Except TrySendError Unit)
    (id : StreamKey) (start : Version) :
    Except SessionError (FjallExportCursor Events PersistedEnvelope) := do
  lease.checkLive now
  (validateKey id maxStreamIdLen).mapError fun error => .store (.storage error)
  lease.cursor now admission ⟨id, start⟩

end Lease

end Sessions

/-- The store, the snapshots of its worker, and the time. -/
structure ExportHost where
  partitions : Partitions
  views : Views
  now : Nat

/-- What happens apart from a session: calls write to the store, time passes, other
sessions are opened and closed, and snapshots expire. -/
inductive HostEvent
  | commit (call : Call)
  | elapse (time : Nat)
  | openView (lifetime : Nat)
  | closeView (id : UInt64)
  | expire

namespace ExportHost

/-- One event.  The session itself is not closed while a cursor borrows it. -/
def step (clockLimit : Nat) (lease : Lease) (host : ExportHost) : HostEvent → ExportHost
  | .commit call =>
    { host with partitions := ((machine host.partitions.mode).step host.partitions call).2 }
  | .elapse time => { host with now := host.now + time }
  | .openView lifetime =>
    match host.views.openView clockLimit lifetime host.now host.partitions with
    | .ok (_, views) => { host with views }
    | .error _ => host
  | .closeView id =>
    if id = lease.id then host else { host with views := host.views.closeView id }
  | .expire => { host with views := host.views.expire host.now }

/-- Some events. -/
def run (clockLimit : Nat) (lease : Lease) (host : ExportHost) (events : List HostEvent) :
    ExportHost :=
  events.foldl (step clockLimit lease) host

end ExportHost

/-- What happens to a cursor of a session: anything apart from it, it is polled, and the
worker takes its job, finishes it or loses it. -/
inductive ExportEvent
  | host (event : HostEvent)
  | poll (reservation : Reservation)
  | take
  | finish
  | lose (error : StoreError)

section World

variable {Scan Cursor Item : Type}

/-- A cursor, and the answers that it has given. -/
structure ExportWorld (Scan Item : Type) where
  host : ExportHost
  cursor : FjallExportCursor Scan Item
  answers : List (Option (SessionRow Item))

/-- The worker fetches a batch from the snapshot of the session, if it is still there. -/
def Lease.serve (kind : SessionScan Scan Cursor Item) (config : BlockingConfig) (lease : Lease)
    (host : ExportHost) (scan : Scan) : Except SessionError (SessionBatch Scan Item) := do
  let snapshot ← host.views.get host.now lease.id
  fetchSession kind config scan snapshot

/-- What the worker does with a request. -/
def SessionRequest.work (serve : Scan → Except SessionError (SessionBatch Scan Item)) :
    ExportEvent → SessionRequest Scan Item → SessionRequest Scan Item
  | .take, .queued scan => .running scan
  | .finish, .running scan => .answered (.ok (serve scan))
  | .lose error, .queued _ => .answered (.error error)
  | .lose error, .running _ => .answered (.error error)
  | _, request => request

namespace ExportWorld

/-- Poll the cursor. -/
def polled (world : ExportWorld Scan Item) (reservation : Reservation) :
    ExportWorld Scan Item :=
  let (answer, cursor) := world.cursor.pollNext world.host.now reservation
  { world with
    cursor
    answers := match answer with
      | .pending => world.answers
      | .ready row => world.answers ++ [row] }

/-- The worker works on the request of the cursor. -/
def worked (serve : Scan → Except SessionError (SessionBatch Scan Item)) (event : ExportEvent)
    (world : ExportWorld Scan Item) : ExportWorld Scan Item :=
  { world with
    cursor.inner := world.cursor.inner.map fun inner =>
      { inner with pending := inner.pending.map (SessionRequest.work serve event) } }

/-- One event. -/
def step (kind : SessionScan Scan Cursor Item) (config : BlockingConfig) (clockLimit : Nat)
    (lease : Lease) (world : ExportWorld Scan Item) (event : ExportEvent) : ExportWorld Scan Item :=
  match event with
  | .host event => { world with host := world.host.step clockLimit lease event }
  | .poll reservation => world.polled reservation
  | event => world.worked (lease.serve kind config world.host) event

/-- Some events. -/
def run (kind : SessionScan Scan Cursor Item) (config : BlockingConfig) (clockLimit : Nat)
    (lease : Lease) (world : ExportWorld Scan Item)
    (events : List ExportEvent) : ExportWorld Scan Item :=
  events.foldl (step kind config clockLimit lease) world

end ExportWorld

end World

end Mnesis.Fjall
