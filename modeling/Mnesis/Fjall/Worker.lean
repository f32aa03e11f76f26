import Mnesis.Fjall.Partition
import Mnesis.Foundation.Batches

/-!
# The worker, and streams over its cursors

The storage is used by one worker thread.  A caller reserves a place in the queue
of the worker, submits a job to it and waits for the answer.  The worker receives jobs
from two queues, one for the jobs of callers and one for cleanups.  It asks one of them
first, and behind an entry of a queue the other one.  A timer interrupts its wait so
that it can drop what has expired.  It stops when both queues are closed and empty.

A stream sends its cursor to the worker, which fetches a batch of rows and sends the
cursor back with them.  A cursor that is no longer needed is handed to the cleanup
queue, so that the worker destroys it.
-/

namespace Mnesis.Fjall

open Foundation Kernel

/-- Why a queue takes nothing at once. -/
inductive TrySendError
  | full
  | closed
  deriving DecidableEq

/-- Failures of the store: those of the storage, and those of its worker. -/
inductive StoreError
  | storage (error : FjallError)
  | scanCapacity (error : TrySendError)
  | workerQueueClosed
  | workerResponseCanceled
  | workerPanicked (message : String)
  | exportSessionIdOverflow
  deriving DecidableEq

/-- How many rows and bytes a scan job fetches. -/
structure BlockingConfig where
  scanBatchRows : Nat
  scanBatchBytes : Nat
  scanBatchRows_pos : 0 < scanBatchRows
  scanBatchBytes_pos : 0 < scanBatchBytes

/-- Batches of one row. -/
def BlockingConfig.single : BlockingConfig where
  scanBatchRows := 1
  scanBatchBytes := 1
  scanBatchRows_pos := Nat.one_pos
  scanBatchBytes_pos := Nat.one_pos

/-- The limits of a batch.  Its size is a machine word. -/
def BlockingConfig.limits {Error : Type} (config : BlockingConfig) (overflow : Error) :
    BatchLimits Error where
  rows := config.scanBatchRows
  bytes := config.scanBatchBytes
  capacity := usizeLimit
  overflow := overflow
  rows_pos := config.scanBatchRows_pos

/-- What a poll returns. -/
inductive Poll (α : Type)
  | pending
  | ready (value : α)
  deriving DecidableEq

/-- What a caller finds when it asks for a place in the queue. -/
inductive Reservation
  | waiting
  | granted
  | closed
  deriving DecidableEq

/-- Reserve a place for the cleanup of a cursor.  Whether there is one is up to the
worker and the other cursors. -/
def reserveCursor (admission : Except TrySendError Unit) : Except StoreError Unit :=
  admission.mapError .scanCapacity

/-- How far a request has come. -/
inductive Request (Job Result : Type)
  | reserving (job : Job)
  | queued (job : Job)
  | running (job : Job)
  | answered (result : Except StoreError Result)

namespace Request

variable {Job Result : Type}

/-- Poll a request: it has an answer, or it goes on. -/
def poll (reservation : Reservation) :
    Request Job Result → Except StoreError Result ⊕ Request Job Result
  | .reserving job =>
    match reservation with
    | .waiting => .inr (.reserving job)
    | .granted => .inr (.queued job)
    | .closed => .inl (.error .workerQueueClosed)
  | .queued job => .inr (.queued job)
  | .running job => .inr (.running job)
  | .answered result => .inl result

end Request

section

variable {State Caller Answer : Type}

/-- The queues of the worker. -/
inductive Queue
  | jobs
  | cleanup
  deriving DecidableEq

/-- The other queue. -/
def Queue.other : Queue → Queue
  | .jobs => .cleanup
  | .cleanup => .jobs

/-- What a job may do to the state of the worker: a job of a caller returns an answer or
panics, and a cleanup returns nothing. -/
inductive Job (State Caller Answer : Type)
  | submitted (caller : Caller) (operation : State → Except (Option String) Answer × State)
  | cleanup (operation : State → State)

/-- The state of the worker, and the answers that it has sent. -/
structure Memory (State Caller Answer : Type) where
  state : State
  sent : List (Caller × Except StoreError Answer)

/-- The failure that a panic is reported with. -/
def workerPanicked (payload : Option String) : StoreError :=
  .workerPanicked (payload.getD "non-string panic payload")

namespace Job

/-- A job is canceled when its caller has left. -/
def isCanceled [DecidableEq Caller] (left : List Caller) : Job State Caller Answer → Bool
  | .submitted caller _ => caller ∈ left
  | .cleanup _ => false

/-- Run a job to its end. -/
def run : Job State Caller Answer → Memory State Caller Answer → Memory State Caller Answer
  | .submitted caller operation, memory =>
    let (result, state) := operation memory.state
    ⟨state, memory.sent ++ [(caller, result.mapError workerPanicked)]⟩
  | .cleanup operation, memory => { memory with state := operation memory.state }

end Job

/-- The entries of a queue, and whether no more can be sent. -/
structure Channel (State Caller Answer : Type) where
  entries : List (Job State Caller Answer)
  closed : Bool

/-- What a receiver finds. -/
inductive Received (State Caller Answer : Type)
  | pending
  | closed
  | entry (job : Job State Caller Answer) (rest : List (Job State Caller Answer))

/-- Poll the receiver of a queue. -/
def Channel.recv (channel : Channel State Caller Answer) : Received State Caller Answer :=
  match channel.entries with
  | job :: rest => .entry job rest
  | [] => if channel.closed then .closed else .pending

/-- The queues that are still open, and the one that is asked first. -/
inductive OpenQueues
  | both (priority : Queue)
  | only (queue : Queue)
  | closed
  deriving DecidableEq

/-- Where the worker is: at the top of its loop, before it asks the first queue, before it
asks the second one, waiting for both, with a job that it has received, with a job that it
has begun, or stopped. -/
inductive Phase (State Caller Answer : Type)
  | top (queues : OpenQueues)
  | first (queues : OpenQueues)
  | second (priority : Queue)
  | parked (queues : OpenQueues)
  | received (job : Job State Caller Answer) (next : OpenQueues)
  | running (job : Job State Caller Answer) (next : OpenQueues)
  | stopped

/-- What the worker has done: it has dropped what had expired, left out a job whose caller
had left, or run a job. -/
inductive Act (State Caller Answer : Type)
  | expired (now : Nat)
  | skipped (job : Job State Caller Answer)
  | ran (job : Job State Caller Answer)

/-- The worker, its queues, the callers that have left, and a record of the entries that
were admitted and taken and of what was done. -/
structure Worker (State Caller Answer : Type) where
  channels : Queue → Channel State Caller Answer
  phase : Phase State Caller Answer
  memory : Memory State Caller Answer
  left : List Caller
  admitted : Queue → List (Job State Caller Answer)
  taken : List (Queue × Job State Caller Answer)
  acts : List (Act State Caller Answer)

/-- What happens: an entry is sent, a queue is closed, a caller leaves, the timer fires, or
the worker makes its next step at some time. -/
inductive WorkerEvent (State Caller Answer : Type)
  | send (queue : Queue) (job : Job State Caller Answer)
  | close (queue : Queue)
  | leave (caller : Caller)
  | tick
  | work (now : Nat)

namespace Worker

/-- A worker that has just started. -/
def new (state : State) : Worker State Caller Answer where
  channels _ := ⟨[], false⟩
  phase := .top (.both .cleanup)
  memory := ⟨state, []⟩
  left := []
  admitted _ := []
  taken := []
  acts := []

/-- Send an entry.  A closed queue has no senders any more. -/
def send (queue : Queue) (job : Job State Caller Answer) (worker : Worker State Caller Answer) :
    Worker State Caller Answer :=
  if (worker.channels queue).closed then
    worker
  else
    { worker with
      channels := Function.update worker.channels queue
        { worker.channels queue with entries := (worker.channels queue).entries ++ [job] }
      admitted := Function.update worker.admitted queue (worker.admitted queue ++ [job]) }

/-- Close a queue. -/
def close (queue : Queue) (worker : Worker State Caller Answer) : Worker State Caller Answer :=
  { worker with
    channels := Function.update worker.channels queue
      { worker.channels queue with closed := true } }

/-- Ask a queue.  Its entry is received with the queues to go on with; if it is closed the
worker goes on with the others; else the worker goes on as given. -/
def ask (queue : Queue) (next others : OpenQueues) (pending : Phase State Caller Answer)
    (worker : Worker State Caller Answer) : Worker State Caller Answer :=
  match (worker.channels queue).recv with
  | .entry job rest =>
    { worker with
      channels := Function.update worker.channels queue
        { worker.channels queue with entries := rest }
      phase := .received job next
      taken := worker.taken ++ [(queue, job)] }
  | .closed => { worker with phase := .top others }
  | .pending => { worker with phase := pending }

variable [DecidableEq Caller] (expire : Nat → State → State)

/-- The next step of the worker. -/
def work (now : Nat) (worker : Worker State Caller Answer) : Worker State Caller Answer :=
  match worker.phase with
  | .top .closed => { worker with phase := .stopped }
  | .top queues =>
    { worker with
      phase := .first queues
      memory.state := expire now worker.memory.state
      acts := worker.acts ++ [.expired now] }
  | .first (.both priority) =>
    worker.ask priority (.both priority.other) (.only priority.other) (.second priority)
  | .second priority =>
    worker.ask priority.other (.both priority) (.only priority) (.parked (.both priority))
  | .first (.only queue) => worker.ask queue (.only queue) .closed (.parked (.only queue))
  | .first .closed => { worker with phase := .top .closed }
  | .parked queues => { worker with phase := .first queues }
  | .received job next =>
    if job.isCanceled worker.left then
      { worker with phase := .top next, acts := worker.acts ++ [.skipped job] }
    else
      { worker with phase := .running job next }
  | .running job next =>
    { worker with
      phase := .top next
      memory := job.run worker.memory
      acts := worker.acts ++ [.ran job] }
  | .stopped => worker

/-- The timer interrupts a worker that waits. -/
def tick (worker : Worker State Caller Answer) : Worker State Caller Answer :=
  match worker.phase with
  | .parked queues => { worker with phase := .top queues }
  | _ => worker

/-- One event. -/
def step (worker : Worker State Caller Answer) :
    WorkerEvent State Caller Answer → Worker State Caller Answer
  | .send queue job => worker.send queue job
  | .close queue => worker.close queue
  | .leave caller => { worker with left := caller :: worker.left }
  | .tick => worker.tick
  | .work now => worker.work expire now

/-- Some events. -/
def run (worker : Worker State Caller Answer) (events : List (WorkerEvent State Caller Answer)) :
    Worker State Caller Answer :=
  events.foldl (step expire) worker

end Worker

end

variable {Cursor Item : Type}

/-- What a cursor returns when it is asked for its next row. -/
abbrev NextRow (Cursor Item : Type) := Cursor → Option (SizedRow StoreError Item) × Cursor

/-- A request to fetch a batch. -/
abbrev FetchRequest (Cursor Item : Type) := Request Cursor (Batch Cursor StoreError Item)

/-- A cursor goes on behind every item. -/
def cursorRows (nextRow : NextRow Cursor Item) : RowSource Cursor StoreError Item where
  nextRow := nextRow
  advance _ cursor := (true, cursor)

/-- The limits of a batch of a stream. -/
abbrev BlockingConfig.streamLimits (config : BlockingConfig) : BatchLimits StoreError :=
  config.limits (.storage .scanLengthOverflow)

/-- Fetch a batch.  A cursor that has ended or failed is handed to the cleanup queue. -/
def fetch (nextRow : NextRow Cursor Item) (config : BlockingConfig)
    (cursor : Cursor) : Batch Cursor StoreError Item × List Cursor :=
  let filled := (cursorRows nextRow).fill config.streamLimits config.scanBatchRows cursor 0 []
  (filled.batch id, if filled.more then [] else [filled.state])

/-- The cursor that a request has, as a job or in its answer. -/
def Request.cursors : FetchRequest Cursor Item → List Cursor
  | .reserving cursor => [cursor]
  | .queued cursor => [cursor]
  | .running cursor => [cursor]
  | .answered (.ok batch) => batch.scan.toList
  | .answered (.error _) => []

/-- A stream of rows. -/
structure BlockingStream (Cursor Item : Type) where
  cursor : Option Cursor
  executor : Bool
  rows : List (Except StoreError Item)
  pending : Option (FetchRequest Cursor Item)

namespace BlockingStream

/-- A new stream. -/
def new (cursor : Cursor) : BlockingStream Cursor Item where
  cursor := some cursor
  executor := true
  rows := []
  pending := none

/-- The cursor that a stream or its request has. -/
def cursors (stream : BlockingStream Cursor Item) : List Cursor :=
  stream.cursor.toList ++ stream.pending.elim [] Request.cursors

/-- What a poll returns, the stream behind it, and the cursors it has handed to the
cleanup queue. -/
abbrev Polled (Cursor Item : Type) :=
  Poll (Option (Except StoreError Item)) × BlockingStream Cursor Item × List Cursor

/-- Take the first row at hand.  Without a cursor the executor is not needed any more. -/
def popFront (stream : BlockingStream Cursor Item) (released : List Cursor) :
    Polled Cursor Item :=
  let executor := stream.executor && stream.cursor.isSome
  (.ready stream.rows.head?, { stream with executor, rows := stream.rows.tail }, released)

/-- Poll the request of a stream. -/
def pollRequest (reservation : Reservation) (request : FetchRequest Cursor Item)
    (stream : BlockingStream Cursor Item) : Polled Cursor Item :=
  match request.poll reservation with
  | .inr request => (.pending, { stream with pending := some request }, [])
  | .inl (.ok batch) =>
    popFront { stream with pending := none, cursor := batch.scan, rows := batch.rows } []
  | .inl (.error error) =>
    popFront
      { stream with pending := none, cursor := none, rows := stream.rows ++ [.error error] }
      (stream.cursor.toList ++ request.cursors)

/-- Ask a stream for its next row. -/
def pollNext (reservation : Reservation) (stream : BlockingStream Cursor Item) :
    Polled Cursor Item :=
  match stream.rows with
  | row :: rows => (.ready (some row), { stream with rows }, [])
  | [] =>
    match stream.pending with
    | some request => stream.pollRequest reservation request
    | none =>
      match stream.cursor with
      | none => (.ready none, stream, [])
      | some cursor =>
        if stream.executor then
          { stream with cursor := none }.pollRequest reservation (.reserving cursor)
        else
          (.ready none, { stream with cursor := none }, [cursor])

end BlockingStream

/-- A stream until it is dropped, the request that it has left behind then, the
cursors in the cleanup queue, and the answers that the stream has given. -/
structure StreamWorld (Cursor Item : Type) where
  stream : Option (BlockingStream Cursor Item)
  orphan : Option (FetchRequest Cursor Item)
  cleanup : List Cursor
  answers : List (Option (Except StoreError Item))

/-- What happens to a stream: it is polled or dropped, and the worker takes its job,
finishes it or loses it. -/
inductive StreamEvent
  | poll (reservation : Reservation)
  | take
  | finish
  | lose (error : StoreError)
  | drop
  deriving DecidableEq

/-- The worker stays reachable. -/
def StreamEvent.Reaches : StreamEvent → Prop
  | .poll reservation => reservation ≠ .closed
  | .lose _ => False
  | _ => True

instance : DecidablePred StreamEvent.Reaches
  | .poll reservation => inferInstanceAs (Decidable (reservation ≠ .closed))
  | .take => .isTrue trivial
  | .finish => .isTrue trivial
  | .lose _ => .isFalse id
  | .drop => .isTrue trivial

/-- A request that the worker has, with the cursors that the worker hands to the cleanup
queue when it takes the job, finishes it or loses it.  A job whose caller has left is not
begun, and its result is dropped. -/
def Request.work (nextRow : NextRow Cursor Item) (config : BlockingConfig) (canceled : Bool)
    (event : StreamEvent)
    (request : FetchRequest Cursor Item) : Option (FetchRequest Cursor Item) × List Cursor :=
  match event, request with
  | .take, .queued cursor => if canceled then (none, [cursor]) else (some (.running cursor), [])
  | .finish, .running cursor =>
    let (batch, released) := fetch nextRow config cursor
    if canceled then (none, batch.scan.toList ++ released)
    else (some (.answered (.ok batch)), released)
  | .lose error, .queued cursor =>
    (if canceled then none else some (.answered (.error error)), [cursor])
  | .lose error, .running cursor =>
    (if canceled then none else some (.answered (.error error)), [cursor])
  | _, request => (some request, [])

/-- What is left at the worker of a request whose caller leaves, and the cursors that the
caller itself hands to the cleanup queue. -/
def Request.abandon :
    FetchRequest Cursor Item → Option (FetchRequest Cursor Item) × List Cursor
  | .queued cursor => (some (.queued cursor), [])
  | .running cursor => (some (.running cursor), [])
  | request => (none, request.cursors)

namespace BlockingStream

/-- The worker works on the request of a stream. -/
def worked (nextRow : NextRow Cursor Item) (config : BlockingConfig) (event : StreamEvent)
    (stream : BlockingStream Cursor Item) : BlockingStream Cursor Item × List Cursor :=
  let (pending, released) :=
    stream.pending.elim (none, []) (Request.work nextRow config false event)
  ({ stream with pending }, released)

/-- What is left of the request of a stream that is dropped. -/
def abandoned (stream : BlockingStream Cursor Item) :
    Option (FetchRequest Cursor Item) × List Cursor :=
  stream.pending.elim (none, []) Request.abandon

end BlockingStream

namespace StreamWorld

/-- A stream that nothing has happened to yet. -/
def new (cursor : Cursor) : StreamWorld Cursor Item where
  stream := some (.new cursor)
  orphan := none
  cleanup := []
  answers := []

/-- Drop the stream. -/
def dropped (world : StreamWorld Cursor Item) (stream : BlockingStream Cursor Item) :
    StreamWorld Cursor Item :=
  { world with
    stream := none
    orphan := stream.abandoned.1
    cleanup := world.cleanup ++ stream.cursor.toList ++ stream.abandoned.2 }

/-- Poll the stream. -/
def polled (world : StreamWorld Cursor Item) (reservation : Reservation)
    (stream : BlockingStream Cursor Item) : StreamWorld Cursor Item :=
  let (answer, stream, released) := stream.pollNext reservation
  { world with
    stream := some stream
    cleanup := world.cleanup ++ released
    answers := match answer with
      | .pending => world.answers
      | .ready row => world.answers ++ [row] }

/-- The worker works on the request of the stream, or on the one it has left behind. -/
def worked (nextRow : NextRow Cursor Item) (config : BlockingConfig) (event : StreamEvent)
    (world : StreamWorld Cursor Item) : StreamWorld Cursor Item :=
  match world.stream with
  | some stream =>
    let (stream, released) := stream.worked nextRow config event
    { world with stream := some stream, cleanup := world.cleanup ++ released }
  | none =>
    let (orphan, released) := world.orphan.elim (none, []) (Request.work nextRow config true event)
    { world with orphan, cleanup := world.cleanup ++ released }

/-- One event.  A stream that was dropped is not polled any more. -/
def step (nextRow : NextRow Cursor Item) (config : BlockingConfig) (world : StreamWorld Cursor Item)
    (event : StreamEvent) : StreamWorld Cursor Item :=
  match event with
  | .poll reservation => world.stream.elim world (world.polled reservation)
  | .drop => world.stream.elim world world.dropped
  | event => world.worked nextRow config event

/-- Some events. -/
def run (nextRow : NextRow Cursor Item) (config : BlockingConfig) (world : StreamWorld Cursor Item)
    (events : List StreamEvent) : StreamWorld Cursor Item :=
  events.foldl (step nextRow config) world

/-- The cursor, while it is not in the cleanup queue. -/
def held (world : StreamWorld Cursor Item) : List Cursor :=
  world.stream.elim [] BlockingStream.cursors ++ world.orphan.elim [] Request.cursors

end StreamWorld

end Mnesis.Fjall
