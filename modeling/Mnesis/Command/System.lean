import Mathlib.Logic.Function.Basic
import Mnesis.Command.Engine
import Mnesis.Foundation.Machine

/-!
# Engines on a shared stream

Any number of engines share one record stream.  Each of them is timed out, told of
store failures or abandoned at any suspension, and may be resumed from what it left.
An append that was issued stays in flight until the store acts on it: it takes
effect exactly when the stream ends at its base.  A load delivers the stream as it
was at some moment since the load began.

The notes of an engine record what happened during its current call; no engine
reads them.
-/

namespace Mnesis.Command

open Foundation Kernel Store

variable {P : Processor}

/-- What the store has done with an issued append. -/
inductive Fate
  | inFlight
  | landed
  | refused
  deriving DecidableEq

/-- An append that an engine has issued. -/
structure Attempt (P : Processor) where
  records : List P.Record
  base : Option Version
  batch : PendingBatch
  fate : Fate
  deriving DecidableEq

/-- What happened during the current call of an engine. -/
structure Notes (P : Processor) where
  /-- The request held when the call started. -/
  heldAtStart : Option P.Request
  /-- The length of the stream when the current load began. -/
  since : Nat
  /-- The histories that the call has loaded, latest last. -/
  loads : List (List PendingEnvelope)
  /-- An append of the call was answered with a conflict. -/
  conflicted : Bool
  /-- A load of the call failed or timed out after such an answer. -/
  reloadFailed : Bool

/-- The notes of a call that starts now. -/
def Notes.start (held : Option P.Request) : Notes P where
  heldAtStart := held
  since := 0
  loads := []
  conflicted := false
  reloadFailed := false

/-- Note a load that delivered no history. -/
def Notes.loadFailed (notes : Notes P) : Notes P :=
  { notes with reloadFailed := notes.reloadFailed || notes.conflicted }

/-- Note a loaded history. -/
def Notes.loaded (notes : Notes P) (rows : List PendingEnvelope) : Notes P :=
  { notes with loads := notes.loads ++ [rows] }

/-- The part of the system that concerns one engine: the stream, the appends it
has issued and its notes. -/
structure View (P : Processor) where
  history : List PendingEnvelope
  attempts : List (Attempt P)
  notes : Notes P

/-- A store call is sent out. -/
def issue : StoreCall P.Record → View P → View P
  | .readStream, view =>
    { view with notes := { view.notes with since := view.history.length } }
  | .append records base batch, view =>
    { view with attempts := view.attempts ++ [⟨records, base, batch, .inFlight⟩] }

/-- The answers a store call may receive, with the view after the answer.

A load that succeeds delivers the stream of some moment since it began; one
that fails has delivered some of its rows.  An append is confirmed once it has
landed and denied once it was refused; a failure or an elapsed deadline says
nothing about it. -/
inductive Answers :
    (call : StoreCall P.Record) →
    View P → call.Answer P.AdapterError → View P → Prop
  | loadElapsed : Answers .readStream view none { view with notes := view.notes.loadFailed }
  | loadFailed (rows : List PendingEnvelope) (error : P.AdapterError)
      (partly : rows <+: view.history) :
      Answers .readStream view (some ⟨rows, some error⟩)
        { view with notes := view.notes.loadFailed }
  | loaded (rows : List PendingEnvelope) (moment : rows <+: view.history)
      (recent : view.notes.since ≤ rows.length) :
      Answers .readStream view (some ⟨rows, none⟩) { view with notes := view.notes.loaded rows }
  | appendElapsed : Answers (.append records base batch) view none view
  | appendFailed (error : P.AdapterError) :
      Answers (.append records base batch) view (some (.error (.store error))) view
  | appended (latest : view.attempts.getLast? = some ⟨records, base, batch, .landed⟩) :
      Answers (.append records base batch) view (some (.ok ())) view
  | conflict {view : View P} {records : List P.Record} {base : Option Version}
      {batch : PendingBatch} (streamId : Bytes) (expected actual : Option Version)
      (latest : view.attempts.getLast? = some ⟨records, base, batch, .refused⟩) :
      Answers (.append records base batch) view
        (some (.error (.conflict streamId expected actual)))
        { view with notes := { view.notes with conflicted := true } }

/-- Where an engine stopped within a call. -/
abbrev CallPause (P : Processor) :=
  Pause (Option P.Request) (StoreCall P.Record) (StoreCall.Answer P.AdapterError) (Reply P)

/-- What an engine is doing. -/
inductive Control (P : Processor)
  | idle (held : Option P.Request)
  | serving (call : Call P) (held : Option P.Request) (pause : CallPause P)
  | ended (shutdown : Shutdown P)

/-- The request held as unresolved, by the engine or in its shutdown report. -/
def Control.held : Control P → Option P.Request
  | .idle held => held
  | .serving _ held _ => held
  | .ended shutdown => shutdown.uncertain

/-- One engine of the system. -/
structure Seat (P : Processor) where
  control : Control P
  attempts : List (Attempt P)
  notes : Notes P

/-- A stream and the engines that share it. -/
structure System (P : Processor) (E : Type) where
  history : List PendingEnvelope
  engines : E → Seat P

/-- What can be observed of a step. -/
inductive Label (P : Processor) (E : Type)
  | call (engine : E) (call : Call P)
  | answer
      (engine : E)
      (call : StoreCall P.Record)
      (answer : call.Answer P.AdapterError)
  | reply (engine : E) (call : Call P) (reply : Reply P)
  | land (engine : E) (index : Nat)
  | stop (engine : E)
  | resume (engine : E)

namespace System

variable {E : Type} [DecidableEq E]

/-- An empty stream and engines without history. -/
def initial (P : Processor) (E : Type) : System P E where
  history := []
  engines _ := ⟨.idle none, [], .start none⟩

/-- The view of one engine. -/
def view (system : System P E) (engine : E) : View P where
  history := system.history
  attempts := (system.engines engine).attempts
  notes := (system.engines engine).notes

/-- Replace what concerns one engine; the stream stays as it is. -/
def place (system : System P E) (engine : E) (control : Control P) (view : View P) : System P E :=
  { system with
    engines := Function.update system.engines engine ⟨control, view.attempts, view.notes⟩ }

/-- Let an engine run to its next suspension. -/
def proceed (system : System P E) (engine : E) (call : Call P) (held : Option P.Request)
    (code : Operation P (Reply P)) (view : View P) : System P E :=
  let (held, pause) := code.advance held
  system.place engine (.serving call held pause) (pause.enter issue view)

/-- The store acts on an append in flight. -/
def settleAttempt (system : System P E) (engine : E) (index : Nat)
    (attempt : Attempt P) : System P E :=
  let seat := system.engines engine
  let decide (fate : Fate) : E → Seat P :=
    Function.update system.engines engine
      { seat with attempts := seat.attempts.set index { attempt with fate } }
  if depth attempt.base = system.history.length then
    { history := system.history ++ attempt.batch.toList
      engines := decide .landed }
  else
    { system with engines := decide .refused }

end System

variable {E : Type} [DecidableEq E]

/-- The steps of the system.  `stream` is the identity of the shared stream. -/
inductive Step (stream : Bytes) : System P E → Label P E → System P E → Prop
  | call {system : System P E} {engine : E} {held : Option P.Request} (call : Call P)
      (idle : (system.engines engine).control = .idle held) :
      Step stream system (.call engine call)
        (system.proceed engine call held call.serve
          { system.view engine with notes := .start held })
  | answer {system : System P E} {engine : E} {call : Call P} {held : Option P.Request}
      {storeCall : StoreCall P.Record}
      {next : storeCall.Answer P.AdapterError → Operation P (Reply P)}
      {answer : storeCall.Answer P.AdapterError} {delivered : View P}
      (waiting : (system.engines engine).control = .serving call held (.waiting storeCall next))
      (answers : Answers storeCall (system.view engine) answer delivered) :
      Step stream system (.answer engine storeCall answer)
        (system.proceed engine call held (next answer) delivered)
  | reply {system : System P E} {engine : E} {call : Call P} {held : Option P.Request}
      {reply : Reply P}
      (finished : (system.engines engine).control = .serving call held (.finished reply)) :
      Step stream system (.reply engine call reply)
        (system.place engine (.idle held) (system.view engine))
  | land {system : System P E} {engine : E} {index : Nat} {attempt : Attempt P}
      (issued : (system.engines engine).attempts[index]? = some attempt)
      (inFlight : attempt.fate = .inFlight) :
      Step stream system (.land engine index) (system.settleAttempt engine index attempt)
  | abort
      (waiting : (system.engines engine).control = .serving call held (.waiting storeCall next)) :
      Step stream system (.stop engine)
        (system.place engine (.ended ⟨stream, held⟩) (system.view engine))
  | stop (idle : (system.engines engine).control = .idle held) :
      Step stream system (.stop engine)
        (system.place engine (.ended ⟨stream, held⟩) (system.view engine))
  | resume {system : System P E} {engine : E} {shutdown : Shutdown P} {held : Option P.Request}
      (id : Bytes) (limits : Limits) (runtime : Bool)
      (ended : (system.engines engine).control = .ended shutdown)
      (resumed : resume id limits runtime shutdown = .ok held) :
      Step stream system (.resume engine) (system.place engine (.idle held) (system.view engine))

/-- States reached from the empty stream. -/
def Reachable (stream : Bytes) (trace : List (Label P E)) (system : System P E) :
    Prop :=
  Run (Step stream) (System.initial P E) trace system

end Mnesis.Command
