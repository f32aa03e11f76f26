import Mnesis.Command.System

/-!
# Scripted runs

An executable reading of the step relation: a script says which engine does what
next, and what the store answers.  Every script that can be played is a run of
the system.
-/

namespace Mnesis.Command

open Foundation Kernel Store

variable {E : Type} [DecidableEq E]

/-- What the store does with the call that an engine waits for. -/
inductive Delivery (P : Processor)
  | load (count : Nat)
  | failLoad (count : Nat) (error : P.AdapterError)
  | confirm
  | deny (streamId : Bytes) (expected actual : Option Version)
  | failAppend (error : P.AdapterError)
  | elapse

/-- What happens next at an engine. -/
inductive Event (P : Processor)
  | call (call : Call P)
  | deliver (delivery : Delivery P)
  | reply
  | land (index : Nat)
  | stop
  | resume (id : Bytes) (limits : Limits) (runtime : Bool)

/-- The scripted answer to a store call, if the store may give it. -/
def Delivery.answer (delivery : Delivery P) :
    (call : StoreCall P.Record) → View P → Option (call.Answer P.AdapterError × View P)
  | .readStream, view =>
    match delivery with
    | .load count =>
      if view.notes.since ≤ (view.history.take count).length then
        some (some ⟨view.history.take count, none⟩,
          { view with notes := view.notes.loaded (view.history.take count) })
      else
        none
    | .failLoad count error =>
      some (some ⟨view.history.take count, some error⟩,
        { view with notes := view.notes.loadFailed })
    | .elapse => some (none, { view with notes := view.notes.loadFailed })
    | _ => none
  | .append records base batch, view =>
    match delivery with
    | .confirm =>
      if view.attempts.getLast? = some ⟨records, base, batch, .landed⟩ then
        some (some (.ok ()), view)
      else
        none
    | .deny streamId expected actual =>
      if view.attempts.getLast? = some ⟨records, base, batch, .refused⟩ then
        some (some (.error (.conflict streamId expected actual)),
          { view with notes := { view.notes with conflicted := true } })
      else
        none
    | .failAppend error => some (some (.error (.store error)), view)
    | .elapse => some (none, view)
    | _ => none

theorem answers_of_delivery {delivery : Delivery P}
    (given : delivery.answer call view = some (answer, delivered)) :
    Answers call view answer delivered := by
  cases call with
  | readStream =>
    cases delivery with
    | load count =>
      simp only [Delivery.answer] at given
      split at given
      next recent =>
        cases given
        exact .loaded _ (List.take_prefix _ _) recent
      next => cases given
    | failLoad count error =>
      cases given
      exact .loadFailed _ _ (List.take_prefix _ _)
    | elapse =>
      cases given
      exact .loadElapsed
    | confirm | deny _ _ _ | failAppend _ => cases given
  | append records base batch =>
    cases delivery with
    | confirm =>
      simp only [Delivery.answer] at given
      split at given
      next landed =>
        cases given
        exact .appended landed
      next => cases given
    | deny streamId expected actual =>
      simp only [Delivery.answer] at given
      split at given
      next refused =>
        cases given
        exact .conflict _ _ _ refused
      next => cases given
    | failAppend error =>
      cases given
      exact .appendFailed error
    | elapse =>
      cases given
      exact .appendElapsed
    | load _ | failLoad _ _ => cases given

/-- Play one event. -/
def System.play (stream : Bytes) (system : System P E) (engine : E)
    (event : Event P) : Option (Label P E × System P E) :=
  match event, (system.engines engine).control with
  | .call call, .idle held =>
    some (.call engine call,
      system.proceed engine call held call.serve { system.view engine with notes := .start held })
  | .deliver delivery, .serving call held (.waiting storeCall next) =>
    (delivery.answer storeCall (system.view engine)).map fun (answer, delivered) =>
      (.answer engine storeCall answer, system.proceed engine call held (next answer) delivered)
  | .reply, .serving call held (.finished reply) =>
    some (.reply engine call reply, system.place engine (.idle held) (system.view engine))
  | .land index, _ =>
    match (system.engines engine).attempts[index]? with
    | some attempt =>
      if attempt.fate = .inFlight then
        some (.land engine index, system.settleAttempt engine index attempt)
      else
        none
    | none => none
  | .stop, .idle held =>
    some (.stop engine, system.place engine (.ended ⟨stream, held⟩) (system.view engine))
  | .stop, .serving _ held (.waiting _ _) =>
    some (.stop engine, system.place engine (.ended ⟨stream, held⟩) (system.view engine))
  | .resume id limits runtime, .ended shutdown =>
    match Command.resume id limits runtime shutdown with
    | .ok held =>
      some (.resume engine, system.place engine (.idle held) (system.view engine))
    | .error _ => none
  | _, _ => none

/-- Play a script from a state; every step has to pass a check. -/
def System.playAll (stream : Bytes) (check : System P E → Label P E → Bool) :
    List (E × Event P) → System P E → Option (List (Label P E) × System P E)
  | [], system => some ([], system)
  | (engine, event) :: rest, system => do
    let (label, next) ← system.play stream engine event
    if check system label then
      let (labels, last) ← next.playAll stream check rest
      return (label :: labels, last)
    else
      none

/-- Every move of a script is a step. -/
theorem step_of_play
    {label : Label P E} (played : system.play stream engine event = some (label, after)) :
    Step stream system label after := by
  unfold System.play at played
  split at played
  next call held idle =>
    cases played
    exact .call call idle
  next delivery call held storeCall next waiting =>
    obtain ⟨⟨answer, delivered⟩, given, same⟩ := Option.map_eq_some_iff.mp played
    cases same
    exact .answer waiting (answers_of_delivery given)
  next call held reply finished =>
    cases played
    exact .reply finished
  next index _ =>
    split at played
    next attempt issued =>
      split at played
      next inFlight =>
        cases played
        exact .land issued inFlight
      next => cases played
    next => cases played
  next held idle =>
    cases played
    exact .stop idle
  next call held storeCall next waiting =>
    cases played
    exact .abort waiting
  next id limits runtime shutdown ended =>
    split at played
    next held resumed =>
      cases played
      exact .resume id limits runtime ended resumed
    next => cases played
  next => cases played

theorem run_of_playAll {trace : List (Label P E)}
    (played : system.playAll stream check script = some (trace, last)) :
    Run (fun before label after =>
      Step stream before label after ∧ check before label = true) system trace last := by
  induction script generalizing system trace with
  | nil =>
    cases played
    exact .refl
  | cons event rest continued =>
    simp only [System.playAll, Option.bind_eq_bind, Option.bind_eq_some_iff] at played
    obtain ⟨⟨label, next⟩, first, remaining⟩ := played
    split at remaining
    next passed =>
      obtain ⟨⟨labels, final⟩, playedRest, same⟩ := Option.bind_eq_some_iff.mp remaining
      cases same
      exact (Run.single ⟨step_of_play first, passed⟩).trans (continued playedRest)
    next => cases remaining

theorem reachable_of_playAll {trace : List (Label P E)}
    (played : (System.initial P E).playAll stream check script = some (trace, last)) :
    Reachable stream trace last :=
  (run_of_playAll played).mono And.left

/-! ## A counting application

Commands count upwards.  Identities and small numbers are stored as single
bytes, so a stream with larger ones is refused as lossy. -/

/-- Records as seven bytes. -/
def tallyRecordJson : Json (Record Unit UInt8 Unit) Unit where
  toWriter record :=
    ([record.schema, record.request.id,
      (rawHead record.request.expected).toUInt8,
      record.receipt.id, record.receipt.version.asU64.toUInt8,
      UInt8.ofNat record.receipt.events, UInt8.ofNat record.facts.length], none)
  fromSlice
    | [schema, id, expected, receiptId, version, events, facts] => do
      let version ← okOr (Version.new version.toUInt64) ()
      return {
        schema
        request := { id, expected := Version.new expected.toUInt64, command := () }
        receipt := { id := receiptId, version, events := events.toNat }
        facts := List.replicate facts.toNat () }
    | _ => throw ()

/-- Requests as two bytes. -/
def tallyRequestJson : Json (Request Unit UInt8) Unit where
  toWriter request := ([request.id, (rawHead request.expected).toUInt8], none)
  fromSlice
    | [id, expected] =>
      return { id, expected := Version.new expected.toUInt64, command := () }
    | _ => throw ()

/-- A counter whose only command adds one. -/
def tally : Processor where
  domain := {
    State := Nat
    Event := Unit
    Error := Empty
    initial := 0
    apply := fun count _ => count + 1
    maxRehydrationEvents := 10
    maxRehydrationEvents_pos := by decide
    maxRehydrationEvents_lt := by decide }
  C := Unit
  I := UInt8
  AdapterError := Unit
  JsonError := Unit
  N := 0
  handle _ _ := .ok (some (.new ()))
  requestJson := tallyRequestJson
  recordJson := tallyRecordJson
  writeZero := ()
  commandEq := inferInstance
  idEq := inferInstance
  factEq := inferInstance

/-- The first request of a tally. -/
def firstCount : tally.Request :=
  { id := (7 : UInt8), expected := none, command := () }

/-- A rival of the first request. -/
def rivalCount : tally.Request :=
  { id := (9 : UInt8), expected := none, command := () }

/-- Play a script of two engines on an empty tally. -/
def playTally (script : List (Bool × Event tally)) :
    Option (List (Label tally Bool) × System tally Bool) :=
  (System.initial tally Bool).playAll [] (fun _ _ => true) script

theorem reachable_of_playTally (played : playTally script = some (trace, last)) :
    Reachable [] trace last :=
  reachable_of_playAll played

/-- An engine submits a request that is written and confirmed. -/
def acceptingScript (engine : Bool) (request : tally.Request) :
    List (Bool × Event tally) :=
  [(engine, .call (.submit request)), (engine, .deliver (.load 0)),
    (engine, .land 0), (engine, .deliver .confirm), (engine, .reply)]

/-- An engine submits a request and never learns what became of its append. -/
def uncertainScript (engine : Bool) (request : tally.Request) :
    List (Bool × Event tally) :=
  [(engine, .call (.submit request)), (engine, .deliver (.load 0)),
    (engine, .deliver .elapse), (engine, .reply)]

end Mnesis.Command
