import Mathlib.Data.List.AList
import Mnesis.Store.Repository

/-!
# Requests, acceptance records and the command engine

A command processor accepts a request by storing one record: the request, its
receipt and the facts decided for it.  The records of a stream are themselves
the events of an aggregate, `Adapted`.

The engine serves one call at a time.  Its only state is the request it holds
as unresolved: one whose append was issued and whose outcome is unknown.  A call
can be timed out or abandoned at each load and at each append.
-/

namespace Mnesis.Command

open Foundation Kernel Store

/-- Retry identity, expected stream position and domain command. -/
structure Request (C I : Type) where
  id : I
  expected : Option Version
  command : C
  deriving DecidableEq

/-- Acceptance of a request: the version of its record and its fact count. -/
structure Receipt (I : Type) where
  id : I
  version : Version
  events : Nat
  deriving DecidableEq

/-- The stored form of an acceptance. -/
structure Record (C I Fact : Type) where
  schema : UInt8
  request : Request C I
  receipt : Receipt I
  facts : List Fact
  deriving DecidableEq

/-- The JSON library at one type: what serialization writes, with the failure
that stopped it if there was one, and what a byte string parses to. -/
structure Json (Value JsonError : Type) where
  toWriter : Value → Bytes × Option JsonError
  fromSlice : Bytes → Except JsonError Value

/-- Encoding, decoding or acceptance validation failure. -/
inductive CodecError (JsonError : Type)
  | bytes (source : Option JsonError)
  | json (error : JsonError)
  | lossy
  | envelope
  | acceptance

/-- An application together with the libraries its processor runs on: commands
`C`, request identities `I`, and decisions of at most `N` additional facts. -/
structure Processor where
  domain : Aggregate
  C : Type
  I : Type
  AdapterError : Type
  JsonError : Type
  N : Nat
  handle : domain.State → C → Except domain.Error (Option (Events domain.Event N))
  requestJson : Json (Request C I) JsonError
  recordJson : Json (Record C I domain.Event) JsonError
  writeZero : JsonError
  [commandEq : DecidableEq C]
  [idEq : DecidableEq I]
  [factEq : DecidableEq domain.Event]

attribute [instance] Processor.commandEq Processor.idEq Processor.factEq

namespace Processor

/-- Requests of a processor. -/
abbrev Request (P : Processor) := Command.Request P.C P.I

/-- Receipts of a processor. -/
abbrev Receipt (P : Processor) := Command.Receipt P.I

/-- Acceptance records of a processor. -/
abbrev Record (P : Processor) := Command.Record P.C P.I P.domain.Event

/-- Codec failures of a processor. -/
abbrev CodecError (P : Processor) := Command.CodecError P.JsonError

/-- Repository failures of a processor. -/
abbrev StoreError (P : Processor) :=
  Store.StoreError P.AdapterError P.CodecError P.CodecError

end Processor

variable {P : Processor}

/-- Largest number of accepted records of a stream. -/
def maxAccepted : Nat := 4096

/-- Largest encoded request or record. -/
def maxBytes : Nat := 4096

/-- Event type of every acceptance record. -/
def eventType : EventType :=
  .fromStaticStr "controller.accepted.v2" (by decide +kernel)

/-- Serialize into a buffer of `maxBytes`. -/
def bounded {Value JsonError : Type} (json : Json Value JsonError) (writeZero : JsonError)
    (value : Value) : Except (CodecError JsonError) Bytes :=
  match json.toWriter value with
  | (written, failure) =>
    -- The writer refuses the first byte past the buffer, before any later
    -- failure of the serializer.
    if written.length > maxBytes then
      .error (.bytes (some writeZero))
    else
      match failure with
      | some error => .error (.json error)
      | none => .ok written

/-- Encode a request. -/
def Request.encode (request : P.Request) : Except P.CodecError Bytes :=
  bounded P.requestJson P.writeZero request

/-- Decode a request of bounded size. -/
def Request.decode (bytes : Bytes) : Except P.CodecError P.Request :=
  if bytes.length > maxBytes then
    .error (.bytes none)
  else
    (P.requestJson.fromSlice bytes).mapError .json

/-- A request is valid when its encoding reproduces it. -/
def Request.validate (request : P.Request) : Except P.CodecError Unit := do
  let encoded ← Request.encode request
  let decoded ← Request.decode encoded
  rejectIf (decoded ≠ request) .lossy

/-- Encode a record whose encoding reproduces it. -/
def encode (record : P.Record) : Except P.CodecError Bytes := do
  let bytes ← bounded P.recordJson P.writeZero record
  let decoded ← (P.recordJson.fromSlice bytes).mapError .json
  rejectIf (decoded ≠ record) .lossy
  return bytes

/-- Decode a stored record and check its metadata against its envelope. -/
def decode (envelope : PendingEnvelope) : Except P.CodecError P.Record := do
  rejectIf (envelope.payload.asSlice.length > maxBytes) (.bytes none)
  rejectIf (envelope.schemaVersion.get ≠ 1 ∨ envelope.eventType ≠ eventType) .envelope
  let record ← (P.recordJson.fromSlice envelope.payload.asSlice).mapError .json
  let next := following record.request.expected
  rejectIf
    (record.schema ≠ 2 ∨
      record.receipt.version ≠ envelope.version ∨
      some record.receipt.version ≠ next ∨
      record.receipt.id ≠ record.request.id ∨
      record.receipt.events ≠ record.facts.length)
    .acceptance
  return record

/-- The metadata rules of a record stored at a version. -/
structure Record.Coherent (record : P.Record) (version : Version) : Prop where
  schema : record.schema = 2
  version : record.receipt.version = version
  follows : following record.request.expected = some record.receipt.version
  identity : record.receipt.id = record.request.id
  count : record.receipt.events = record.facts.length

theorem length_le_of_bounded (written : bounded json writeZero value = .ok bytes) :
    bytes.length ≤ maxBytes := by
  unfold bounded at written
  split at written
  split at written
  next => cases written
  next fits =>
    split at written
    next => cases written
    next =>
      cases written
      omega

theorem parse_of_encode (encoded : encode record = .ok bytes) :
    bytes.length ≤ maxBytes ∧ P.recordJson.fromSlice bytes = .ok record := by
  simp only [encode, bind_eq_ok, mapError_eq_ok, rejectIf_eq_ok, ne_eq,
    Decidable.not_not, pure_eq_ok, Except.ok.injEq] at encoded
  obtain ⟨_, written, decoded, parsed, _, rfl, rfl⟩ := encoded
  exact ⟨length_le_of_bounded written, parsed⟩

theorem decode_of_parse
    (fits : envelope.payload.asSlice.length ≤ maxBytes) (schema : envelope.schemaVersion = .initial)
    (type : envelope.eventType = eventType)
    (parsed : P.recordJson.fromSlice envelope.payload.asSlice = .ok record)
    (coherent : record.Coherent envelope.version) :
    decode envelope = .ok record := by
  have notLong : ¬ envelope.payload.asSlice.length > maxBytes := by omega
  simp [decode, notLong, schema, type, parsed, SchemaVersion.initial,
    coherent.schema, coherent.version, coherent.follows, coherent.identity,
    coherent.count]

theorem coherent_of_decode (decoded : decode envelope = .ok record) :
    record.Coherent envelope.version := by
  simp only [decode, bind_eq_ok, mapError_eq_ok, rejectIf_eq_ok, ne_eq, not_or,
    Decidable.not_not, pure_eq_ok, Except.ok.injEq] at decoded
  obtain ⟨_, _, _, _, parsed, _, _, ⟨schema, version, follows, identity, count⟩, rfl⟩ := decoded
  exact ⟨schema, version, follows.symm, identity, count⟩

/-- The codec of a processor's repository. -/
def codec (P : Processor) : EventCodec P.Record P.CodecError P.CodecError where
  name _ := eventType
  encode := encode
  decode := decode

/-- A request whose identity belongs to different content. -/
inductive Mismatch
  | mismatch

/-- Replay state of a stream of acceptance records.  `integrity` is cleared by
the first record that breaks a rule across records. -/
structure State (P : Processor) where
  domain : P.domain.State
  receipts : AList (fun _ : P.I => P.Request × P.Receipt)
  facts : Nat
  integrity : Bool

namespace State

/-- The state of an empty stream. -/
def initial (P : Processor) : State P where
  domain := P.domain.initial
  receipts := ∅
  facts := 0
  integrity := true

/-- The receipt of a request, if it was accepted. -/
def receipt (state : State P) (request : P.Request) : Except Mismatch (Option P.Receipt) :=
  match state.receipts.lookup request.id with
  | some (original, receipt) =>
    if original = request then .ok (some receipt) else .error .mismatch
  | none => .ok none

/-- The accepted request of an identity. -/
def original (state : State P) (id : P.I) : Option P.Request :=
  (state.receipts.lookup id).map Prod.fst

/-- The fact count after a decision, unless it exceeds a limit. -/
def total (state : State P) (count : Nat) : Option Nat :=
  if 1 ≤ count ∧ count - 1 > P.N then
    none
  else if state.facts + count < usizeLimit ∧
      state.facts + count ≤ P.domain.maxRehydrationEvents then
    some (state.facts + count)
  else
    none

theorem le_of_total_eq_some {state : State P} {total : Nat}
    (within : state.total count = some total) :
    state.facts + count ≤ P.domain.maxRehydrationEvents := by
  unfold State.total at within
  split at within
  next => cases within
  next =>
    split at within
    next fits => exact fits.2
    next => cases within

/-- Fold one acceptance record. -/
def apply (state : State P) (record : P.Record) : State P :=
  if state.integrity = false ∨ record.request.id ∈ state.receipts then
    { state with integrity := false }
  else
    match state.total record.facts.length with
    | none => { state with integrity := false }
    | some total =>
      { state with
        domain := record.facts.foldl P.domain.apply state.domain
        facts := total
        receipts := state.receipts.insert record.request.id (record.request, record.receipt) }

end State

/-- Why a request is not accepted. -/
inductive DecisionError (DomainError : Type)
  | rejected (error : DomainError)
  | historyFull
  | replayLimit (maximum : Nat)

/-- The aggregate whose events are acceptance records. -/
abbrev Adapted (P : Processor) : Aggregate where
  State := State P
  Event := P.Record
  Error := DecisionError P.domain.Error
  initial := State.initial P
  apply := State.apply
  maxRehydrationEvents := maxAccepted
  maxRehydrationEvents_pos := by decide
  maxRehydrationEvents_lt := by decide

/-- A request to decide, and the version its record would take. -/
structure Decision (P : Processor) where
  request : P.Request
  version : Version

/-- Decide a request: the record of its acceptance. -/
def Adapted.handle (state : State P) (decision : Decision P) :
    Except (DecisionError P.domain.Error) (Option (Events P.Record 0)) := do
  rejectIf (state.receipts.keys.length ≥ maxAccepted) .historyFull
  let decided ← (P.handle state.domain decision.request.command).mapError .rejected
  let facts := (decided.map Events.toList).getD []
  rejectIf ((state.total facts.length).isNone) (.replayLimit P.domain.maxRehydrationEvents)
  let receipt : P.Receipt := {
    id := decision.request.id
    version := decision.version
    events := facts.length }
  return some (.new { schema := 2, request := decision.request, receipt, facts })

/-- The failure behind a definite or uncertain outcome. -/
inductive Cause (P : Processor)
  | rejected (error : P.domain.Error)
  | store (error : P.StoreError)
  | kernel (error : KernelError)
  | historyFull
  | replayLimit (maximum : Nat)
  | corrupt

/-- A rejected request, unavailable read or unresolved write. -/
inductive Error (P : Processor)
  | failed (cause : Cause P)
  | mismatch
  | conflict
  | queueLimit (requested maximum : Nat)
  | deadlineZero
  | scope
  | runtime
  | uncertain (command : P.I) (source : Option (Cause P))
  | request (error : P.CodecError)
  | corrupt
  | timeout

/-- A refused decision as a cause. -/
def DecisionError.toCause : DecisionError P.domain.Error → Cause P
  | .rejected error => .rejected error
  | .historyFull => .historyFull
  | .replayLimit maximum => .replayLimit maximum

/-- Aggregate roots of acceptance records. -/
abbrev Root (P : Processor) := AggregateRoot (Adapted P)

/-- Steps of the engine before its results are wrapped. -/
abbrev Operation (P : Processor) (α : Type) :=
  Repository.Operation (Option P.Request) (Adapted P) P.AdapterError α

/-- Engine code: the held request, store calls and typed errors. -/
abbrev Engine (P : Processor) (α : Type) :=
  ExceptT (Error P) (Program (Option P.Request) (StoreCall P.Record)
    (StoreCall.Answer P.AdapterError)) α

namespace Engine

/-- The request held as unresolved. -/
def pending : Engine P (Option P.Request) :=
  ExceptT.lift Program.get

/-- Hold another request, or none. -/
def replacePending (next : Option P.Request) : Engine P (Option P.Request) := do
  let previous ← pending
  ExceptT.lift (Program.set next)
  return previous

/-- Run a step and keep its result, whether it failed or not. -/
def attempt {α : Type} (step : Engine P α) : Engine P (Except (Error P) α) :=
  ExceptT.lift step.run

/-- A kernel result of the engine. -/
def kernel {α : Type} (result : Except KernelError α) : Engine P α :=
  MonadExcept.ofExcept (result.mapError (.failed ∘ .kernel))

/-- A receipt lookup of the engine. -/
def lookup (result : Except Mismatch (Option P.Receipt)) : Engine P (Option P.Receipt) :=
  MonadExcept.ofExcept (result.mapError fun _ => .mismatch)

/-- The verdict on a load: in time, without store failure and with intact
history. -/
def judge (answer : Option (Except P.StoreError (Root P))) :
    Except (Error P) (Root P) := do
  let loaded ← okOr answer .timeout
  let root ← loaded.mapError (.failed ∘ .store)
  let state ← root.state.mapError (.failed ∘ .kernel)
  rejectIf (state.integrity = false) .corrupt
  return root

/-- Load the stream. -/
def load : Engine P (Root P) := do
  let answer ← ExceptT.lift (Repository.load (codec P) : Operation P _)
  MonadExcept.ofExcept (judge answer)

/-- Let go of the held request once the stream has moved past its base. -/
def settle (root : Root P) : Engine P Unit := do
  match ← pending with
  | none =>
    let _ ← replacePending none
  | some held =>
    -- An unmoved stream cannot settle a write.  A later version proves that
    -- the conditional append committed or can no longer win.
    if root.version ≤ held.expected then
      throw (.uncertain held.id none)
    else
      let _ ← kernel root.state
      let _ ← replacePending none

/-- A definite failure of this attempt; an older unresolved request stays
held. -/
def failure {α : Type} (previous : Option P.Request) (error : Cause P) :
    Engine P α := do
  let _ ← replacePending previous
  match ← pending with
  | some original => throw (.uncertain original.id (some error))
  | none => throw (.failed error)

/-- Failures before the append are definite; any other leaves the write
unresolved. -/
def storeFailure {α : Type} (id : P.I) (previous : Option P.Request)
    (error : P.StoreError) : Engine P α :=
  match error with
  | .encode _ | .envelope _ | .versionOverflow => failure previous (.store error)
  | _ => throw (.uncertain id (some (.store error)))

/-- Decide a request on the root and append its record, holding the request
meanwhile. -/
def write (root : Root P) (request : P.Request) : Engine P (Root P) := do
  let version ← MonadExcept.ofExcept
    (okOr (following root.version) (.failed (.kernel .versionOverflow)))
  let previous ← replacePending (some request)
  let outcome : Option (Except
      (ExecuteError (DecisionError P.domain.Error) P.StoreError) (Root P)) ←
    ExceptT.lift (Repository.execute (codec P) Adapted.handle root
      { request, version : Decision P } : Operation P _)
  match outcome with
  | some (.ok written) => return written
  | none => throw (.uncertain request.id none)
  | some (.error (.store (.conflict _ _ _))) =>
    let _ ← replacePending none
    throw .conflict
  | some (.error (.decide error)) => failure previous error.toCause
  | some (.error (.kernel error)) => failure previous (.kernel error)
  | some (.error (.store error)) => storeFailure request.id previous error

/-- The end of `submit` after a conflicting append: the request may have been
accepted by the append that won. -/
def reload (request : P.Request) : Engine P P.Receipt := do
  let reloaded ← load
  let state ← kernel reloaded.state
  let receipt ← lookup (state.receipt request)
  MonadExcept.ofExcept (okOr receipt .conflict)

/-- The end of `submit` after its append was accepted. -/
def acknowledge (written : Root P) (request : P.Request) : Engine P P.Receipt :=
  let observed : Except (Cause P) P.Receipt := do
    let state ← written.state.mapError .kernel
    let receipt ← (state.receipt request).mapError fun _ => .corrupt
    okOr receipt .corrupt
  match observed with
  | .ok receipt => do
    let _ ← replacePending none
    return receipt
  | .error cause => throw (.uncertain request.id (some cause))

/-- Append a request on a root whose version it expects. -/
def append (root : Root P) (request : P.Request) : Engine P P.Receipt := do
  match ← attempt (write root request) with
  | .error .conflict => reload request
  | .error error => throw error
  | .ok written => acknowledge written request

/-- The part of `submit` for a request that the loaded history does not hold. -/
def submitNew (root : Root P) (request : P.Request) (canRetry : Bool)
    (settled : Except (Error P) Unit) : Engine P P.Receipt := do
  let held ← pending
  if held.any fun original => original.id = request.id ∧ original ≠ request then
    throw .mismatch
  else
    match settled, canRetry with
    | .error error, false => throw error
    | _, _ =>
      if request.expected ≠ root.version then
        throw .conflict
      else
        append root request

/-- Accept a request, or find the receipt of its earlier acceptance. -/
def submit (request : P.Request) : Engine P P.Receipt := do
  let root ← load
  let state ← kernel root.state
  let existing ← lookup (state.receipt request)
  let held ← pending
  let canRetry := decide (held = some request ∧ request.expected = root.version)
  let settled ← attempt (settle root)
  match existing with
  | some receipt => return receipt
  | none => submitNew root request canRetry settled

/-- The domain state at the head of the stream. -/
def read : Engine P (Option Version × P.domain.State) := do
  let root ← load
  settle root
  let state ← kernel root.state
  return (root.version, state.domain)

/-- The accepted request of an identity. -/
def original (id : P.I) : Engine P (Option P.Request) := do
  let root ← load
  let state ← kernel root.state
  let settled ← attempt (settle root)
  match state.original id with
  | some request => return some request
  | none =>
    MonadExcept.ofExcept settled
    return none

/-- Submit the held or the accepted request of an identity again. -/
def retry (id : P.I) : Engine P (Option P.Receipt) := do
  let held ← pending
  let found ←
    match held.filter fun request => request.id = id with
    | some request => pure (some request)
    | none => original id
  match found with
  | some request =>
    let receipt ← submit request
    return some receipt
  | none => return none

end Engine

/-- Calls served by an engine. -/
inductive Call (P : Processor)
  | submit (request : P.Request)
  | read
  | original (id : P.I)
  | retry (id : P.I)

/-- Answers to the calls. -/
inductive Reply (P : Processor)
  | submit (result : Except (Error P) P.Receipt)
  | read (result : Except (Error P) (Option Version × P.domain.State))
  | original (result : Except (Error P) (Option P.Request))
  | retry (result : Except (Error P) (Option P.Receipt))

/-- Serve one call. -/
def Call.serve : Call P → Operation P (Reply P)
  | .submit request => do return .submit (← (Engine.submit request).run)
  | .read => do return .read (← Engine.read.run)
  | .original id => do return .original (← (Engine.original id).run)
  | .retry id => do return .retry (← (Engine.retry id).run)

/-- What is left of an engine that ended: its stream and the request it still
held. -/
structure Shutdown (P : Processor) where
  stream : Bytes
  uncertain : Option P.Request

/-- Configuration of a processor: operation deadline and queue length. -/
structure Limits where
  operation : Nat
  queue : Nat

/-- Largest queue the runtime supports. -/
def maxPermits : Nat := 2 ^ 61 - 1

/-- Start an engine that holds a request; the runtime may be unavailable. -/
def launch (limits : Limits) (runtime : Bool)
    (held : Option P.Request) : Except (Error P) (Option P.Request) := do
  rejectIf (limits.operation = 0) .deadlineZero
  rejectIf (limits.queue > maxPermits) (.queueLimit limits.queue maxPermits)
  rejectIf (runtime = false) .runtime
  return held

/-- Start an engine on a stream without history of its own. -/
def start (limits : Limits) (runtime : Bool) :
    Except (Error P) (Option P.Request) :=
  launch limits runtime none

/-- A held request must be one that can be encoded. -/
def validateHeld : Option P.Request → Except (Error P) Unit
  | none => .ok ()
  | some request => (Request.validate request).mapError .request

/-- Start an engine that takes over what an ended one still held. -/
def resume (id : Bytes) (limits : Limits) (runtime : Bool)
    (shutdown : Shutdown P) : Except (Error P) (Option P.Request) := do
  rejectIf (shutdown.stream ≠ id) .scope
  validateHeld shutdown.uncertain
  launch limits runtime shutdown.uncertain

end Mnesis.Command
