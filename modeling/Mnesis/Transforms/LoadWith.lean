import Mathlib.Data.List.Forall2
import Mnesis.Store.Persisted
import Mnesis.Store.Repository
import Mnesis.Transforms.Graph

/-!
# Loading through an upcast

An aggregate is loaded with a verifier that sees each stored envelope as it is, and an
upcast that changes its type, schema and payload.  The decoder is handed the stored
envelope if the upcast changed nothing, and an envelope over a new frame otherwise.
Failures of building it are failures of the store in the source; nothing else has them, so
they are a case of their own here.
-/

namespace Mnesis.Transforms

open Foundation Kernel Store Wire

/-- Failures of building an envelope for a decoder. -/
inductive ForDecodeError
  | value (error : ValueError)
  | wire (error : WireError)
  | envelope (error : EnvelopeError)

/-- The event type of a transformed event. -/
def transformedType (env : PersistedEnvelope) (text : String) : Except ForDecodeError EventType :=
  if text = env.eventType then
    return env.eventTypeValue
  else
    (EventType.fromBytes (utf8Bytes text)).mapError .value

/-- The payload of a transformed event. -/
def transformedPayload (env : PersistedEnvelope) (bytes : Bytes) : Except ForDecodeError Payload :=
  if bytes = env.payload then
    return env.payloadValue
  else
    (Payload.fromBytes bytes).mapError .value

/-- An envelope over a new frame, with the version and metadata of a stored one. -/
def rebuild (env : PersistedEnvelope) (morsel : EventMorsel) :
    Except ForDecodeError PersistedEnvelope := do
  let event ← transformedType env morsel.eventType
  let data ← transformedPayload env morsel.payload
  let frame ← (encodeFrame morsel.schemaVersion event data env.metadataValue).mapError .wire
  (PersistedEnvelope.tryNew env.version frame.value morsel.schemaVersion
    frame.offsets.eventType frame.offsets.payload frame.offsets.metadata).mapError .envelope

/-- A stored envelope as the upcast takes it. -/
def EventMorsel.borrowed (env : PersistedEnvelope) : EventMorsel :=
  ⟨env.eventType, env.schemaVersion, env.payload⟩

/-- The envelope of a transformed event: the stored one if nothing was changed. -/
def forTransformedDecode (env : PersistedEnvelope) (morsel : EventMorsel) :
    Except ForDecodeError PersistedEnvelope :=
  if morsel = .borrowed env then return env else rebuild env morsel

/-- The values that the decoder is to be handed: the version and metadata of the stored
envelope, and the type, schema and payload of the transformed event. -/
structure IsView (env : PersistedEnvelope) (morsel : EventMorsel) (handed : PendingEnvelope) :
    Prop where
  version : handed.version = env.version
  metadata : handed.metadata = env.metadataValue
  eventType : handed.eventType.asBytes = utf8Bytes morsel.eventType
  schemaVersion : handed.schemaVersion = morsel.schemaVersion
  payload : handed.payload.asSlice = morsel.payload

/-- A transformed event fits one frame: it is the stored one, or its values are valid and
their frame has less than 4 GiB. -/
def FitsFrame (env : PersistedEnvelope) (morsel : EventMorsel) : Prop :=
  morsel = .borrowed env ∨ ∃ handed, IsView env morsel handed ∧ envelopeLen handed < 2 ^ 32

theorem IsView.eq (first : IsView env morsel handed) (second : IsView env morsel other) :
    handed = other := by
  cases handed
  cases other
  obtain ⟨rfl, rfl, eventType, rfl, payload⟩ := first
  obtain ⟨rfl, rfl, sameType, rfl, samePayload⟩ := second
  congr
  · exact EventType.ext (eventType.trans sameType.symm)
  · exact Payload.ext (payload.trans samePayload.symm)

theorem isView_borrowed (env : PersistedEnvelope) : IsView env (.borrowed env) env.toPending :=
  ⟨rfl, rfl, rfl, rfl, rfl⟩

theorem transformedType_eq_ok :
    transformedType env text = .ok event ↔ event.asBytes = utf8Bytes text := by
  unfold transformedType
  split
  next same =>
    subst same
    rw [pure_eq_ok, Except.ok.injEq, eq_comm]
    exact EventType.ext_iff
  next =>
    rw [mapError_eq_ok, EventType.fromBytes]
    split
    next => simp [EventType.ext_iff, eq_comm, isUtf8_utf8Bytes]
    next tooLong =>
      simp only [reduceCtorEq, false_iff]
      intro same
      exact tooLong (same ▸ event.length_le)

theorem transformedPayload_eq_ok :
    transformedPayload env bytes = .ok data ↔ data.asSlice = bytes := by
  unfold transformedPayload
  split
  next same =>
    subst same
    rw [pure_eq_ok, Except.ok.injEq, eq_comm]
    exact Payload.ext_iff
  next => rw [mapError_eq_ok, Payload.fromBytes_eq_ok]

theorem exists_rebuild_iff :
    (∃ built, rebuild env morsel = .ok built ∧ built.toPending = handed) ↔
      IsView env morsel handed ∧ envelopeLen handed < 2 ^ 32 := by
  simp only [rebuild, bind_eq_ok, mapError_eq_ok, transformedType_eq_ok, transformedPayload_eq_ok]
  constructor
  · rintro ⟨built, ⟨event, isEvent, data, isData, frame, encoded, made⟩, rfl⟩
    obtain ⟨envelope, isEnvelope, values⟩ := tryNew_encodeFrame encoded env.version
    cases made.symm.trans isEnvelope
    rw [values]
    exact ⟨⟨rfl, rfl, isEvent, rfl, isData⟩, ((@encodeFrame_envelope
      ⟨env.version, event, morsel.schemaVersion, data, env.metadataValue⟩ _).mp encoded).1⟩
  · rintro ⟨view, fits⟩
    have encoded := encodeFrame_envelope.mpr ⟨fits, rfl⟩
    obtain ⟨envelope, isEnvelope, values⟩ := tryNew_encodeFrame encoded handed.version
    rw [view.metadata, view.schemaVersion] at encoded
    rw [view.version, view.schemaVersion] at isEnvelope
    exact ⟨envelope, ⟨_, view.eventType, _, view.payload, _, encoded, isEnvelope⟩, values⟩

/-- The decoder is handed an envelope exactly for an event that fits one frame, and sees
the same values whether the stored envelope is shared or a new one is built. -/
theorem forTransformedDecode_cases (env : PersistedEnvelope) (morsel : EventMorsel) :
    (∃ handed, forTransformedDecode env morsel = .ok handed ∧ FitsFrame env morsel ∧
        IsView env morsel handed.toPending) ∨
      ∃ error, forTransformedDecode env morsel = .error error ∧ ¬ FitsFrame env morsel := by
  unfold forTransformedDecode FitsFrame
  split
  next same => exact .inl ⟨env, rfl, .inl same, same ▸ isView_borrowed env⟩
  next changed =>
    cases isRebuilt : rebuild env morsel with
    | ok built =>
      obtain ⟨view, fits⟩ := exists_rebuild_iff.mp ⟨built, isRebuilt, rfl⟩
      exact .inl ⟨built, rfl, .inr ⟨_, view, fits⟩, view⟩
    | error error =>
      refine .inr ⟨error, rfl, ?_⟩
      rintro (same | ⟨handed, view, fits⟩)
      · exact changed same
      · obtain ⟨built, isBuilt, _⟩ := exists_rebuild_iff.mpr ⟨view, fits⟩
        cases isRebuilt.symm.trans isBuilt

/-- Failures of loading through an upcast. -/
inductive LoadWithError (AdapterError EncodeError DecodeError E V : Type)
  | store (error : StoreError AdapterError EncodeError DecodeError)
  | envelopeSynthesis (error : ForDecodeError)
  | upcast (error : E)
  | verification (error : V)

/-- The result of loading through an upcast. -/
abbrev LoadResult (AdapterError EncodeError DecodeError E V : Type) : Type → Type :=
  Except (LoadWithError AdapterError EncodeError DecodeError E V)

/-- What was called: the verifier on a stored envelope, or the decoder on the values of the
envelope it was handed. -/
inductive LoadAct
  | verify (env : PersistedEnvelope)
  | decode (handed : PendingEnvelope)

section

variable {A : Aggregate} {AdapterError EncodeError DecodeError E V : Type}
variable (codec : EventCodec A.Event EncodeError DecodeError)
variable (verify : PersistedEnvelope → Except V Unit) (upcast : EventMorsel → Except E EventMorsel)

/-- The envelope for the decoder, once the stored one is verified. -/
def upcastEnv (env : PersistedEnvelope) :
    LoadResult AdapterError EncodeError DecodeError E V PersistedEnvelope := do
  (verify env).mapError .verification
  let transformed ← (upcast (.borrowed env)).mapError .upcast
  (forTransformedDecode env transformed).mapError .envelopeSynthesis

/-- Verify, transform and decode one stored row, and fold it. -/
def loadRow (root : AggregateRoot A) (env : PersistedEnvelope) :
    List LoadAct × LoadResult AdapterError EncodeError DecodeError E V (AggregateRoot A) :=
  match upcastEnv verify upcast env with
  | .error error => ([.verify env], .error error)
  | .ok handed =>
    ([.verify env, .decode handed.toPending], do
      let event ← (codec.decode handed.toPending).mapError (.store ∘ .decode)
      (root.replay env.version event).mapError (.store ∘ .kernel))

/-- Fold the rows of a stream in order. -/
def loadRows (root : AggregateRoot A) :
    List PersistedEnvelope →
      List LoadAct × LoadResult AdapterError EncodeError DecodeError E V (AggregateRoot A)
  | [] => ([], .ok root)
  | env :: rows =>
    match loadRow codec verify upcast root env with
    | (acts, .error error) => (acts, .error error)
    | (acts, .ok next) =>
      let (more, result) := loadRows next rows
      (acts ++ more, result)

/-- The failure of a read comes after its rows. -/
def behindRows (failure : Option AdapterError)
    (result : LoadResult AdapterError EncodeError DecodeError E V (AggregateRoot A)) :
    LoadResult AdapterError EncodeError DecodeError E V (AggregateRoot A) := do
  let loaded ← result
  match failure with
  | none => return loaded
  | some error => throw (.store (.adapter error))

/-- Load the aggregate of a stream from what a read delivers. -/
def loadWith (rows : List PersistedEnvelope) (failure : Option AdapterError) :
    List LoadAct × LoadResult AdapterError EncodeError DecodeError E V (AggregateRoot A) :=
  let (acts, result) := loadRows codec verify upcast AggregateRoot.new rows
  (acts, behindRows failure result)

/-- The decoder is handed these values for an envelope that the verifier accepted. -/
structure Handed (env : PersistedEnvelope) (handed : PendingEnvelope) : Prop where
  accepted : verify env = .ok ()
  view : ∃ morsel, upcast (.borrowed env) = .ok morsel ∧ FitsFrame env morsel ∧
    IsView env morsel handed

/-- The calls and the result of loading: every envelope is verified, its event transformed
and handed to the decoder, and the decoded event folded, up to the first failure. -/
inductive Loads : AggregateRoot A → List PersistedEnvelope → List LoadAct →
    LoadResult AdapterError EncodeError DecodeError E V (AggregateRoot A) → Prop
  | nil : Loads root [] [] (.ok root)
  | refused : verify env = .error error →
      Loads root (env :: rows) [.verify env] (.error (.verification error))
  | failed : verify env = .ok () → upcast (.borrowed env) = .error error →
      Loads root (env :: rows) [.verify env] (.error (.upcast error))
  | unfit : verify env = .ok () → upcast (.borrowed env) = .ok morsel →
      ¬ FitsFrame env morsel →
      Loads root (env :: rows) [.verify env] (.error (.envelopeSynthesis error))
  | undecoded : Handed verify upcast env handed → codec.decode handed = .error error →
      Loads root (env :: rows) [.verify env, .decode handed] (.error (.store (.decode error)))
  | unfolded : Handed verify upcast env handed → codec.decode handed = .ok event →
      root.replay env.version event = .error error →
      Loads root (env :: rows) [.verify env, .decode handed] (.error (.store (.kernel error)))
  | cons : Handed verify upcast env handed → codec.decode handed = .ok event →
      root.replay env.version event = .ok next → Loads next rows acts result →
      Loads root (env :: rows) (.verify env :: .decode handed :: acts) result

/-- Rows are loaded one by one up to the first failure. -/
theorem loads_loadRows
    {loaded : List LoadAct × LoadResult AdapterError EncodeError DecodeError E V (AggregateRoot A)}
    (isLoaded : loadRows codec verify upcast root rows = loaded) :
    Loads codec verify upcast root rows loaded.1 loaded.2 := by
  subst isLoaded
  induction rows generalizing root with
  | nil => exact .nil
  | cons env rows ih =>
    cases accepted : verify env with
    | error error =>
      simpa [loadRows, loadRow, upcastEnv, accepted] using .refused accepted
    | ok =>
      cases isMorsel : upcast (.borrowed env) with
      | error error =>
        simpa [loadRows, loadRow, upcastEnv, accepted, isMorsel] using .failed accepted isMorsel
      | ok morsel =>
        rcases forTransformedDecode_cases env morsel with
          ⟨envelope, isEnvelope, fits, view⟩ | ⟨error, failed, unfit⟩
        · have handed : Handed verify upcast env envelope.toPending :=
            ⟨accepted, morsel, isMorsel, fits, view⟩
          have isEnv : (upcastEnv verify upcast env : LoadResult AdapterError EncodeError
              DecodeError E V _) = .ok envelope := by
            simp [upcastEnv, accepted, isMorsel, isEnvelope]
          cases decodes : codec.decode envelope.toPending with
          | error error =>
            simpa [loadRows, loadRow, isEnv, decodes] using .undecoded handed decodes
          | ok event =>
            cases folds : root.replay env.version event with
            | error error =>
              simpa [loadRows, loadRow, isEnv, decodes, folds] using .unfolded handed decodes folds
            | ok next =>
              simpa [loadRows, loadRow, isEnv, decodes, folds] using .cons handed decodes folds ih
        · simpa [loadRows, loadRow, upcastEnv, accepted, isMorsel, failed] using
            .unfit accepted isMorsel unfit

/-- An event is the decoded one of an envelope. -/
def Decodes (env : PersistedEnvelope) (event : A.Event) : Prop :=
  ∃ handed, Handed verify upcast env handed ∧ codec.decode handed = .ok event

theorem Loads.folds (loads : Loads codec verify upcast root rows acts result)
    (isOk : result = .ok loaded) :
    ∃ events, List.Forall₂ (Decodes codec verify upcast) rows events ∧
      (rows.zip events).foldlM (fun root row => root.replay row.1.version row.2) root =
        .ok loaded := by
  induction loads with
  | nil =>
    cases isOk
    exact ⟨[], .nil, rfl⟩
  | cons handed decodes folds _ ih =>
    obtain ⟨events, each, folded⟩ := ih isOk
    refine ⟨_ :: events, .cons ⟨_, handed, decodes⟩ each, ?_⟩
    rw [List.zip_cons_cons, List.foldlM_cons, folds]
    exact folded
  | refused | failed | unfit | undecoded | unfolded => cases isOk

variable {codec upcast}

/-- An envelope is replaced by one with the values of the upcast event. -/
def Rewrites (upcast : EventMorsel → Except E EventMorsel) (env new : PersistedEnvelope) : Prop :=
  ∃ morsel, upcast (.borrowed env) = .ok morsel ∧ forTransformedDecode env morsel = .ok new

theorem isView_of_ok (isNew : forTransformedDecode env morsel = .ok new) :
    IsView env morsel new.toPending := by
  rcases forTransformedDecode_cases env morsel with ⟨_, isOk, _, view⟩ | ⟨_, failed, _⟩
  · cases isOk.symm.trans isNew
    exact view
  · cases failed.symm.trans isNew

/-- Rewritten rows are folded as the old ones are through the upcast. -/
theorem loadRows_rewritten (rewrites : List.Forall₂ (Rewrites upcast) rows rewritten)
    (root : AggregateRoot A) :
    (loadRows codec (fun _ => .ok ()) upcast root rows :
      _ × LoadResult AdapterError EncodeError DecodeError E V _).2 =
      (Repository.replayRows codec root (rewritten.map PersistedEnvelope.toPending)).mapError
        .store := by
  induction rewrites generalizing root with
  | nil => rfl
  | @cons env new rows rewritten first _ ih =>
    obtain ⟨morsel, upcasted, isNew⟩ := first
    have sameVersion : new.toPending.version = env.version := (isView_of_ok isNew).version
    have isEnv : (upcastEnv (fun _ => .ok ()) upcast env : LoadResult AdapterError EncodeError
        DecodeError E V _) = .ok new := by
      simp [upcastEnv, upcasted, isNew]
    rw [List.map_cons, Repository.replayRows_cons, Repository.replayRow]
    cases decodes : codec.decode new.toPending with
    | error error => simp [loadRows, loadRow, isEnv, decodes]
    | ok event =>
      cases folds : root.replay env.version event with
      | error error => simp [loadRows, loadRow, isEnv, decodes, sameVersion, folds]
      | ok next => simp [loadRows, loadRow, isEnv, decodes, sameVersion, folds, ih]

/-- So is the whole stream, up to the failure of a read. -/
theorem loadWith_rewritten (rewrites : List.Forall₂ (Rewrites upcast) rows rewritten)
    (failure : Option AdapterError) :
    (loadWith codec (fun _ => .ok ()) upcast rows failure :
      _ × LoadResult AdapterError EncodeError DecodeError E V _).2 =
      (Repository.replayAnswer codec AggregateRoot.new
        ⟨rewritten.map PersistedEnvelope.toPending, failure⟩).mapError .store := by
  simp only [loadWith, behindRows, loadRows_rewritten rewrites, Repository.replayAnswer]
  cases Repository.replayRows codec _ (rewritten.map PersistedEnvelope.toPending) with
  | error error => rfl
  | ok loaded => cases failure <;> rfl

/-- An upcast that changes nothing keeps every envelope. -/
theorem Rewrites.refl (env : PersistedEnvelope) :
    Rewrites (.ok : EventMorsel → Except E EventMorsel) env env :=
  ⟨_, rfl, if_pos rfl⟩

variable (codec upcast)

/-- What loading through an upcast does with a stream. -/
structure LoadsWith (rows : List PersistedEnvelope) (failure : Option AdapterError) : Prop where
  calls : ∃ result : LoadResult AdapterError EncodeError DecodeError E V (AggregateRoot A),
    Loads codec verify upcast AggregateRoot.new rows
        (loadWith codec verify upcast rows failure).1 result ∧
      (loadWith codec verify upcast rows failure).2 = behindRows failure result
  folds : ∀ loaded, (loadWith codec verify upcast rows failure).2 = .ok loaded →
    failure = none ∧ ∃ events, List.Forall₂ (Decodes codec verify upcast) rows events ∧
      (rows.zip events).foldlM (fun root row => root.replay row.1.version row.2)
        AggregateRoot.new = .ok loaded
  /-- The decoder cannot tell a shared envelope from a new one. -/
  shares : ∀ env built, rebuild env (.borrowed env) = .ok built → built.toPending = env.toPending
  /-- With a verifier that accepts everything and an upcast that changes nothing this is a
  load. -/
  unchanged :
    (loadWith codec (fun _ => .ok ()) .ok rows failure :
      _ × LoadResult AdapterError EncodeError DecodeError E V _).2 =
      (Repository.replayAnswer codec AggregateRoot.new
        ⟨rows.map PersistedEnvelope.toPending, failure⟩).mapError .store

/-- Loading verifies, transforms, decodes and folds every event in order. -/
theorem load_with_decodes_verified_events (rows : List PersistedEnvelope)
    (failure : Option AdapterError) : LoadsWith codec verify upcast rows failure where
  calls := ⟨(loadRows codec verify upcast AggregateRoot.new rows).2,
    loads_loadRows codec verify upcast rfl, rfl⟩
  folds loaded isLoaded := by
    simp only [loadWith, behindRows, bind_eq_ok] at isLoaded
    obtain ⟨root, isRoot, isLoaded⟩ := isLoaded
    cases failure with
    | none =>
      cases isLoaded
      exact ⟨rfl, (loads_loadRows codec verify upcast rfl).folds codec verify upcast isRoot⟩
    | some error => cases isLoaded
  shares env built isBuilt :=
    (exists_rebuild_iff.mp ⟨built, isBuilt, rfl⟩).1.eq (isView_borrowed env)
  unchanged := loadWith_rewritten (List.forall₂_same.mpr fun env _ => .refl env) failure

end

end Mnesis.Transforms
