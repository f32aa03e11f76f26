import Mnesis.Store.Wire

/-!
# Stored envelopes

An envelope that was read holds a frame and the ranges of its fields.  It exists
only for ranges that passed their checks, so that every field is a valid value.
-/

namespace Mnesis.Store

open Foundation Kernel Wire

/-- A range must lie within the frame. -/
def checkRange (range : ByteRange) (len : Nat) : Except EnvelopeError Unit :=
  rejectIf (len < range.stop.toNat ∨ range.stop < range.start)
    (.rangeOutOfBounds range.start.toNat range.stop.toNat len)

/-- The metadata must not be empty and not too long. -/
def checkMetadata : Option ByteRange → Except EnvelopeError Unit
  | none => return ()
  | some range => do
    let len := range.stop.toNat - range.start.toNat
    rejectIf (len = 0) .metadataRangeEmpty
    rejectIf (maxMetadataLen < len) (.metadataRangeTooLong len maxMetadataLen)

/-- The checks on the ranges of a frame. -/
def checkRanges (value : Bytes) (eventType payload : ByteRange)
    (metadata : Option ByteRange) : Except EnvelopeError Unit := do
  checkRange eventType value.length
  checkRange payload value.length
  metadata.elim (pure ()) fun range => checkRange range value.length
  let etLen := eventType.stop.toNat - eventType.start.toNat
  rejectIf (maxEventTypeLen < etLen) (.eventTypeRangeTooLong etLen maxEventTypeLen)
  checkMetadata metadata
  rejectIf (isUtf8 (eventType.slice value) = false)
    (.invalidUtf8 eventType.start.toNat eventType.stop.toNat)

/-- An envelope read from the store. -/
structure PersistedEnvelope where
  version : Version
  value : Bytes
  schemaVersion : SchemaVersion
  eventTypeRange : ByteRange
  payloadRange : ByteRange
  metadataRange : Option ByteRange
  checked : checkRanges value eventTypeRange payloadRange metadataRange = .ok ()
  deriving DecidableEq

namespace PersistedEnvelope

/-- The envelope of a decoded frame. -/
def tryNew (version : Version) (value : Bytes) (schemaVersion : SchemaVersion)
    (eventTypeRange payloadRange : ByteRange)
    (metadataRange : Option ByteRange) : Except EnvelopeError PersistedEnvelope :=
  match checked : checkRanges value eventTypeRange payloadRange metadataRange with
  | .ok () => .ok {
      version, value, schemaVersion, eventTypeRange, payloadRange, metadataRange, checked }
  | .error error => .error error

/-- An envelope holds what it was made of. -/
theorem tryNew_eq_ok {version : Version} {value : Bytes} {schemaVersion : SchemaVersion}
    {eventTypeRange payloadRange : ByteRange} {metadataRange : Option ByteRange}
    (built : tryNew version value schemaVersion eventTypeRange payloadRange
      metadataRange = .ok envelope) :
    envelope.version = version ∧ envelope.value = value ∧
      envelope.schemaVersion = schemaVersion ∧ envelope.eventTypeRange = eventTypeRange ∧
      envelope.payloadRange = payloadRange ∧ envelope.metadataRange = metadataRange := by
  unfold tryNew at built
  split at built
  next =>
    cases built
    exact ⟨rfl, rfl, rfl, rfl, rfl, rfl⟩
  next => cases built

end PersistedEnvelope

/-- A range of a frame. -/
structure Wire.ByteRange.Within (range : ByteRange) (value : Bytes) : Prop where
  start_le : range.start.toNat ≤ range.stop.toNat
  stop_le : range.stop.toNat ≤ value.length

theorem checkRange_eq_ok {range : ByteRange} :
    checkRange range value.length = .ok result ↔ range.Within value := by
  rw [checkRange, rejectIf_eq_ok, not_or, Nat.not_lt, UInt32.lt_iff_toNat_lt, Nat.not_lt]
  exact ⟨fun inside => ⟨inside.2, inside.1⟩, fun inside => ⟨inside.stop_le, inside.start_le⟩⟩

theorem Wire.ByteRange.Within.length_slice {range : ByteRange} (inside : range.Within value) :
    (range.slice value).length = range.stop.toNat - range.start.toNat :=
  length_extract inside.stop_le

theorem checkRanges_eq_ok {value : Bytes} :
    checkRanges value eventType payload metadata = .ok () ↔
      eventType.Within value ∧ payload.Within value ∧
      (∀ range, metadata = some range → range.Within value ∧
        range.slice value ≠ [] ∧ (range.slice value).length ≤ maxMetadataLen) ∧
      (eventType.slice value).length ≤ maxEventTypeLen ∧
      isUtf8 (eventType.slice value) = true := by
  have nonempty : ∀ range : ByteRange, range.Within value →
      (range.slice value ≠ [] ↔ range.stop.toNat - range.start.toNat ≠ 0) := by
    intro range inside
    rw [← inside.length_slice, ne_eq, ne_eq, List.length_eq_zero_iff]
  simp only [checkRanges, bind_eq_ok, checkRange_eq_ok, rejectIf_eq_ok, exists_const,
    Nat.not_lt, Bool.not_eq_false]
  cases metadata with
  | none =>
    simp only [checkMetadata, Option.elim_none, pure_eq_ok, exists_const, true_and,
      reduceCtorEq, false_implies, implies_true]
    constructor
    · rintro ⟨typeInside, payloadInside, bounded, utf8⟩
      rw [typeInside.length_slice]
      exact ⟨typeInside, payloadInside, bounded, utf8⟩
    · rintro ⟨typeInside, payloadInside, bounded, utf8⟩
      rw [typeInside.length_slice] at bounded
      exact ⟨typeInside, payloadInside, bounded, utf8⟩
  | some range =>
    simp only [checkMetadata, Option.elim_some, checkRange_eq_ok, bind_eq_ok,
      rejectIf_eq_ok, exists_const, Nat.not_lt, Option.some.injEq, forall_eq']
    constructor
    · rintro ⟨typeInside, payloadInside, inside, bounded, ⟨present, short⟩, utf8⟩
      rw [typeInside.length_slice, inside.length_slice, nonempty range inside]
      exact ⟨typeInside, payloadInside, ⟨inside, present, short⟩, bounded, utf8⟩
    · rintro ⟨typeInside, payloadInside, ⟨inside, present, short⟩, bounded, utf8⟩
      rw [typeInside.length_slice] at bounded
      rw [inside.length_slice] at short
      exact ⟨typeInside, payloadInside, inside, bounded,
        ⟨(nonempty range inside).mp present, short⟩, utf8⟩

namespace PersistedEnvelope

variable (envelope : PersistedEnvelope)

/-- The event type of an envelope. -/
def eventTypeValue : EventType :=
  have valid := checkRanges_eq_ok.mp envelope.checked
  { asBytes := envelope.eventTypeRange.slice envelope.value
    length_le := valid.2.2.2.1
    utf8 := valid.2.2.2.2 }

/-- The payload of an envelope. -/
def payloadValue : Payload where
  asSlice := envelope.payloadRange.slice envelope.value
  length_le := by
    have inside := (checkRanges_eq_ok.mp envelope.checked).2.1
    have bounded := envelope.payloadRange.stop.toNat_lt
    rw [inside.length_slice, maxPayloadLen]
    omega

/-- The metadata of an envelope. -/
def metadataValue : Option Metadata :=
  have valid := (checkRanges_eq_ok.mp envelope.checked).2.2.1
  envelope.metadataRange.attach.map fun range => {
    asSlice := range.1.slice envelope.value
    nonempty := (valid range.1 range.2).2.1
    length_le := (valid range.1 range.2).2.2 }

/-- The event type of an envelope as text. -/
def eventType : String := envelope.eventTypeValue.asStr

/-- The bytes of the payload. -/
def payload : Bytes := envelope.payloadRange.slice envelope.value

/-- The bytes of the metadata. -/
def metadata : Option Bytes := envelope.metadataRange.map (·.slice envelope.value)

/-- The values of an envelope. -/
def toPending : PendingEnvelope where
  version := envelope.version
  eventType := envelope.eventTypeValue
  schemaVersion := envelope.schemaVersion
  payload := envelope.payloadValue
  metadata := envelope.metadataValue

theorem asSlice_metadataValue :
    envelope.metadataValue.map Metadata.asSlice =
      envelope.metadataRange.map (·.slice envelope.value) := by
  rw [metadataValue, Option.map_map]
  exact Option.attach_map_val envelope.metadataRange (·.slice envelope.value)

/-! The bytes of an envelope are those of its values. -/

@[simp] theorem utf8Bytes_eventType :
    utf8Bytes envelope.eventType = envelope.toPending.eventType.asBytes := rfl

@[simp] theorem payload_eq : envelope.payload = envelope.toPending.payload.asSlice := rfl

@[simp] theorem metadata_eq :
    envelope.metadata = envelope.toPending.metadata.map Metadata.asSlice :=
  envelope.asSlice_metadataValue.symm

end PersistedEnvelope

/-- An encoded frame makes an envelope. -/
theorem tryNew_encodeFrame
    (encoded : encodeFrame schemaVersion eventType payload metadata = .ok frame)
    (version : Version) :
    ∃ envelope,
      PersistedEnvelope.tryNew version frame.value schemaVersion frame.offsets.eventType
        frame.offsets.payload frame.offsets.metadata = .ok envelope ∧
      envelope.toPending = ⟨version, eventType, schemaVersion, payload, metadata⟩ := by
  obtain ⟨typeStart, typeStop, typeSlice⟩ := slice_eventType encoded
  obtain ⟨payloadStart, payloadStop, payloadSlice⟩ := slice_payload encoded
  obtain ⟨metadataInside, metadataSlice⟩ := slice_metadata encoded
  have checked : checkRanges frame.value frame.offsets.eventType frame.offsets.payload
      frame.offsets.metadata = .ok () := by
    refine checkRanges_eq_ok.mpr ⟨⟨typeStart, typeStop⟩, ⟨payloadStart, payloadStop⟩, ?_, ?_, ?_⟩
    · intro range isRange
      obtain ⟨start, stop⟩ := metadataInside range isRange
      rw [isRange, Option.map_some] at metadataSlice
      obtain ⟨value, _, isValue⟩ := Option.map_eq_some_iff.mp metadataSlice.symm
      rw [← isValue]
      exact ⟨⟨start, stop⟩, value.nonempty, value.length_le⟩
    · rw [typeSlice]
      exact eventType.length_le
    · rw [typeSlice]
      exact eventType.utf8
  refine ⟨⟨version, frame.value, schemaVersion, frame.offsets.eventType,
    frame.offsets.payload, frame.offsets.metadata, checked⟩, ?_, ?_⟩
  · unfold PersistedEnvelope.tryNew
    split
    next => rfl
    next error failed => cases checked.symm.trans failed
  · have sameMetadata := Option.map_injective (fun _ _ => Metadata.ext)
      ((PersistedEnvelope.asSlice_metadataValue ⟨version, frame.value, schemaVersion,
        frame.offsets.eventType, frame.offsets.payload, frame.offsets.metadata,
        checked⟩).trans metadataSlice)
    rw [PersistedEnvelope.toPending, sameMetadata]
    congr 1
    · exact EventType.ext typeSlice
    · exact Payload.ext payloadSlice

/-- How many rows a cursor reads at a time. -/
structure BatchSize where
  get : Nat
  positive : 0 < get
  get_le : get ≤ 4096

end Mnesis.Store
