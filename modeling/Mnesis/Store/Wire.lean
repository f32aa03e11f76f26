import Mnesis.Kernel.Aggregate
import Mnesis.Store.Envelope

/-!
# Stored frames

A frame holds the values of one event: a fixed header, the event type, the
metadata, zero bytes up to the next multiple of sixteen, and the payload.  An encoded
frame decodes to the byte ranges it was built with, and the envelope over these
ranges holds the values that were encoded.
-/

namespace Mnesis.Store.Wire

open Foundation Kernel

/-- Alignment of a payload in its frame. -/
def payloadAlign : Nat := 16

/-- Size of the current header. -/
def headerFixedSize : Nat := 11

/-- Size of the first header, which had eight more bytes. -/
def headerFixedSizeV1 : Nat := 19

/-- Where the schema version stands in the current header. -/
def schemaVersionOffset : Nat := 1

/-- Where the schema version stands in the first header. -/
def schemaVersionOffsetV1 : Nat := 9

/-- The length that marks absent metadata. -/
def metaLenAbsent : UInt32 := UInt32.ofNat (2 ^ 32 - 1)

/-- How far an offset is from the next multiple of an alignment. -/
def alignPadding (offset align : Nat) : Nat :=
  (align - offset % align) % align

/-- Layouts of a frame. -/
inductive FrameFormatVersion
  | v1
  | v2
  deriving DecidableEq

namespace FrameFormatVersion

/-- The layout of every new frame. -/
def current : FrameFormatVersion := .v2

/-- The leading byte of a layout. -/
def toU8 : FrameFormatVersion → UInt8
  | .v1 => 1
  | .v2 => 2

/-- The layout of a leading byte. -/
def fromU8 (byte : UInt8) : Option FrameFormatVersion :=
  if byte = 1 then some .v1 else if byte = 2 then some .v2 else none

end FrameFormatVersion

/-- Frames that cannot be built. -/
inductive WireError
  | frameLengthOverflow (header padding payload : Nat)
  deriving DecidableEq

/-- Bytes that are no frame. -/
inductive DecodeError
  | valueTooShort (min actual : Nat)
  | unsupportedFrameVersion (version : UInt8)
  | eventTypeTruncated (etLen valueLen : Nat)
  | metadataTruncated (metaLen : UInt32) (valueLen : Nat)
  | offsetOverflow (valueLen : Nat)
  | corruptSchemaVersion
  deriving DecidableEq

/-- A range of bytes of a frame. -/
structure ByteRange where
  start : UInt32
  stop : UInt32
  deriving DecidableEq

/-- The bytes of a range. -/
def ByteRange.slice (range : ByteRange) (value : Bytes) : Bytes :=
  value.extract range.start.toNat range.stop.toNat

/-- Where the fields of a frame are. -/
structure FrameOffsets where
  eventType : ByteRange
  metadata : Option ByteRange
  payload : ByteRange
  deriving DecidableEq

/-- The fixed fields at the start of a frame. -/
structure FrameHeader where
  formatVersion : FrameFormatVersion
  schemaVersion : UInt32
  eventTypeLen : UInt16
  metadataLen : Option UInt32
  deriving DecidableEq

/-- The places of the fields, the padding and the size of a frame. -/
structure FrameLayout where
  offsets : FrameOffsets
  padding : Nat
  total : Nat
  deriving DecidableEq

/-- A built frame. -/
structure EncodedFrame where
  value : Bytes
  offsets : FrameOffsets
  deriving DecidableEq

/-- What a frame was decoded to. -/
structure DecodedFrame where
  schemaVersion : SchemaVersion
  offsets : FrameOffsets
  deriving DecidableEq

/-- A header for lengths that fit its fields. -/
def FrameHeader.fromValidatedLengths (formatVersion : FrameFormatVersion) (schemaVersion : UInt32)
    (eventTypeLen : Nat) (metadataLen : Option Nat) : FrameHeader where
  formatVersion
  schemaVersion
  eventTypeLen := UInt16.ofNat eventTypeLen
  metadataLen := metadataLen.map UInt32.ofNat

/-- The bytes of a header behind its leading byte. -/
def FrameHeader.fields (header : FrameHeader) : Bytes :=
  littleEndian 4 header.schemaVersion.toNat ++
    (littleEndian 2 header.eventTypeLen.toNat ++
      littleEndian 4 (header.metadataLen.getD metaLenAbsent).toNat)

/-- The bytes of a header. -/
def FrameHeader.bytes (header : FrameHeader) : Bytes :=
  header.formatVersion.toU8 :: header.fields

/-- The range of the metadata behind the event type. -/
def metadataRange (overflow : WireError) (eventTypeEnd : UInt32) :
    Option Nat → Except WireError (Option ByteRange)
  | none => return none
  | some len => do
    let len ← okOr (toU32 len) overflow
    let stop ← okOr (toU32 (eventTypeEnd.toNat + len.toNat)) overflow
    return some ⟨eventTypeEnd, stop⟩

/-- The layout of a frame for the lengths of its fields. -/
def FrameLayout.computeFromValidatedLengths (eventTypeLen : Nat) (metadataLen : Option Nat)
    (payloadLen : Nat) : Except WireError FrameLayout := do
  let metaLen := metadataLen.getD 0
  let prePayloadLen ← okOr
    (do narrow usizeLimit ((← narrow usizeLimit (headerFixedSize + eventTypeLen)) + metaLen))
    (.frameLengthOverflow headerFixedSize 0 payloadLen)
  let padding := alignPadding prePayloadLen payloadAlign
  let overflow := WireError.frameLengthOverflow prePayloadLen padding payloadLen
  let total ← okOr
    (do narrow usizeLimit ((← narrow usizeLimit (prePayloadLen + padding)) + payloadLen))
    overflow
  let eventTypeStart ← okOr (toU32 headerFixedSize) overflow
  let eventTypeLen ← okOr (toU32 eventTypeLen) overflow
  let eventTypeEnd ← okOr (toU32 (eventTypeStart.toNat + eventTypeLen.toNat)) overflow
  let metadata ← metadataRange overflow eventTypeEnd metadataLen
  let payloadStart ← okOr (narrow usizeLimit (prePayloadLen + padding)) overflow
  let payloadStart ← okOr (toU32 payloadStart) overflow
  let payloadLen ← okOr (toU32 payloadLen) overflow
  let payloadEnd ← okOr (toU32 (payloadStart.toNat + payloadLen.toNat)) overflow
  return {
    offsets := {
      eventType := ⟨eventTypeStart, eventTypeEnd⟩
      metadata
      payload := ⟨payloadStart, payloadEnd⟩ }
    padding
    total }

/-- Build a frame. -/
def encodeFrame (schemaVersion : SchemaVersion) (eventType : EventType) (payload : Payload)
    (metadata : Option Metadata) : Except WireError EncodedFrame := do
  let metadataBytes := metadata.map Metadata.asSlice
  let layout ← FrameLayout.computeFromValidatedLengths eventType.asBytes.length
    (metadataBytes.map List.length) payload.asSlice.length
  let header := FrameHeader.fromValidatedLengths .current schemaVersion.get
    eventType.asBytes.length (metadataBytes.map List.length)
  return {
    value := header.bytes ++ (eventType.asBytes ++ (metadataBytes.getD [] ++
      (List.replicate layout.padding 0 ++ payload.asSlice)))
    offsets := layout.offsets }

/-- Size of what stands before the padding. -/
def prePayloadLen (eventTypeLen : Nat) (metadataLen : Option Nat) : Nat :=
  headerFixedSize + eventTypeLen + metadataLen.getD 0

/-- Where the payload starts. -/
def payloadOffset (eventTypeLen : Nat) (metadataLen : Option Nat) : Nat :=
  prePayloadLen eventTypeLen metadataLen +
    alignPadding (prePayloadLen eventTypeLen metadataLen) payloadAlign

/-- Size of a frame. -/
def frameLen (eventTypeLen : Nat) (metadataLen : Option Nat) (payloadLen : Nat) : Nat :=
  payloadOffset eventTypeLen metadataLen + payloadLen

/-- The layout of a frame that is not too long. -/
def FrameLayout.of (eventTypeLen : Nat) (metadataLen : Option Nat)
    (payloadLen : Nat) : FrameLayout where
  offsets := {
    eventType := ⟨UInt32.ofNat headerFixedSize, UInt32.ofNat (headerFixedSize + eventTypeLen)⟩
    metadata := metadataLen.map fun len =>
      ⟨UInt32.ofNat (headerFixedSize + eventTypeLen),
        UInt32.ofNat (headerFixedSize + eventTypeLen + len)⟩
    payload := ⟨UInt32.ofNat (payloadOffset eventTypeLen metadataLen),
      UInt32.ofNat (frameLen eventTypeLen metadataLen payloadLen)⟩ }
  padding := alignPadding (prePayloadLen eventTypeLen metadataLen) payloadAlign
  total := frameLen eventTypeLen metadataLen payloadLen

theorem payloadOffset_le_frameLen (eventTypeLen payloadLen : Nat) (metadataLen : Option Nat) :
    headerFixedSize + eventTypeLen + metadataLen.getD 0 ≤ payloadOffset eventTypeLen metadataLen ∧
      payloadOffset eventTypeLen metadataLen ≤ frameLen eventTypeLen metadataLen payloadLen ∧
      payloadLen ≤ frameLen eventTypeLen metadataLen payloadLen :=
  ⟨Nat.le_add_right _ _, Nat.le_add_right _ _, Nat.le_add_left _ _⟩

theorem computeFromValidatedLengths_of_lt
    (fits : frameLen eventTypeLen metadataLen payloadLen < 2 ^ 32) :
    FrameLayout.computeFromValidatedLengths eventTypeLen metadataLen payloadLen =
      .ok (FrameLayout.of eventTypeLen metadataLen payloadLen) := by
  obtain ⟨beforePadding, offsetLe, payloadLe⟩ :=
    payloadOffset_le_frameLen eventTypeLen payloadLen metadataLen
  unfold FrameLayout.computeFromValidatedLengths FrameLayout.of
  unfold frameLen payloadOffset prePayloadLen at *
  unfold headerFixedSize usizeLimit at *
  cases metadataLen with
  | none =>
    simp only [Option.getD_none, Option.map_none] at *
    simp (disch := omega) only [metadataRange, narrow_of_lt, toU32_of_lt, Option.bind_eq_bind,
      Option.bind_some, okOr_some,
      ok_bind, pure_eq_ok, toNat_ofNat_u32]
  | some len =>
    simp only [Option.getD_some, Option.map_some] at *
    simp (disch := omega) only [metadataRange, narrow_of_lt, toU32_of_lt, Option.bind_eq_bind,
      Option.bind_some, okOr_some,
      ok_bind, pure_eq_ok, toNat_ofNat_u32]

theorem frameLen_lt_of_compute
    (computed : FrameLayout.computeFromValidatedLengths eventTypeLen metadataLen
      payloadLen = .ok layout) :
    frameLen eventTypeLen metadataLen payloadLen < 2 ^ 32 := by
  simp only [FrameLayout.computeFromValidatedLengths, bind_eq_ok, okOr_eq_ok,
    Option.bind_eq_bind, Option.bind_eq_some_iff, narrow_eq_some, toU32_eq_some] at computed
  obtain ⟨_, ⟨_, ⟨_, rfl⟩, _, rfl⟩, _, _, _, _, _, _, _, _, _, _, _, ⟨_, rfl⟩, _, isStart,
    _, isLen, stop, isStop, _⟩ := computed
  rw [isStart, isLen] at isStop
  rw [frameLen, payloadOffset, prePayloadLen, ← isStop]
  exact stop.toNat_lt

/-- An encoded frame, byte for byte. -/
theorem encodeFrame_eq_ok :
    encodeFrame schemaVersion eventType payload metadata = .ok frame ↔
      frameLen eventType.asBytes.length (metadata.map (·.asSlice.length))
          payload.asSlice.length < 2 ^ 32 ∧
        frame.offsets = (FrameLayout.of eventType.asBytes.length
          (metadata.map (·.asSlice.length)) payload.asSlice.length).offsets ∧
        frame.value =
          (FrameHeader.fromValidatedLengths .current schemaVersion.get
            eventType.asBytes.length (metadata.map (·.asSlice.length))).bytes ++
          (eventType.asBytes ++ ((metadata.map Metadata.asSlice).getD [] ++
            (List.replicate (alignPadding (prePayloadLen eventType.asBytes.length
              (metadata.map (·.asSlice.length))) payloadAlign) 0 ++ payload.asSlice))) := by
  simp only [encodeFrame, bind_eq_ok, pure_eq_ok, Except.ok.injEq, Option.map_map]
  constructor
  · rintro ⟨layout, computed, rfl⟩
    have fits := frameLen_lt_of_compute computed
    rw [computeFromValidatedLengths_of_lt fits] at computed
    cases computed
    exact ⟨fits, rfl, rfl⟩
  · rintro ⟨fits, sameOffsets, sameValue⟩
    refine ⟨_, computeFromValidatedLengths_of_lt fits, ?_⟩
    cases frame
    cases sameOffsets
    cases sameValue
    rfl

/-- Size of the frame of an envelope. -/
def envelopeLen (envelope : PendingEnvelope) : Nat :=
  frameLen envelope.eventType.asBytes.length
    (envelope.metadata.map (·.asSlice.length)) envelope.payload.asSlice.length

/-- The frame of an envelope that is not too long. -/
def frameOf (envelope : PendingEnvelope) : EncodedFrame :=
  let typeLen := envelope.eventType.asBytes.length
  let metadataLen := envelope.metadata.map (·.asSlice.length)
  { value :=
      (FrameHeader.fromValidatedLengths .current envelope.schemaVersion.get typeLen
        metadataLen).bytes ++
      (envelope.eventType.asBytes ++ ((envelope.metadata.map Metadata.asSlice).getD [] ++
        (List.replicate (alignPadding (prePayloadLen typeLen metadataLen) payloadAlign) 0 ++
          envelope.payload.asSlice)))
    offsets := (FrameLayout.of typeLen metadataLen envelope.payload.asSlice.length).offsets }

theorem encodeFrame_envelope {envelope : PendingEnvelope} {frame : EncodedFrame} :
    encodeFrame envelope.schemaVersion envelope.eventType envelope.payload
        envelope.metadata = .ok frame ↔
      envelopeLen envelope < 2 ^ 32 ∧ frameOf envelope = frame := by
  rw [encodeFrame_eq_ok]
  refine and_congr_right fun _ => ⟨?_, ?_⟩
  · rintro ⟨sameOffsets, sameValue⟩
    cases frame
    cases sameOffsets
    cases sameValue
    rfl
  · rintro rfl
    exact ⟨rfl, rfl⟩

/-- A header from the bytes behind its leading byte. -/
def FrameHeader.ofFields (formatVersion : FrameFormatVersion) (fields : Bytes) : FrameHeader :=
  let metaField := UInt32.ofNat (ofLittleEndian (fields.extract 6 10))
  { formatVersion
    schemaVersion := UInt32.ofNat (ofLittleEndian (fields.extract 0 4))
    eventTypeLen := UInt16.ofNat (ofLittleEndian (fields.extract 4 6))
    metadataLen := if metaField = metaLenAbsent then none else some metaField }

/-- Read the header at the start of a frame. -/
def FrameHeader.readFrom (value : Bytes) : Except DecodeError FrameHeader := do
  rejectIf (value.length < headerFixedSize) (.valueTooShort headerFixedSize value.length)
  let versionByte := value.headD 0
  let formatVersion ← okOr (FrameFormatVersion.fromU8 versionByte)
    (.unsupportedFrameVersion versionByte)
  let (schemaOff, minimum) := match formatVersion with
    | .v1 => (schemaVersionOffsetV1, headerFixedSizeV1)
    | .v2 => (schemaVersionOffset, headerFixedSize)
  rejectIf (value.length < schemaOff + 10) (.valueTooShort minimum value.length)
  return .ofFields formatVersion (value.extract schemaOff (schemaOff + 10))

/-- The range of the metadata behind the event type, and where it ends. -/
def decodeMetadata (value : Bytes) (etEnd : Nat) :
    Option UInt32 → Except DecodeError (Option ByteRange × Nat)
  | none => return (none, etEnd)
  | some metaLen => do
    let overflow := DecodeError.offsetOverflow value.length
    let metaLenUsize ← okOr (narrow usizeLimit metaLen.toNat) overflow
    let metaEnd ← okOr (narrow usizeLimit (etEnd + metaLenUsize)) overflow
    rejectIf (value.length < metaEnd) (.metadataTruncated metaLen value.length)
    let start ← okOr (toU32 etEnd) overflow
    let stop ← okOr (toU32 metaEnd) overflow
    return (some ⟨start, stop⟩, metaEnd)

/-- Find the fields behind a header. -/
def decodeFrameBody (value : Bytes) (header : FrameHeader)
    (headerSize : Nat) : Except DecodeError DecodedFrame := do
  let overflow := DecodeError.offsetOverflow value.length
  let schemaVersion ← (SchemaVersion.fromU32 header.schemaVersion).mapError
    fun _ => .corruptSchemaVersion
  let etLen := header.eventTypeLen.toNat
  let etStart := headerSize
  let etEnd ← okOr (narrow usizeLimit (etStart + etLen)) overflow
  rejectIf (value.length < etEnd) (.eventTypeTruncated etLen value.length)
  let (metadata, postMeta) ← decodeMetadata value etEnd header.metadataLen
  let padding := alignPadding postMeta payloadAlign
  let payloadStart ← okOr (narrow usizeLimit (postMeta + padding)) overflow
  let payloadEnd := value.length
  rejectIf (payloadEnd < payloadStart) overflow
  let etStart ← okOr (toU32 etStart) overflow
  let etEnd ← okOr (toU32 etEnd) overflow
  let payloadStart ← okOr (toU32 payloadStart) overflow
  let payloadEnd ← okOr (toU32 payloadEnd) overflow
  return {
    schemaVersion
    offsets := {
      eventType := ⟨etStart, etEnd⟩
      metadata
      payload := ⟨payloadStart, payloadEnd⟩ } }

/-- Decode a frame of either layout. -/
def decodeFrame (value : Bytes) : Except DecodeError DecodedFrame := do
  let header ← FrameHeader.readFrom value
  let headerSize := match header.formatVersion with
    | .v1 => headerFixedSizeV1
    | .v2 => headerFixedSize
  decodeFrameBody value header headerSize

theorem FrameHeader.length_fields (header : FrameHeader) : header.fields.length = 10 := by
  simp only [FrameHeader.fields, List.length_append, length_littleEndian]

@[simp] theorem FrameHeader.length_bytes (header : FrameHeader) :
    header.bytes.length = headerFixedSize := by
  rw [FrameHeader.bytes, List.length_cons, FrameHeader.length_fields, headerFixedSize]

theorem FrameHeader.ofFields_fields (unmarked : header.metadataLen ≠ some metaLenAbsent) :
    FrameHeader.ofFields header.formatVersion header.fields = header := by
  have schemaField : header.fields.extract 0 4 = littleEndian 4 header.schemaVersion.toNat :=
    extract_first (length_littleEndian _ _)
  have typeField : header.fields.extract 4 6 = littleEndian 2 header.eventTypeLen.toNat :=
    extract_middle (length_littleEndian _ _) (by rw [length_littleEndian])
  have metaField : header.fields.extract 6 10 =
      littleEndian 4 (header.metadataLen.getD metaLenAbsent).toNat := by
    rw [FrameHeader.fields, ← List.append_assoc]
    refine extract_last ?_ ?_
    · simp only [List.length_append, length_littleEndian]
    · rw [length_littleEndian]
  rw [FrameHeader.ofFields, schemaField, typeField, metaField,
    ofLittleEndian_littleEndian header.schemaVersion.toNat_lt,
    ofLittleEndian_littleEndian header.eventTypeLen.toNat_lt,
    ofLittleEndian_littleEndian (UInt32.toNat_lt _), UInt32.ofNat_toNat,
    UInt32.ofNat_toNat, UInt16.ofNat_toNat]
  obtain ⟨formatVersion, schemaVersion, eventTypeLen, metadataLen⟩ := header
  cases metadataLen with
  | none => rfl
  | some len =>
    have different : len ≠ metaLenAbsent := fun same => unmarked (congrArg some same)
    simp only [Option.getD_some, if_neg different]

theorem readFrom_bytes (current : header.formatVersion = .current)
    (unmarked : header.metadataLen ≠ some metaLenAbsent) (rest : Bytes) :
    FrameHeader.readFrom (header.bytes ++ rest) = .ok header := by
  have enough : ¬ (header.bytes ++ rest).length < headerFixedSize := by
    rw [List.length_append, FrameHeader.length_bytes]
    omega
  have version : FrameFormatVersion.fromU8 ((header.bytes ++ rest).headD 0) =
      some header.formatVersion := by
    rw [current]
    change FrameFormatVersion.fromU8 header.formatVersion.toU8 = _
    rw [current]
    rfl
  have fields : (header.bytes ++ rest).extract 1 11 = header.fields := by
    rw [FrameHeader.bytes, List.cons_append, ← List.singleton_append]
    exact extract_middle rfl (congrArg (1 + ·) header.length_fields)
  simp only [FrameHeader.readFrom, rejectIf_of_not _ enough, ok_bind, version, okOr_some]
  rw [current]
  change (rejectIf ((header.bytes ++ rest).length < headerFixedSize) _ >>= fun _ =>
    Except.ok (FrameHeader.ofFields .current ((header.bytes ++ rest).extract 1 11))) = _
  rw [rejectIf_of_not _ enough, ok_bind, fields, ← current, FrameHeader.ofFields_fields unmarked]

theorem decodeMetadata_of_layout
    (size : value.length = frameLen eventTypeLen metadataLen payloadLen)
    (fits : frameLen eventTypeLen metadataLen payloadLen < 2 ^ 32) :
    decodeMetadata value (headerFixedSize + eventTypeLen) (metadataLen.map UInt32.ofNat) =
      .ok ((FrameLayout.of eventTypeLen metadataLen payloadLen).offsets.metadata,
        prePayloadLen eventTypeLen metadataLen) := by
  obtain ⟨beforePadding, offsetLe, payloadLe⟩ :=
    payloadOffset_le_frameLen eventTypeLen payloadLen metadataLen
  cases metadataLen with
  | none => rfl
  | some len =>
    rw [Option.getD_some] at beforePadding
    simp only [Option.map_some, decodeMetadata, FrameLayout.of, prePayloadLen,
      Option.getD_some, usizeLimit]
    simp (disch := omega) only [toNat_ofNat_u32, narrow_of_lt, toU32_of_lt,
      rejectIf_of_not, okOr_some, ok_bind, pure_eq_ok]

/-- The fields of a frame are found where its layout put them. -/
theorem decodeFrameBody_of_layout (narrowType : eventTypeLen < 2 ^ 16)
    (size : value.length = frameLen eventTypeLen metadataLen payloadLen)
    (fits : frameLen eventTypeLen metadataLen payloadLen < 2 ^ 32) :
    decodeFrameBody value
        (.fromValidatedLengths .current schemaVersion.get eventTypeLen metadataLen)
        headerFixedSize =
      .ok ⟨schemaVersion, (FrameLayout.of eventTypeLen metadataLen payloadLen).offsets⟩ := by
  obtain ⟨beforePadding, offsetLe, payloadLe⟩ :=
    payloadOffset_le_frameLen eventTypeLen payloadLen metadataLen
  have sameType : (UInt16.ofNat eventTypeLen).toNat = eventTypeLen :=
    UInt16.toNat_ofNat_of_lt' narrowType
  have offset : prePayloadLen eventTypeLen metadataLen +
      alignPadding (prePayloadLen eventTypeLen metadataLen) payloadAlign =
        payloadOffset eventTypeLen metadataLen := rfl
  simp only [decodeFrameBody, FrameHeader.fromValidatedLengths, SchemaVersion.fromU32_get,
    mapError_ok, ok_bind, sameType, usizeLimit]
  rw [narrow_of_lt (by omega), okOr_some, ok_bind, rejectIf_of_not _ (by omega), ok_bind,
    decodeMetadata_of_layout size fits, ok_bind]
  simp (disch := omega) only [offset, narrow_of_lt, toU32_of_lt, rejectIf_of_not, okOr_some,
    ok_bind, pure_eq_ok, FrameLayout.of, size]

section Encoded

section

variable (encoded : encodeFrame schemaVersion eventType payload metadata = .ok frame)
include encoded

theorem length_encodeFrame :
    frame.value.length = frameLen eventType.asBytes.length
      (metadata.map (·.asSlice.length)) payload.asSlice.length := by
  obtain ⟨_, _, sameValue⟩ := encodeFrame_eq_ok.mp encoded
  rw [sameValue]
  simp only [List.length_append, FrameHeader.length_bytes, List.length_replicate,
    frameLen, payloadOffset, prePayloadLen]
  cases metadata with
  | none =>
    simp only [Option.map_none, Option.getD_none, List.length_nil]
    omega
  | some metadata =>
    simp only [Option.map_some, Option.getD_some]
    omega

/-- An encoded frame is decoded to its offsets. -/
theorem decodeFrame_encodeFrame : decodeFrame frame.value = .ok ⟨schemaVersion, frame.offsets⟩ := by
  obtain ⟨fits, sameOffsets, sameValue⟩ := encodeFrame_eq_ok.mp encoded
  have unmarked : (metadata.map (·.asSlice.length)).map UInt32.ofNat ≠ some metaLenAbsent := by
    cases metadata with
    | none => simp
    | some metadata =>
      intro marked
      have bound : metadata.asSlice.length ≤ 2 ^ 32 - 2 := metadata.length_le
      have lengths : (UInt32.ofNat metadata.asSlice.length).toNat =
          (UInt32.ofNat (2 ^ 32 - 1)).toNat :=
        congrArg UInt32.toNat (Option.some.inj marked)
      rw [toNat_ofNat_u32 (by omega), toNat_ofNat_u32 (by decide)] at lengths
      omega
  have narrowType : eventType.asBytes.length < 2 ^ 16 := by
    have bound := eventType.length_le
    simp only [maxEventTypeLen] at bound
    omega
  have readBack : FrameHeader.readFrom frame.value = .ok (.fromValidatedLengths .current
      schemaVersion.get eventType.asBytes.length (metadata.map (·.asSlice.length))) := by
    rw [sameValue]
    exact readFrom_bytes rfl unmarked _
  rw [decodeFrame, readBack, ok_bind, sameOffsets]
  exact decodeFrameBody_of_layout narrowType (length_encodeFrame encoded) fits

theorem slice_eventType :
    frame.offsets.eventType.start.toNat ≤ frame.offsets.eventType.stop.toNat ∧
      frame.offsets.eventType.stop.toNat ≤ frame.value.length ∧
      frame.offsets.eventType.slice frame.value = eventType.asBytes := by
  have size := length_encodeFrame encoded
  obtain ⟨fits, sameOffsets, sameValue⟩ := encodeFrame_eq_ok.mp encoded
  obtain ⟨beforePadding, offsetLe, _⟩ := payloadOffset_le_frameLen
    eventType.asBytes.length payload.asSlice.length (metadata.map (·.asSlice.length))
  rw [ByteRange.slice, sameOffsets, FrameLayout.of, toNat_ofNat_u32 (by decide),
    toNat_ofNat_u32 (by omega)]
  refine ⟨by omega, by omega, ?_⟩
  rw [sameValue]
  exact extract_middle (FrameHeader.length_bytes _) rfl

theorem slice_payload :
    frame.offsets.payload.start.toNat ≤ frame.offsets.payload.stop.toNat ∧
      frame.offsets.payload.stop.toNat ≤ frame.value.length ∧
      frame.offsets.payload.slice frame.value = payload.asSlice := by
  have size := length_encodeFrame encoded
  obtain ⟨fits, sameOffsets, sameValue⟩ := encodeFrame_eq_ok.mp encoded
  obtain ⟨beforePadding, offsetLe, _⟩ := payloadOffset_le_frameLen
    eventType.asBytes.length payload.asSlice.length (metadata.map (·.asSlice.length))
  rw [ByteRange.slice, sameOffsets, FrameLayout.of, toNat_ofNat_u32 (by omega),
    toNat_ofNat_u32 fits]
  refine ⟨offsetLe, by omega, ?_⟩
  rw [sameValue, ← List.append_assoc, ← List.append_assoc, ← List.append_assoc]
  refine extract_last ?_ rfl
  simp only [List.length_append, FrameHeader.length_bytes, List.length_replicate,
    payloadOffset, prePayloadLen]
  cases metadata <;> rfl

theorem slice_metadata :
    (∀ range, frame.offsets.metadata = some range →
      range.start.toNat ≤ range.stop.toNat ∧ range.stop.toNat ≤ frame.value.length) ∧
    frame.offsets.metadata.map (·.slice frame.value) = metadata.map Metadata.asSlice := by
  have size := length_encodeFrame encoded
  obtain ⟨fits, sameOffsets, sameValue⟩ := encodeFrame_eq_ok.mp encoded
  obtain ⟨beforePadding, offsetLe, _⟩ := payloadOffset_le_frameLen
    eventType.asBytes.length payload.asSlice.length (metadata.map (·.asSlice.length))
  rw [sameOffsets]
  cases metadata with
  | none => simp [FrameLayout.of]
  | some metadata =>
    simp only [Option.map_some, Option.getD_some] at beforePadding offsetLe fits size
    simp only [FrameLayout.of, Option.map_some, Option.some.injEq, forall_eq', ByteRange.slice]
    rw [toNat_ofNat_u32 (by omega), toNat_ofNat_u32 (by omega)]
    refine ⟨⟨by omega, by omega⟩, ?_⟩
    rw [sameValue, ← List.append_assoc]
    refine extract_middle ?_ rfl
    rw [List.length_append, FrameHeader.length_bytes]

end

end Encoded

theorem payloadAlign_dvd_payloadOffset (eventTypeLen : Nat) (metadataLen : Option Nat) :
    payloadAlign ∣ payloadOffset eventTypeLen metadataLen := by
  unfold payloadOffset alignPadding payloadAlign
  omega

/-- A frame decodes to the ranges it was built with, and these hold the values
that were encoded. -/
structure EncodedFrame.Holds (frame : EncodedFrame) (schemaVersion : SchemaVersion)
    (eventType : EventType) (payload : Payload) (metadata : Option Metadata) : Prop where
  decodes : decodeFrame frame.value = .ok ⟨schemaVersion, frame.offsets⟩
  eventType : frame.offsets.eventType.slice frame.value = eventType.asBytes
  payload : frame.offsets.payload.slice frame.value = payload.asSlice
  metadata : frame.offsets.metadata.map (·.slice frame.value) = metadata.map Metadata.asSlice
  aligned : payloadAlign ∣ frame.offsets.payload.start.toNat

/-- A frame is built exactly when its parts together have less than 4 GiB, and
every frame that is built holds its values. -/
theorem encodeFrame_round_trips (schemaVersion : SchemaVersion) (eventType : EventType)
    (payload : Payload) (metadata : Option Metadata) :
    let before := headerFixedSize + eventType.asBytes.length +
      (metadata.map (·.asSlice.length)).getD 0
    ((∃ frame, encodeFrame schemaVersion eventType payload metadata = .ok frame) ↔
        before + alignPadding before payloadAlign + payload.asSlice.length ≤ 2 ^ 32 - 1) ∧
      ∀ frame, encodeFrame schemaVersion eventType payload metadata = .ok frame →
        frame.Holds schemaVersion eventType payload metadata := by
  intro before
  constructor
  · have fits : frameLen eventType.asBytes.length (metadata.map (·.asSlice.length))
        payload.asSlice.length < 2 ^ 32 ↔
          before + alignPadding before payloadAlign + payload.asSlice.length ≤ 2 ^ 32 - 1 :=
      Nat.lt_iff_le_pred (by decide)
    rw [← fits]
    constructor
    · rintro ⟨frame, encoded⟩
      exact (encodeFrame_eq_ok.mp encoded).1
    · intro short
      exact ⟨⟨_, _⟩, encodeFrame_eq_ok.mpr ⟨short, rfl, rfl⟩⟩
  · intro frame encoded
    refine ⟨decodeFrame_encodeFrame encoded, (slice_eventType encoded).2.2,
      (slice_payload encoded).2.2, (slice_metadata encoded).2, ?_⟩
    obtain ⟨fits, sameOffsets, _⟩ := encodeFrame_eq_ok.mp encoded
    have offsetLe := (payloadOffset_le_frameLen eventType.asBytes.length
      payload.asSlice.length (metadata.map (·.asSlice.length))).2.1
    have start : frame.offsets.payload.start.toNat =
        payloadOffset eventType.asBytes.length (metadata.map (·.asSlice.length)) := by
      rw [sameOffsets]
      exact toNat_ofNat_u32 (by omega)
    rw [start]
    apply payloadAlign_dvd_payloadOffset

/-- The frame of an event with a payload of one byte. -/
theorem small_frame_holds :
    ∃ frame, encodeFrame .initial (.fromStaticStr "opened" (by decide)) ⟨[7], by decide⟩
        none = .ok frame ∧
      frame.Holds .initial (.fromStaticStr "opened" (by decide)) ⟨[7], by decide⟩ none := by
  obtain ⟨exactly, holds⟩ := encodeFrame_round_trips .initial
    (.fromStaticStr "opened" (by decide)) ⟨[7], by decide⟩ none
  obtain ⟨frame, encoded⟩ := exactly.mpr (by decide)
  exact ⟨frame, encoded, holds frame encoded⟩

end Mnesis.Store.Wire
