import Mnesis.Store.Decoding
import Mnesis.Store.Persisted

/-!
# Frames that are accepted

Bytes that are accepted consist of the parts of a frame: the leading byte, what
the first layout has before the fields, the fields, the event type, the metadata,
the padding and the payload.  Both layouts have the same parts behind their
fields, so that a frame of the first layout says what a current frame with the
same values says.
-/

namespace Mnesis.Store.Wire

open Foundation Kernel

theorem littleEndian_ofLittleEndian_u32 (four : field.length = 4) :
    littleEndian 4 (UInt32.ofNat (ofLittleEndian field)).toNat = field := by
  have below := ofLittleEndian_lt field
  rw [four] at below
  rw [toNat_ofNat_u32 below, ← four, littleEndian_ofLittleEndian]

theorem FrameHeader.metadataLen_ofFields (format : FrameFormatVersion) (fields : Bytes) :
    (FrameHeader.ofFields format fields).metadataLen =
      if UInt32.ofNat (ofLittleEndian (fields.extract 6 10)) = metaLenAbsent then none
      else some (UInt32.ofNat (ofLittleEndian (fields.extract 6 10))) :=
  rfl

theorem FrameHeader.fields_ofFields {fields : Bytes} (ten : fields.length = 10)
    (format : FrameFormatVersion) :
    (FrameHeader.ofFields format fields).fields = fields := by
  have typeLength : (fields.extract 4 6).length = 2 := length_extract (by omega)
  have typeBelow := ofLittleEndian_lt (fields.extract 4 6)
  rw [typeLength] at typeBelow
  have schemaField : littleEndian 4 (FrameHeader.ofFields format fields).schemaVersion.toNat =
      fields.extract 0 4 :=
    littleEndian_ofLittleEndian_u32 (length_extract (by omega))
  have typeField : littleEndian 2 (FrameHeader.ofFields format fields).eventTypeLen.toNat =
      fields.extract 4 6 := by
    unfold FrameHeader.ofFields
    rw [UInt16.toNat_ofNat_of_lt' typeBelow, ← typeLength, littleEndian_ofLittleEndian]
  have metaField : (FrameHeader.ofFields format fields).metadataLen.getD metaLenAbsent =
      UInt32.ofNat (ofLittleEndian (fields.extract 6 10)) := by
    rw [FrameHeader.metadataLen_ofFields]
    split
    next absent => exact absent.symm
    next => rfl
  rw [FrameHeader.fields, schemaField, typeField, metaField,
    littleEndian_ofLittleEndian_u32 (length_extract (by omega)),
    extract_append_extract (by decide) (by decide), extract_append_extract (by decide) (by decide),
    extract_all ten]

theorem FrameHeader.ofFields_metadataLen_lt {fields : Bytes}
    (present : (FrameHeader.ofFields format fields).metadataLen = some len) :
    len.toNat < 2 ^ 32 - 1 := by
  have bounded := len.toNat_lt
  have different : len.toNat ≠ metaLenAbsent.toNat := by
    intro same
    rw [FrameHeader.metadataLen_ofFields] at present
    split at present
    next => cases present
    next notAbsent =>
      cases present
      exact notAbsent (UInt32.toNat_inj.mp same)
  rw [metaLenAbsent, toNat_ofNat_u32 (by decide)] at different
  omega

/-- The parts of a frame. -/
structure FrameParts where
  formatVersion : FrameFormatVersion
  /-- What stands between the leading byte and the fields. -/
  sequence : Bytes
  schemaVersion : SchemaVersion
  eventType : Bytes
  metadata : Option Bytes
  padding : Bytes
  payload : Bytes
  /-- The first layout has eight bytes before the fields, the current one has none. -/
  length_sequence : sequence.length + headerFixedSize = formatVersion.headerSize
  /-- The lengths fit their fields. -/
  eventType_lt : eventType.length < 2 ^ 16
  metadata_lt : ∀ content, metadata = some content → content.length < 2 ^ 32 - 1
  /-- The payload is aligned. -/
  length_padding : padding.length = alignPadding
    (formatVersion.headerSize + eventType.length + (metadata.map List.length).getD 0) payloadAlign
  /-- All offsets have 32 bits. -/
  total_lt : aligned
    (formatVersion.headerSize + eventType.length + (metadata.map List.length).getD 0) +
      payload.length < 2 ^ 32

namespace FrameParts

variable (parts : FrameParts)

/-- The fixed fields of a frame. -/
def header : FrameHeader :=
  .fromValidatedLengths parts.formatVersion parts.schemaVersion.get parts.eventType.length
    (parts.metadata.map List.length)

/-- Where the padding starts. -/
def contentEnd : Nat :=
  parts.formatVersion.headerSize + parts.eventType.length + (parts.metadata.map List.length).getD 0

/-- What precedes the padding. -/
def content : Bytes :=
  (parts.formatVersion.toU8 :: parts.sequence) ++
    (parts.header.fields ++ (parts.eventType ++ parts.metadata.getD []))

/-- The bytes of a frame. -/
def bytes : Bytes :=
  parts.content ++ (parts.padding ++ parts.payload)

/-- The places of the fields. -/
def offsets : FrameOffsets :=
  .behind parts.formatVersion.headerSize parts.eventType.length
    (parts.metadata.map List.length) parts.bytes.length

theorem length_metadata :
    (parts.metadata.getD []).length = (parts.metadata.map List.length).getD 0 := by
  cases parts.metadata <;> rfl

theorem length_content : parts.content.length = parts.contentEnd := by
  have sequence := parts.length_sequence
  simp only [content, List.length_append, List.length_cons, FrameHeader.length_fields,
    length_metadata]
  unfold headerFixedSize at sequence
  unfold contentEnd
  omega

theorem length_bytes : parts.bytes.length = aligned parts.contentEnd + parts.payload.length := by
  rw [bytes, List.length_append, length_content, List.length_append, parts.length_padding,
    ← Nat.add_assoc]
  rfl

theorem toNat_metadataLen :
    parts.header.metadataLen.map UInt32.toNat = parts.metadata.map List.length := by
  have short := parts.metadata_lt
  unfold header FrameHeader.fromValidatedLengths
  cases isContent : parts.metadata with
  | none => rfl
  | some content =>
    have short := short content isContent
    simp only [Option.map_some]
    rw [toNat_ofNat_u32 (by omega)]

theorem toNat_eventTypeLen : parts.header.eventTypeLen.toNat = parts.eventType.length :=
  UInt16.toNat_ofNat_of_lt' parts.eventType_lt

theorem contentEnd_header : parts.header.contentEnd = parts.contentEnd := by
  rw [FrameHeader.contentEnd, toNat_eventTypeLen, toNat_metadataLen]
  rfl

theorem metadataLen_ne_absent : parts.header.metadataLen ≠ some metaLenAbsent := by
  intro marked
  have lengths := parts.toNat_metadataLen
  rw [marked, Option.map_some] at lengths
  obtain ⟨content, isContent, isLength⟩ := Option.map_eq_some_iff.mp lengths.symm
  have short := parts.metadata_lt content isContent
  rw [isLength, metaLenAbsent, toNat_ofNat_u32 (by decide)] at short
  omega

theorem extract_fields :
    parts.bytes.extract (parts.formatVersion.headerSize - 10) parts.formatVersion.headerSize =
      parts.header.fields := by
  have sequence := parts.length_sequence
  unfold headerFixedSize at sequence
  rw [bytes, content, List.append_assoc, List.append_assoc]
  apply extract_middle
  · rw [List.length_cons]
    omega
  · rw [FrameHeader.length_fields]
    omega

theorem decodeFrame_bytes : decodeFrame parts.bytes = .ok ⟨parts.schemaVersion, parts.offsets⟩ := by
  have enough : parts.formatVersion.headerSize ≤ parts.bytes.length := by
    rw [length_bytes, aligned, contentEnd]
    omega
  have read : FrameHeader.readFrom parts.bytes = .ok parts.header := by
    refine readFrom_eq_ok.mpr ⟨parts.formatVersion, rfl, enough, ?_⟩
    rw [extract_fields]
    exact (FrameHeader.ofFields_fields parts.metadataLen_ne_absent).symm
  refine decodeFrame_eq_ok.mpr ⟨parts.header, read, rfl, ?_⟩
  rw [contentEnd_header, toNat_eventTypeLen, toNat_metadataLen]
  refine ⟨?_, ?_, rfl⟩
  · rw [length_bytes]
    exact parts.total_lt
  · rw [length_bytes]
    exact Nat.le_add_right _ _

/-! The fields are found in their ranges. -/

theorem contentEnd_lt : parts.contentEnd < 2 ^ 32 ∧ aligned parts.contentEnd < 2 ^ 32 ∧
    parts.bytes.length < 2 ^ 32 := by
  have total : aligned parts.contentEnd + parts.payload.length < 2 ^ 32 := parts.total_lt
  have ordered : parts.contentEnd ≤ aligned parts.contentEnd := Nat.le_add_right _ _
  rw [length_bytes]
  omega

theorem eventType_offsets :
    parts.offsets.eventType.start.toNat = parts.formatVersion.headerSize ∧
      parts.offsets.eventType.stop.toNat =
        parts.formatVersion.headerSize + parts.eventType.length := by
  have bounds := parts.contentEnd_lt
  unfold contentEnd at bounds
  exact ⟨toNat_ofNat_u32 (by omega), toNat_ofNat_u32 (by omega)⟩

theorem payload_offsets :
    parts.offsets.payload.start.toNat = aligned parts.contentEnd ∧
      parts.offsets.payload.stop.toNat = parts.bytes.length :=
  ⟨toNat_ofNat_u32 parts.contentEnd_lt.2.1, toNat_ofNat_u32 parts.contentEnd_lt.2.2⟩

theorem slice_eventType : parts.offsets.eventType.slice parts.bytes = parts.eventType := by
  have sequence := parts.length_sequence
  obtain ⟨start, stop⟩ := parts.eventType_offsets
  rw [ByteRange.slice, start, stop, bytes, content, List.append_assoc, List.append_assoc,
    ← List.append_assoc, List.append_assoc parts.eventType]
  apply extract_middle _ rfl
  rw [List.length_append, List.length_cons, FrameHeader.length_fields]
  unfold headerFixedSize at sequence
  omega

theorem slice_payload : parts.offsets.payload.slice parts.bytes = parts.payload := by
  obtain ⟨start, stop⟩ := parts.payload_offsets
  rw [ByteRange.slice, start, stop, length_bytes, bytes, ← List.append_assoc]
  apply extract_last _ rfl
  rw [List.length_append, length_content, parts.length_padding]
  rfl

theorem metadata_offsets {range : ByteRange} (present : parts.offsets.metadata = some range) :
    ∃ content, parts.metadata = some content ∧
      range.start = parts.offsets.eventType.stop ∧
      range.stop.toNat = parts.contentEnd ∧
      range.slice parts.bytes = content := by
  have bounds := parts.contentEnd_lt
  have sequence := parts.length_sequence
  obtain ⟨length, isLength, isRange⟩ := Option.map_eq_some_iff.mp present
  obtain ⟨content, isContent, rfl⟩ := Option.map_eq_some_iff.mp isLength
  have isEnd : parts.formatVersion.headerSize + parts.eventType.length + content.length =
      parts.contentEnd := by
    rw [contentEnd, isContent]
    rfl
  have isBytes : parts.bytes =
      ((parts.formatVersion.toU8 :: parts.sequence) ++ (parts.header.fields ++ parts.eventType)) ++
        (content ++ (parts.padding ++ parts.payload)) := by
    simp only [bytes, FrameParts.content, isContent, Option.getD_some, List.append_assoc]
  subst isRange
  refine ⟨content, isContent, rfl, ?_, ?_⟩
  · rw [isEnd, toNat_ofNat_u32 bounds.1]
  · rw [ByteRange.slice, isEnd, toNat_ofNat_u32 bounds.1, toNat_ofNat_u32 (by omega), isBytes]
    apply extract_middle _ isEnd
    simp only [List.length_append, List.length_cons, FrameHeader.length_fields]
    unfold headerFixedSize at sequence
    omega

theorem slice_metadata : parts.offsets.metadata.map (·.slice parts.bytes) = parts.metadata := by
  cases present : parts.offsets.metadata with
  | none =>
    have absent := Option.map_eq_none_iff.mp (Option.map_eq_none_iff.mp present)
    rw [absent, Option.map_none]
  | some range =>
    obtain ⟨content, isContent, _, _, isSlice⟩ := parts.metadata_offsets present
    rw [isContent, Option.map_some, isSlice]

end FrameParts

theorem FrameHeader.fromValidatedLengths_toNat (header : FrameHeader) :
    FrameHeader.fromValidatedLengths header.formatVersion header.schemaVersion
      header.eventTypeLen.toNat (header.metadataLen.map UInt32.toNat) = header := by
  obtain ⟨format, schema, typeLen, metadataLen⟩ := header
  cases metadataLen <;> simp [FrameHeader.fromValidatedLengths]

/-- The metadata that stands behind an offset. -/
def metadataAt (value : Bytes) (start : Nat) (metadataLen : Option UInt32) : Option Bytes :=
  metadataLen.map fun len => value.extract start (start + len.toNat)

theorem length_metadataAt (inside : start + (metadataLen.map UInt32.toNat).getD 0 ≤ value.length) :
    (metadataAt value start metadataLen).map List.length = metadataLen.map UInt32.toNat := by
  cases metadataLen with
  | none => rfl
  | some len =>
    simp only [metadataAt, Option.map_some, Option.getD_some] at inside ⊢
    rw [length_extract inside, Nat.add_sub_cancel_left]

theorem getD_metadataAt :
    (metadataAt value start metadataLen).getD [] =
      value.extract start (start + (metadataLen.map UInt32.toNat).getD 0) := by
  cases metadataLen with
  | none => simp [metadataAt]
  | some len => rfl

/-- Accepted bytes consist of the parts of a frame. -/
theorem exists_bytes_eq (accepted : decodeFrame value = .ok decoded) :
    ∃ parts : FrameParts, parts.bytes = value := by
  obtain ⟨header, read, isSchema, fits, inside, isOffsets⟩ := decodeFrame_eq_ok.mp accepted
  obtain ⟨format, leading, enough, isHeader⟩ := readFrom_eq_ok.mp read
  have isFormat : format = header.formatVersion := by
    rw [isHeader]
    rfl
  subst isFormat
  have least := header.formatVersion.headerFixedSize_le
  have ordered : header.contentEnd ≤ aligned header.contentEnd := Nat.le_add_right _ _
  have typeInside : header.formatVersion.headerSize + header.eventTypeLen.toNat ≤ value.length :=
    (Nat.le_add_right _ _).trans (ordered.trans inside)
  have typeLength : (value.extract header.formatVersion.headerSize
      (header.formatVersion.headerSize + header.eventTypeLen.toNat)).length =
        header.eventTypeLen.toNat := by
    rw [length_extract typeInside, Nat.add_sub_cancel_left]
  have metadataLength := length_metadataAt (ordered.trans inside)
  have isLeading : value.extract 0 1 = [header.formatVersion.toU8] := by
    cases value with
    | nil => exact absurd (least.trans enough) (by decide)
    | cons first rest => exact congrArg (fun byte => [byte]) leading
  have isFields : value.extract (header.formatVersion.headerSize - 10)
      header.formatVersion.headerSize = header.fields := by
    have fields := congrArg FrameHeader.fields isHeader
    rw [FrameHeader.fields_ofFields] at fields
    · exact fields.symm
    · unfold headerFixedSize at least
      rw [length_extract enough]
      omega
  refine ⟨{
    formatVersion := header.formatVersion
    sequence := value.extract 1 (header.formatVersion.headerSize - 10)
    schemaVersion := decoded.schemaVersion
    eventType := value.extract header.formatVersion.headerSize
      (header.formatVersion.headerSize + header.eventTypeLen.toNat)
    metadata := metadataAt value (header.formatVersion.headerSize + header.eventTypeLen.toNat)
      header.metadataLen
    padding := value.extract header.contentEnd (aligned header.contentEnd)
    payload := value.extract (aligned header.contentEnd) value.length
    length_sequence := ?_
    eventType_lt := ?_
    metadata_lt := ?_
    length_padding := ?_
    total_lt := ?_ }, ?_⟩
  · unfold headerFixedSize at least ⊢
    rw [length_extract (by omega)]
    omega
  · rw [typeLength]
    exact header.eventTypeLen.toNat_lt
  · intro content isContent
    have isLength := congrArg (Option.map List.length) isContent
    rw [metadataLength, Option.map_some] at isLength
    obtain ⟨len, present, sameLength⟩ := Option.map_eq_some_iff.mp isLength
    rw [isHeader] at present
    rw [← sameLength]
    exact FrameHeader.ofFields_metadataLen_lt present
  · rw [typeLength, metadataLength, length_extract inside]
    exact Nat.add_sub_cancel_left _ _
  · rw [typeLength, metadataLength, length_extract (Nat.le_refl _)]
    change aligned header.contentEnd + (value.length - aligned header.contentEnd) < 2 ^ 32
    omega
  · unfold FrameParts.bytes FrameParts.content FrameParts.header
    simp only [typeLength, metadataLength, ← isSchema, FrameHeader.fromValidatedLengths_toNat,
      ← isFields, getD_metadataAt]
    change (header.formatVersion.toU8 :: _) ++ (_ ++ (_ ++ value.extract _ header.contentEnd)) ++
      (_ ++ _) = value
    have typeBefore : header.formatVersion.headerSize + header.eventTypeLen.toNat ≤
        header.contentEnd := Nat.le_add_right _ _
    unfold headerFixedSize at least
    rw [← List.singleton_append, ← isLeading]
    simp (disch := omega) only [extract_append_extract]
    exact extract_all rfl

theorem decodeFrame_iff :
    decodeFrame value = .ok decoded ↔
      ∃ parts : FrameParts, parts.bytes = value ∧
        decoded = ⟨parts.schemaVersion, parts.offsets⟩ := by
  constructor
  · intro accepted
    obtain ⟨parts, rfl⟩ := exists_bytes_eq accepted
    rw [parts.decodeFrame_bytes, Except.ok.injEq] at accepted
    exact ⟨parts, rfl, accepted.symm⟩
  · rintro ⟨parts, rfl, rfl⟩
    exact parts.decodeFrame_bytes

/-- Where the fields of a frame end. -/
def FrameOffsets.contentEnd (offsets : FrameOffsets) : Nat :=
  ((offsets.metadata.map ByteRange.stop).getD offsets.eventType.stop).toNat

theorem FrameParts.contentEnd_offsets (parts : FrameParts) :
    parts.offsets.contentEnd = parts.contentEnd := by
  unfold FrameOffsets.contentEnd
  cases present : parts.offsets.metadata with
  | none =>
    have absent := Option.map_eq_none_iff.mp (Option.map_eq_none_iff.mp present)
    rw [Option.map_none, Option.getD_none, parts.eventType_offsets.2, FrameParts.contentEnd, absent]
    rfl
  | some range =>
    obtain ⟨_, _, _, isEnd, _⟩ := parts.metadata_offsets present
    rw [Option.map_some, Option.getD_some, isEnd]

/-- The ranges of a frame follow one another from the header to the end. -/
structure FrameOffsets.Cover (offsets : FrameOffsets) (format : FrameFormatVersion)
    (value : Bytes) : Prop where
  eventType_start : offsets.eventType.start.toNat = format.headerSize
  metadata_start : ∀ range, offsets.metadata = some range → range.start = offsets.eventType.stop
  payload_start : IsLeast {start | payloadAlign ∣ start ∧ offsets.contentEnd ≤ start}
    offsets.payload.start.toNat
  payload_stop : offsets.payload.stop.toNat = value.length
  eventType_within : offsets.eventType.Within value
  metadata_within : ∀ range, offsets.metadata = some range → range.Within value
  payload_within : offsets.payload.Within value

/-- The ranges of a frame cover it. -/
theorem FrameParts.offsets_cover (parts : FrameParts) :
    parts.offsets.Cover parts.formatVersion parts.bytes := by
  obtain ⟨typeStart, typeStop⟩ := parts.eventType_offsets
  obtain ⟨payloadStart, payloadStop⟩ := parts.payload_offsets
  have before : parts.formatVersion.headerSize + parts.eventType.length ≤ parts.contentEnd :=
    Nat.le_add_right _ _
  have behind : parts.contentEnd ≤ aligned parts.contentEnd := Nat.le_add_right _ _
  have inside : aligned parts.contentEnd ≤ parts.bytes.length := by
    rw [length_bytes]
    exact Nat.le_add_right _ _
  refine ⟨typeStart, ?_, ?_, payloadStop, ⟨?_, ?_⟩, ?_, ⟨?_, ?_⟩⟩
  · intro range present
    obtain ⟨_, _, start, _⟩ := parts.metadata_offsets present
    exact start
  · rw [contentEnd_offsets, payloadStart]
    exact isLeast_aligned parts.contentEnd
  · omega
  · omega
  · intro range present
    obtain ⟨_, _, start, stop, _⟩ := parts.metadata_offsets present
    exact ⟨by rw [start]; omega, by omega⟩
  · omega
  · omega

/-- The bytes of a current frame. -/
def currentFrame (schemaVersion : SchemaVersion) (eventType : Bytes) (metadata : Option Bytes)
    (padding payload : Bytes) : Bytes :=
  (FrameHeader.fromValidatedLengths .current schemaVersion.get eventType.length
    (metadata.map List.length)).bytes ++ (eventType ++ (metadata.getD [] ++ (padding ++ payload)))

/-- A decoded frame finds these values in its bytes. -/
structure DecodedFrame.Finds (decoded : DecodedFrame) (value : Bytes)
    (schemaVersion : SchemaVersion) (eventType : Bytes) (metadata : Option Bytes)
    (payload : Bytes) : Prop where
  schemaVersion : decoded.schemaVersion = schemaVersion
  eventType : decoded.offsets.eventType.slice value = eventType
  metadata : decoded.offsets.metadata.map (·.slice value) = metadata
  payload : decoded.offsets.payload.slice value = payload

namespace FrameParts

variable (parts : FrameParts)

theorem finds :
    DecodedFrame.Finds ⟨parts.schemaVersion, parts.offsets⟩ parts.bytes parts.schemaVersion
      parts.eventType parts.metadata parts.payload :=
  ⟨rfl, parts.slice_eventType, parts.slice_metadata, parts.slice_payload⟩

theorem bytes_eq_currentFrame (current : parts.formatVersion = .v2) :
    parts.bytes = currentFrame parts.schemaVersion parts.eventType parts.metadata parts.padding
      parts.payload := by
  have sequence := parts.length_sequence
  rw [current] at sequence
  have empty : parts.sequence = [] := List.length_eq_zero_iff.mp (Nat.add_eq_right.mp sequence)
  unfold bytes content header currentFrame
  rw [empty, current]
  simp only [FrameHeader.bytes, List.append_assoc, List.cons_append, List.nil_append]
  rfl

/-- The current frame with the values of another frame. -/
def toCurrent (padding : Bytes)
    (length_padding : padding.length = alignPadding
      (headerFixedSize + parts.eventType.length + (parts.metadata.map List.length).getD 0)
      payloadAlign) : FrameParts where
  formatVersion := .v2
  sequence := []
  schemaVersion := parts.schemaVersion
  eventType := parts.eventType
  metadata := parts.metadata
  padding := padding
  payload := parts.payload
  length_sequence := rfl
  eventType_lt := parts.eventType_lt
  metadata_lt := parts.metadata_lt
  length_padding := length_padding
  total_lt := by
    have total := parts.total_lt
    have earlier := aligned_mono (Nat.add_le_add_right (Nat.add_le_add_right
      parts.formatVersion.headerFixedSize_le parts.eventType.length)
      ((parts.metadata.map List.length).getD 0))
    exact Nat.lt_of_le_of_lt (Nat.add_le_add_right earlier _) total

end FrameParts

/-- The current frame with the values of any frame is accepted, whatever its
padding holds. -/
theorem decodeFrame_currentFrame (accepted : decodeFrame value = .ok decoded)
    (found : decoded.Finds value schemaVersion eventType metadata payload)
    (length_padding : padding.length = alignPadding
      (headerFixedSize + eventType.length + (metadata.map List.length).getD 0) payloadAlign) :
    ∃ current,
      decodeFrame (currentFrame schemaVersion eventType metadata padding payload) = .ok current ∧
      current.Finds (currentFrame schemaVersion eventType metadata padding payload) schemaVersion
        eventType metadata payload := by
  obtain ⟨parts, rfl, rfl⟩ := decodeFrame_iff.mp accepted
  obtain ⟨rfl, rfl, rfl, rfl⟩ := found
  rw [parts.slice_eventType, parts.slice_metadata] at length_padding
  have isBytes : (parts.toCurrent padding length_padding).bytes = currentFrame parts.schemaVersion
      parts.eventType parts.metadata padding parts.payload :=
    FrameParts.bytes_eq_currentFrame _ rfl
  dsimp only
  rw [parts.slice_eventType, parts.slice_metadata, parts.slice_payload, ← isBytes]
  exact ⟨_, FrameParts.decodeFrame_bytes _, FrameParts.finds _⟩

/-- The values of an envelope over a current frame are encoded to the same bytes,
but for the padding. -/
theorem encodeFrame_envelope_of_current {parts : FrameParts} (current : parts.formatVersion = .v2)
    (built : PersistedEnvelope.tryNew version parts.bytes parts.schemaVersion
      parts.offsets.eventType parts.offsets.payload parts.offsets.metadata = .ok envelope) :
    ∃ frame,
      encodeFrame envelope.schemaVersion envelope.eventTypeValue envelope.payloadValue
        envelope.metadataValue = .ok frame ∧
      frame.offsets = parts.offsets ∧
      EqualOutside parts.offsets.contentEnd parts.offsets.payload.start.toNat frame.value
        parts.bytes := by
  obtain ⟨_, isValue, isSchema, isType, isPayload, isMetadata⟩ :=
    PersistedEnvelope.tryNew_eq_ok built
  have eventType : envelope.eventTypeValue.asBytes = parts.eventType := by
    change envelope.eventTypeRange.slice envelope.value = _
    rw [isType, isValue, parts.slice_eventType]
  have payload : envelope.payloadValue.asSlice = parts.payload := by
    change envelope.payloadRange.slice envelope.value = _
    rw [isPayload, isValue, parts.slice_payload]
  have metadata : envelope.metadataValue.map Metadata.asSlice = parts.metadata := by
    rw [envelope.asSlice_metadataValue, isMetadata, isValue, parts.slice_metadata]
  have metadataLength : envelope.metadataValue.map (·.asSlice.length) =
      parts.metadata.map List.length := by
    rw [← metadata, Option.map_map]
    rfl
  have before : prePayloadLen parts.eventType.length (parts.metadata.map List.length) =
      parts.contentEnd := by
    rw [FrameParts.contentEnd, current]
    rfl
  have total : frameLen parts.eventType.length (parts.metadata.map List.length)
      parts.payload.length = parts.bytes.length := by
    rw [frameLen, payloadOffset, before, parts.length_bytes]
    rfl
  refine ⟨⟨_, _⟩, encodeFrame_eq_ok.mpr ⟨?_, rfl, rfl⟩, ?_, ?_⟩
  · rw [eventType, metadataLength, payload, total]
    exact parts.contentEnd_lt.2.2
  · rw [eventType, metadataLength, payload, FrameParts.offsets, current, ← total]
    rfl
  · rw [eventType, metadataLength, payload, metadata, isSchema, before,
      parts.bytes_eq_currentFrame current, parts.contentEnd_offsets, parts.payload_offsets.1]
    simp only [currentFrame, ← List.append_assoc]
    rw [List.append_assoc _ _ parts.payload, List.append_assoc _ _ parts.payload]
    apply equalOutside_middle
    · rw [← before]
      simp only [List.length_append, FrameHeader.length_bytes, parts.length_metadata, prePayloadLen]
    · rw [List.length_replicate]
      rfl
    · rw [List.length_replicate, parts.length_padding]
      rfl

/-- Every input is decoded without a panic.  What is accepted has its fields one
behind the other; a frame of the first layout says what a current frame with its
values says, and a current frame is encoded again to the same bytes, but for the
padding. -/
theorem decodeFrame_of_any_bytes (value : Bytes) :
    decodeFrameChecked value = reached (decodeFrame value) ∧
      ∀ decoded, decodeFrame value = .ok decoded →
        ∃ format : FrameFormatVersion, value.head? = some format.toU8 ∧
          decoded.offsets.Cover format value ∧
          (format = .v1 → ∀ schemaVersion eventType metadata payload padding,
            decoded.Finds value schemaVersion eventType metadata payload →
            padding.length = alignPadding
              (headerFixedSize + eventType.length + (metadata.map List.length).getD 0)
              payloadAlign →
            ∃ current,
              decodeFrame (currentFrame schemaVersion eventType metadata padding payload) =
                .ok current ∧
              current.Finds (currentFrame schemaVersion eventType metadata padding payload)
                schemaVersion eventType metadata payload) ∧
          (format = .v2 → ∀ version envelope,
            PersistedEnvelope.tryNew version value decoded.schemaVersion
              decoded.offsets.eventType decoded.offsets.payload decoded.offsets.metadata =
                .ok envelope →
            ∃ frame,
              encodeFrame envelope.schemaVersion envelope.eventTypeValue envelope.payloadValue
                envelope.metadataValue = .ok frame ∧
              frame.offsets = decoded.offsets ∧
              EqualOutside decoded.offsets.contentEnd decoded.offsets.payload.start.toNat
                frame.value value) := by
  refine ⟨decodeFrameChecked_eq value, fun decoded accepted => ?_⟩
  obtain ⟨parts, rfl, rfl⟩ := decodeFrame_iff.mp accepted
  refine ⟨parts.formatVersion, rfl, parts.offsets_cover, fun _ => ?_, fun current => ?_⟩
  · intro schemaVersion eventType metadata payload padding found aligned
    exact decodeFrame_currentFrame accepted found aligned
  · intro version envelope built
    exact encodeFrame_envelope_of_current current built

/-- A frame of the first layout: the event type "a", no metadata, and a payload of
one byte behind twelve bytes of padding. -/
def firstLayoutFrame : Bytes :=
  [1, 0, 0, 0, 0, 0, 0, 0, 9, 1, 0, 0, 0, 1, 0, 255, 255, 255, 255, 97] ++
    (List.replicate 12 0 ++ [7])

/-- A frame of the first layout and the current frame with its values. -/
theorem firstLayoutFrame_is_current :
    ∃ decoded current,
      decodeFrame firstLayoutFrame = .ok decoded ∧
      decodeFrame (currentFrame .initial [97] none (List.replicate 4 0) [7]) = .ok current ∧
      current.Finds (currentFrame .initial [97] none (List.replicate 4 0) [7]) .initial [97] none
        [7] := by
  have accepted : decodeFrame firstLayoutFrame =
      .ok ⟨.initial, ⟨19, 20⟩, none, ⟨32, 33⟩⟩ := by decide
  obtain ⟨format, isFormat, _, first, _⟩ := (decodeFrame_of_any_bytes firstLayoutFrame).2 _ accepted
  have isFirst : format = .v1 := by
    cases format with
    | v1 => rfl
    | v2 => cases isFormat
  obtain ⟨current, decodes, finds⟩ := first isFirst .initial [97] none [7] (List.replicate 4 0)
    ⟨rfl, by decide, by decide, by decide⟩ (by decide)
  exact ⟨_, current, accepted, decodes, finds⟩

end Mnesis.Store.Wire
