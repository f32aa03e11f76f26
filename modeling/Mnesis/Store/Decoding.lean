import Mathlib.Order.Bounds.Defs
import Mnesis.Store.Wire

/-!
# Decoding any bytes

A decoder is given any bytes.  None of its operations panics, and it accepts the
bytes exactly if they begin with the header of a known layout and have room for
the fields the header tells of.
-/

namespace Mnesis.Store.Wire

open Foundation Kernel

/-- The rest of a division, which needs a divisor. -/
def checkedRem (value divisor : Nat) : Option Nat :=
  if divisor = 0 then none else some (value % divisor)

/-- A difference of sizes, which must not be negative. -/
def checkedDiff (left right : Nat) : Option Nat :=
  if right ≤ left then some (left - right) else none

/-- `alignPadding` with the operations that can panic. -/
def alignPaddingChecked (offset align : Nat) : Option Nat := do
  let rest ← checkedRem offset align
  let missing ← checkedDiff align rest
  checkedRem missing align

/-- A result that is reached without a panic. -/
def reached {ε α : Type} (result : Except ε α) : ExceptT ε Option α :=
  ExceptT.mk (some result)

/-- `FrameHeader.readFrom` with the operations that can panic. -/
def FrameHeader.readFromChecked (value : Bytes) : ExceptT DecodeError Option FrameHeader := do
  reached (rejectIf (value.length < headerFixedSize) (.valueTooShort headerFixedSize value.length))
  let versionByte ← ExceptT.lift value[0]?
  let formatVersion ← reached (okOr (FrameFormatVersion.fromU8 versionByte)
    (.unsupportedFrameVersion versionByte))
  let (schemaOff, minimum) := match formatVersion with
    | .v1 => (schemaVersionOffsetV1, headerFixedSizeV1)
    | .v2 => (schemaVersionOffset, headerFixedSize)
  reached (rejectIf (value.length < schemaOff + 10) (.valueTooShort minimum value.length))
  return .ofFields formatVersion (value.extract schemaOff (schemaOff + 10))

/-- `decodeFrameBody` with the operations that can panic. -/
def decodeFrameBodyChecked (value : Bytes) (header : FrameHeader)
    (headerSize : Nat) : ExceptT DecodeError Option DecodedFrame := do
  let overflow := DecodeError.offsetOverflow value.length
  let schemaVersion ← reached ((SchemaVersion.fromU32 header.schemaVersion).mapError
    fun _ => .corruptSchemaVersion)
  let etLen := header.eventTypeLen.toNat
  let etStart := headerSize
  let etEnd ← reached (okOr (narrow usizeLimit (etStart + etLen)) overflow)
  reached (rejectIf (value.length < etEnd) (.eventTypeTruncated etLen value.length))
  let (metadata, postMeta) ← reached (decodeMetadata value etEnd header.metadataLen)
  let padding ← ExceptT.lift (alignPaddingChecked postMeta payloadAlign)
  let payloadStart ← reached (okOr (narrow usizeLimit (postMeta + padding)) overflow)
  let payloadEnd := value.length
  reached (rejectIf (payloadEnd < payloadStart) overflow)
  let etStart ← reached (okOr (toU32 etStart) overflow)
  let etEnd ← reached (okOr (toU32 etEnd) overflow)
  let payloadStart ← reached (okOr (toU32 payloadStart) overflow)
  let payloadEnd ← reached (okOr (toU32 payloadEnd) overflow)
  return {
    schemaVersion
    offsets := {
      eventType := ⟨etStart, etEnd⟩
      metadata
      payload := ⟨payloadStart, payloadEnd⟩ } }

/-- `decodeFrame` with the operations that can panic. -/
def decodeFrameChecked (value : Bytes) : ExceptT DecodeError Option DecodedFrame := do
  let header ← FrameHeader.readFromChecked value
  let headerSize := match header.formatVersion with
    | .v1 => headerFixedSizeV1
    | .v2 => headerFixedSize
  decodeFrameBodyChecked value header headerSize

section Reached

variable {ε α β : Type}

theorem reached_bind (result : Except ε α) (next : α → Except ε β) :
    (reached result >>= fun value => reached (next value)) = reached (result >>= next) := by
  cases result <;> rfl

theorem reached_pure (value : α) : (pure value : ExceptT ε Option α) = reached (pure value) :=
  rfl

theorem lift_some_bind (value : α) (next : α → ExceptT ε Option β) :
    (ExceptT.lift (some value) >>= next) = next value :=
  rfl

end Reached

theorem alignPaddingChecked_eq (positive : 0 < align) (offset : Nat) :
    alignPaddingChecked offset align = some (alignPadding offset align) := by
  have nonzero : align ≠ 0 := Nat.ne_of_gt positive
  have below := Nat.le_of_lt (Nat.mod_lt offset positive)
  simp only [alignPaddingChecked, checkedRem, checkedDiff, if_neg nonzero, if_pos below,
    alignPadding, Option.bind_eq_bind, Option.bind_some]

theorem readFromChecked_eq (value : Bytes) :
    FrameHeader.readFromChecked value = reached (FrameHeader.readFrom value) := by
  cases value with
  | nil => rfl
  | cons first rest =>
    unfold FrameHeader.readFromChecked FrameHeader.readFrom
    rw [← reached_bind]
    refine congrArg _ (funext fun _ => ?_)
    rw [List.getElem?_cons_zero, lift_some_bind, List.headD_cons, ← reached_bind]
    refine congrArg _ (funext fun formatVersion => ?_)
    cases formatVersion <;> exact reached_bind _ _

theorem decodeFrameBodyChecked_eq (value : Bytes) (header : FrameHeader) (headerSize : Nat) :
    decodeFrameBodyChecked value header headerSize =
      reached (decodeFrameBody value header headerSize) := by
  unfold decodeFrameBodyChecked decodeFrameBody
  have aligned := @alignPaddingChecked_eq payloadAlign (by decide)
  simp only [aligned, lift_some_bind, reached_pure, reached_bind]

theorem decodeFrameChecked_eq (value : Bytes) :
    decodeFrameChecked value = reached (decodeFrame value) := by
  unfold decodeFrameChecked decodeFrame
  rw [readFromChecked_eq, ← reached_bind]
  exact congrArg _ (funext fun header => decodeFrameBodyChecked_eq value header _)

/-- Size of the header of a layout. -/
def FrameFormatVersion.headerSize : FrameFormatVersion → Nat
  | .v1 => headerFixedSizeV1
  | .v2 => headerFixedSize

theorem FrameFormatVersion.headerFixedSize_le (format : FrameFormatVersion) :
    headerFixedSize ≤ format.headerSize := by
  cases format <;> decide

theorem FrameFormatVersion.fromU8_eq_some :
    FrameFormatVersion.fromU8 byte = some format ↔ byte = format.toU8 := by
  unfold FrameFormatVersion.fromU8 FrameFormatVersion.toU8
  cases format <;> grind

/-- Where the payload starts behind what precedes the padding. -/
def aligned (offset : Nat) : Nat :=
  offset + alignPadding offset payloadAlign

theorem isLeast_aligned (offset : Nat) :
    IsLeast {start | payloadAlign ∣ start ∧ offset ≤ start} (aligned offset) := by
  unfold aligned alignPadding payloadAlign
  constructor
  · simp only [Set.mem_ofPred_eq]
    omega
  · rintro start ⟨⟨count, rfl⟩, behind⟩
    omega

theorem aligned_mono (ordered : first ≤ second) : aligned first ≤ aligned second := by
  unfold aligned alignPadding payloadAlign
  omega

/-- The places of fields of the given lengths behind a header. -/
def FrameOffsets.behind (headerSize eventTypeLen : Nat) (metadataLen : Option Nat)
    (total : Nat) : FrameOffsets where
  eventType := ⟨UInt32.ofNat headerSize, UInt32.ofNat (headerSize + eventTypeLen)⟩
  metadata := metadataLen.map fun len =>
    ⟨UInt32.ofNat (headerSize + eventTypeLen), UInt32.ofNat (headerSize + eventTypeLen + len)⟩
  payload :=
    ⟨UInt32.ofNat (aligned (headerSize + eventTypeLen + metadataLen.getD 0)), UInt32.ofNat total⟩

theorem readFrom_eq_ok :
    FrameHeader.readFrom value = .ok header ↔
      ∃ format : FrameFormatVersion, value.headD 0 = format.toU8 ∧
        format.headerSize ≤ value.length ∧
        header = .ofFields format (value.extract (format.headerSize - 10) format.headerSize) := by
  simp only [FrameHeader.readFrom, bind_eq_ok, rejectIf_eq_ok, exists_const, okOr_eq_ok,
    FrameFormatVersion.fromU8_eq_some, pure_eq_ok, Except.ok.injEq, Nat.not_lt]
  constructor
  · rintro ⟨_, format, isFormat, enough, isHeader⟩
    refine ⟨format, isFormat, ?_, ?_⟩
    · cases format <;> exact enough
    · cases format <;> exact isHeader.symm
  · rintro ⟨format, isFormat, enough, isHeader⟩
    refine ⟨format.headerFixedSize_le.trans enough, format, isFormat, ?_, ?_⟩
    · cases format <;> exact enough
    · cases format <;> exact isHeader.symm

/-- The metadata is found exactly if it lies within the frame. -/
theorem decodeMetadata_eq_ok {range : Option ByteRange} (fits : value.length < 2 ^ 32)
    (typeInside : etEnd ≤ value.length) :
    decodeMetadata value etEnd metadataLen = .ok (range, postMeta) ↔
      etEnd + (metadataLen.map UInt32.toNat).getD 0 ≤ value.length ∧
      postMeta = etEnd + (metadataLen.map UInt32.toNat).getD 0 ∧
      range = (metadataLen.map UInt32.toNat).map fun len =>
        ⟨UInt32.ofNat etEnd, UInt32.ofNat (etEnd + len)⟩ := by
  cases metadataLen with
  | none =>
    simp only [decodeMetadata, pure_eq_ok, Except.ok.injEq, Prod.mk.injEq, Option.map_none,
      Option.getD_none, Nat.add_zero]
    exact ⟨fun same => ⟨typeInside, same.2.symm, same.1.symm⟩,
      fun same => ⟨same.2.2.symm, same.2.1.symm⟩⟩
  | some len =>
    have lenFits := len.toNat_lt
    simp only [Option.map_some, Option.getD_some]
    constructor
    · intro found
      simp only [decodeMetadata, bind_eq_ok, okOr_eq_ok, narrow_eq_some, rejectIf_eq_ok,
        exists_const, Nat.not_lt, pure_eq_ok, Except.ok.injEq, Prod.mk.injEq] at found
      obtain ⟨_, ⟨_, rfl⟩, _, ⟨_, rfl⟩, inside, start, isStart, stop, isStop, isRange, isEnd⟩ :=
        found
      rw [toU32_of_lt (by omega), Option.some.injEq] at isStart isStop
      rw [isStart, isStop]
      exact ⟨inside, isEnd.symm, isRange.symm⟩
    · rintro ⟨inside, rfl, rfl⟩
      unfold decodeMetadata usizeLimit
      simp (disch := omega) only [narrow_of_lt, toU32_of_lt, rejectIf_of_not, okOr_some,
        ok_bind, pure_eq_ok]

theorem fromU32_eq_ok : SchemaVersion.fromU32 value = .ok schema ↔ value = schema.get := by
  constructor
  · intro accepted
    unfold SchemaVersion.fromU32 at accepted
    split at accepted
    next nonzero =>
      cases accepted
      rfl
    next zero => cases accepted
  · rintro rfl
    exact SchemaVersion.fromU32_get schema

/-- The fields behind a header are found exactly if they lie within the frame. -/
theorem decodeFrameBody_eq_ok (known : headerSize ≤ 2 ^ 8) :
    decodeFrameBody value header headerSize = .ok decoded ↔
      header.schemaVersion = decoded.schemaVersion.get ∧
      value.length < 2 ^ 32 ∧
      aligned (headerSize + header.eventTypeLen.toNat +
        (header.metadataLen.map UInt32.toNat).getD 0) ≤ value.length ∧
      decoded.offsets = .behind headerSize header.eventTypeLen.toNat
        (header.metadataLen.map UInt32.toNat) value.length := by
  have typeFits := header.eventTypeLen.toNat_lt
  constructor
  · intro found
    simp only [decodeFrameBody, bind_eq_ok, mapError_eq_ok, fromU32_eq_ok, okOr_eq_ok,
      narrow_eq_some, rejectIf_eq_ok, exists_const, Nat.not_lt, pure_eq_ok, Except.ok.injEq,
      Prod.exists] at found
    obtain ⟨schema, isSchema, _, ⟨_, rfl⟩, typeInside, range, postMeta, metadataFound, _,
      ⟨_, rfl⟩, payloadInside, etStart, isStart, etEnd, isEnd, payloadStart, isPayload, payloadEnd,
      isTotal, rfl⟩ := found
    have fits : value.length < 2 ^ 32 := by
      rw [← toU32_eq_some.mp isTotal]
      exact payloadEnd.toNat_lt
    obtain ⟨metadataInside, rfl, rfl⟩ := (decodeMetadata_eq_ok fits typeInside).mp metadataFound
    rw [toU32_of_lt (by omega), Option.some.injEq] at isStart isEnd isPayload isTotal
    refine ⟨isSchema, fits, payloadInside, ?_⟩
    rw [← isStart, ← isEnd, ← isPayload, ← isTotal]
    rfl
  · rintro ⟨isSchema, fits, inside, isOffsets⟩
    have content : headerSize + header.eventTypeLen.toNat +
        (header.metadataLen.map UInt32.toNat).getD 0 ≤ value.length :=
      (Nat.le_add_right _ _).trans inside
    have typeInside : headerSize + header.eventTypeLen.toNat ≤ value.length := by omega
    have metadataFound := (decodeMetadata_eq_ok fits typeInside).mpr ⟨content, rfl, rfl⟩
    unfold aligned at inside
    unfold decodeFrameBody usizeLimit
    rw [fromU32_eq_ok.mpr isSchema]
    simp (disch := omega) only [mapError_ok, ok_bind, narrow_of_lt, okOr_some, rejectIf_of_not,
      metadataFound, toU32_of_lt, pure_eq_ok]
    cases decoded
    cases isOffsets
    rfl

theorem decodeFrame_eq (value : Bytes) :
    decodeFrame value = FrameHeader.readFrom value >>= fun header =>
      decodeFrameBody value header header.formatVersion.headerSize :=
  rfl

/-- Where the padding starts. -/
def FrameHeader.contentEnd (header : FrameHeader) : Nat :=
  header.formatVersion.headerSize + header.eventTypeLen.toNat +
    (header.metadataLen.map UInt32.toNat).getD 0

/-- Bytes are accepted exactly if they begin with a header of a known layout and
have room for the fields it tells of. -/
theorem decodeFrame_eq_ok :
    decodeFrame value = .ok decoded ↔
      ∃ header, FrameHeader.readFrom value = .ok header ∧
        header.schemaVersion = decoded.schemaVersion.get ∧
        value.length < 2 ^ 32 ∧
        aligned header.contentEnd ≤ value.length ∧
        decoded.offsets = .behind header.formatVersion.headerSize header.eventTypeLen.toNat
          (header.metadataLen.map UInt32.toNat) value.length := by
  have known : ∀ format : FrameFormatVersion, format.headerSize ≤ 2 ^ 8 := by
    intro format
    cases format <;> decide
  rw [decodeFrame_eq, bind_eq_ok]
  exact exists_congr fun header =>
    and_congr_right fun _ => decodeFrameBody_eq_ok (known header.formatVersion)

end Mnesis.Store.Wire
