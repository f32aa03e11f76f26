import Mnesis.Foundation.Result
import Mnesis.Kernel.Version

/-!
# Envelope values

The values an event is stored with.  Each type carries the bound its
constructor checks, so that an envelope holds only values that fit the fields
of a stored frame.
-/

namespace Mnesis.Store

open Foundation Kernel

/-- A byte string. -/
abbrev Bytes := List UInt8

/-- Whether a byte string is UTF-8 text. -/
def isUtf8 (bytes : Bytes) : Bool :=
  ByteArray.validateUTF8 ⟨bytes.toArray⟩

/-- The UTF-8 bytes of a text. -/
def utf8Bytes (text : String) : Bytes :=
  text.toByteArray.data.toList

/-- Where UTF-8 text ends: the length of the longest prefix that is text. -/
def utf8ValidUpTo (bytes : Bytes) : Nat :=
  ((List.range (bytes.length + 1)).filter fun count => isUtf8 (bytes.take count)).foldl max 0

/-- Longest event type, the range of a 16-bit length. -/
def maxEventTypeLen : Nat := 2 ^ 16 - 1

/-- Longest metadata; the largest 32-bit length marks absent metadata. -/
def maxMetadataLen : Nat := 2 ^ 32 - 2

/-- Longest payload, the range of a 32-bit length. -/
def maxPayloadLen : Nat := 2 ^ 32 - 1

/-- Refused envelope values. -/
inductive ValueError
  | eventTypeTooLong (actual : Nat)
  | eventTypeInvalidUtf8 (validUpTo : Nat)
  | payloadTooLong (actual : Nat)
  | metadataTooLong (actual : Nat)
  | metadataEmpty
  | schemaVersionZero
  deriving DecidableEq

/-- Refused envelopes: a byte range of a stored frame that is out of bounds or
holds a bad value, or a refused value. -/
inductive EnvelopeError
  | rangeOutOfBounds (start stop len : Nat)
  | invalidUtf8 (start stop : Nat)
  | eventTypeRangeTooLong (actual max : Nat)
  | metadataRangeTooLong (actual max : Nat)
  | metadataRangeEmpty
  | value (error : ValueError)
  deriving DecidableEq

/-- Name of an event: UTF-8 text of bounded length. -/
@[ext] structure EventType where
  asBytes : Bytes
  length_le : asBytes.length ≤ maxEventTypeLen
  utf8 : isUtf8 asBytes = true
  deriving DecidableEq

/-- Encoded event of bounded length. -/
@[ext] structure Payload where
  asSlice : Bytes
  length_le : asSlice.length ≤ maxPayloadLen
  deriving DecidableEq

/-- Non-empty metadata of bounded length. -/
@[ext] structure Metadata where
  asSlice : Bytes
  nonempty : asSlice ≠ []
  length_le : asSlice.length ≤ maxMetadataLen
  deriving DecidableEq

/-- Non-zero schema version of an event. -/
structure SchemaVersion where
  get : UInt32
  ne_zero : get ≠ 0
  deriving DecidableEq

theorem isUtf8_utf8Bytes (text : String) : isUtf8 (utf8Bytes text) = true :=
  ByteArray.validateUTF8_eq_true_iff.mpr text.isValidUTF8

/-- The event type of a literal that fits. -/
def EventType.fromStaticStr (text : String)
    (fits : (utf8Bytes text).length ≤ maxEventTypeLen) : EventType where
  asBytes := utf8Bytes text
  length_le := fits
  utf8 := isUtf8_utf8Bytes text

/-- An event type from bytes that are text within the bound. -/
def EventType.fromBytes (bytes : Bytes) : Except ValueError EventType :=
  if fits : bytes.length ≤ maxEventTypeLen then
    if text : isUtf8 bytes = true then
      .ok ⟨bytes, fits, text⟩
    else
      .error (.eventTypeInvalidUtf8 (utf8ValidUpTo bytes))
  else
    .error (.eventTypeTooLong bytes.length)

/-- The text of an event type. -/
def EventType.asStr (eventType : EventType) : String :=
  .ofByteArray ⟨eventType.asBytes.toArray⟩ (ByteArray.validateUTF8_eq_true_iff.mp eventType.utf8)

/-- A payload within the bound. -/
def Payload.fromBytes (bytes : Bytes) : Except ValueError Payload :=
  if fits : bytes.length ≤ maxPayloadLen then
    .ok ⟨bytes, fits⟩
  else
    .error (.payloadTooLong bytes.length)

/-- Metadata that is not empty and within the bound. -/
def Metadata.fromBytes (bytes : Bytes) : Except ValueError Metadata :=
  if empty : bytes = [] then
    .error .metadataEmpty
  else if fits : bytes.length ≤ maxMetadataLen then
    .ok ⟨bytes, empty, fits⟩
  else
    .error (.metadataTooLong bytes.length)

/-- The first schema version. -/
def SchemaVersion.initial : SchemaVersion := ⟨1, by decide⟩

/-- A schema version from its number. -/
def SchemaVersion.fromU32 (value : UInt32) : Except ValueError SchemaVersion :=
  if nonzero : value ≠ 0 then
    .ok ⟨value, nonzero⟩
  else
    .error .schemaVersionZero

/-- An event with the values it is stored under. -/
structure PendingEnvelope where
  version : Version
  eventType : EventType
  schemaVersion : SchemaVersion
  payload : Payload
  metadata : Option Metadata
  deriving DecidableEq

/-- A non-empty run of envelopes to append. -/
structure PendingBatch where
  first : PendingEnvelope
  rest : List PendingEnvelope
  deriving DecidableEq

/-- The envelopes of a batch in order. -/
def PendingBatch.toList (batch : PendingBatch) : List PendingEnvelope :=
  batch.first :: batch.rest

/-- A batch of one envelope. -/
def PendingBatch.of (only : PendingEnvelope) : PendingBatch :=
  ⟨only, []⟩

theorem PendingBatch.toList_ne_nil (batch : PendingBatch) :
    batch.toList ≠ [] := List.cons_ne_nil _ _

@[simp] theorem EventType.fromBytes_asBytes (eventType : EventType) :
    EventType.fromBytes eventType.asBytes = .ok eventType := by
  unfold EventType.fromBytes
  rw [dif_pos eventType.length_le, dif_pos eventType.utf8]

@[simp] theorem Metadata.fromBytes_asSlice (metadata : Metadata) :
    Metadata.fromBytes metadata.asSlice = .ok metadata := by
  unfold Metadata.fromBytes
  rw [dif_neg metadata.nonempty, dif_pos metadata.length_le]

@[simp] theorem Payload.fromBytes_asSlice (payload : Payload) :
    Payload.fromBytes payload.asSlice = .ok payload :=
  dif_pos payload.length_le

theorem Payload.fromBytes_eq_ok :
    Payload.fromBytes bytes = .ok payload ↔ payload.asSlice = bytes := by
  constructor
  · intro accepted
    unfold Payload.fromBytes at accepted
    split at accepted
    next fits =>
      cases accepted
      rfl
    next tooLong => cases accepted
  · rintro rfl
    exact fromBytes_asSlice payload

@[simp] theorem SchemaVersion.fromU32_get (schema : SchemaVersion) :
    SchemaVersion.fromU32 schema.get = .ok schema :=
  dif_pos schema.ne_zero

end Mnesis.Store
