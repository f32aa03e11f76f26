import Mnesis.Foundation.Parser
import Mnesis.Store.Envelope

/-!
# What backups need of CBOR and CRC32C

The codec and the checksum are libraries: they are parameters here, and what is
assumed of them is stated by `Lawful`.  A reader takes items from the front of its
input; a writer hands an item to its sink in one or more pieces.  The records of the
format are maps with numbered fields.
-/

namespace Mnesis.Chunk

open Foundation Store

/-- Header of a backup. -/
structure HeaderRepr where
  magic : Bytes
  formatVersion : UInt32
  origin : Option Bytes
  deriving DecidableEq

/-- Heading of a section. -/
structure HeadingRepr where
  streamId : Bytes
  deriving DecidableEq

/-- Body of a block. -/
structure BodyRepr where
  version : UInt64
  schemaVersion : UInt32
  eventType : String
  metadata : Option Bytes
  payload : Bytes
  deriving DecidableEq

/-- A block: the body and its checksum. -/
structure BlockRepr where
  crc : UInt32
  body : Bytes
  deriving DecidableEq

/-- Kinds of items that are told apart. -/
inductive Kind
  | map
  | array
  | tag
  | other
  deriving DecidableEq

/-- The codec and the checksum. -/
structure Libraries where
  /-- Failures of reading an item. -/
  DecodeError : Type
  isEndOfInput : DecodeError → Bool
  message : String → DecodeError
  /-- The kind of the next item. -/
  datatype : Bytes → Except DecodeError Kind
  /-- Length of a map, none if it is indefinite. -/
  map : Parser UInt8 DecodeError (Option UInt64)
  array : Parser UInt8 DecodeError (Option UInt64)
  tag : Parser UInt8 DecodeError UInt64
  u32 : Parser UInt8 DecodeError UInt32
  u64 : Parser UInt8 DecodeError UInt64
  bytes : Parser UInt8 DecodeError Bytes
  /-- Pass over an item. -/
  skip : Parser UInt8 DecodeError Unit
  /-- Derived readers of records. -/
  header : Parser UInt8 DecodeError HeaderRepr
  heading : Parser UInt8 DecodeError HeadingRepr
  body : Parser UInt8 DecodeError BodyRepr
  /-- The pieces in which an item is written. -/
  writeMap : UInt64 → List Bytes
  writeArray : UInt64 → List Bytes
  writeTag : UInt64 → List Bytes
  writeU32 : UInt32 → List Bytes
  writeU64 : UInt64 → List Bytes
  writeBytes : Bytes → List Bytes
  writeStr : String → List Bytes
  /-- Continue a checksum. -/
  crc32cAppend : UInt32 → Bytes → UInt32

namespace Libraries

variable (libs : Libraries)

/-- The end of an item is missing. -/
def Short (error : libs.DecodeError) : Prop :=
  libs.isEndOfInput error = true

/-- The checksum of bytes. -/
def crc32c (bytes : Bytes) : UInt32 :=
  libs.crc32cAppend 0 bytes

/-- The pieces of a record: a map from the numbers of the fields to their values. -/
def record (fields : List (UInt32 × List Bytes)) : List Bytes :=
  libs.writeMap (UInt64.ofNat fields.length) ++
    fields.flatMap fun field => libs.writeU32 field.1 ++ field.2

/-- A field of a record that may be absent. -/
def optionalField (key : UInt32) (value : Option Bytes) : List (UInt32 × List Bytes) :=
  value.toList.map fun bytes => (key, libs.writeBytes bytes)

/-- The fields of a header. -/
def headerFields (header : HeaderRepr) : List (UInt32 × List Bytes) :=
  [(0, libs.writeBytes header.magic), (1, libs.writeU32 header.formatVersion)] ++
    libs.optionalField 2 header.origin

/-- The fields of a heading. -/
def headingFields (heading : HeadingRepr) : List (UInt32 × List Bytes) :=
  [(0, libs.writeBytes heading.streamId)]

/-- The fields of a body. -/
def bodyFields (body : BodyRepr) : List (UInt32 × List Bytes) :=
  [(0, libs.writeU64 body.version), (1, libs.writeU32 body.schemaVersion),
    (2, libs.writeStr body.eventType)] ++
    (libs.optionalField 3 body.metadata ++ [(4, libs.writeBytes body.payload)])

/-- The pieces of a header. -/
def writeHeader (header : HeaderRepr) : List Bytes := libs.record (libs.headerFields header)

/-- The pieces of a heading. -/
def writeHeading (heading : HeadingRepr) : List Bytes :=
  libs.record (libs.headingFields heading)

/-- The pieces of a body. -/
def writeBody (body : BodyRepr) : List Bytes := libs.record (libs.bodyFields body)

/-- The pieces of a block. -/
def writeBlock (block : BlockRepr) : List Bytes :=
  libs.writeArray 2 ++ (libs.writeU32 block.crc ++ libs.writeBytes block.body)

/-- What is assumed of the codec and the checksum. -/
structure Lawful : Prop where
  /-- An item is read whatever follows it, and its missing end is reported. -/
  datatype_followed : ∀ {item kind}, libs.datatype item = .ok kind →
    ∀ rest, libs.datatype (item ++ rest) = .ok kind
  datatype_cut : ∀ {part missing kind}, libs.datatype (part ++ missing) = .ok kind →
    (∃ error, libs.Short error ∧ libs.datatype part = .error error) ∨ libs.datatype part = .ok kind
  map_resumable : libs.map.Resumable libs.Short
  array_resumable : libs.array.Resumable libs.Short
  tag_resumable : libs.tag.Resumable libs.Short
  u32_resumable : libs.u32.Resumable libs.Short
  u64_resumable : libs.u64.Resumable libs.Short
  bytes_resumable : libs.bytes.Resumable libs.Short
  skip_resumable : libs.skip.Resumable libs.Short
  header_resumable : libs.header.Resumable libs.Short
  heading_resumable : libs.heading.Resumable libs.Short
  body_resumable : libs.body.Resumable libs.Short
  /-- Nothing is not an item. -/
  datatype_nil : ∀ kind, libs.datatype [] ≠ .ok kind
  /-- An item is read as it was written. -/
  datatype_map : ∀ length, libs.datatype (libs.writeMap length).flatten = .ok .map
  datatype_array : ∀ length, libs.datatype (libs.writeArray length).flatten = .ok .array
  datatype_tag : ∀ number, libs.datatype (libs.writeTag number).flatten = .ok .tag
  map_reads : ∀ length, libs.map.Reads (libs.writeMap length).flatten (some length)
  array_reads : ∀ length, libs.array.Reads (libs.writeArray length).flatten (some length)
  tag_reads : ∀ number, libs.tag.Reads (libs.writeTag number).flatten number
  u32_reads : ∀ value, libs.u32.Reads (libs.writeU32 value).flatten value
  u64_reads : ∀ value, libs.u64.Reads (libs.writeU64 value).flatten value
  bytes_reads : ∀ bytes, bytes.length < 2 ^ 64 →
    libs.bytes.Reads (libs.writeBytes bytes).flatten bytes
  skip_u32 : ∀ value, libs.skip.Reads (libs.writeU32 value).flatten ()
  skip_u64 : ∀ value, libs.skip.Reads (libs.writeU64 value).flatten ()
  skip_bytes : ∀ bytes, bytes.length < 2 ^ 64 → libs.skip.Reads (libs.writeBytes bytes).flatten ()
  skip_str : ∀ text, (utf8Bytes text).length < 2 ^ 64 →
    libs.skip.Reads (libs.writeStr text).flatten ()
  /-- Derived readers read what the record was written as. -/
  header_reads : ∀ header, header.magic.length < 2 ^ 64 →
    (∀ origin ∈ header.origin, origin.length < 2 ^ 64) →
    libs.header.Reads (libs.writeHeader header).flatten header
  heading_reads : ∀ heading, heading.streamId.length < 2 ^ 64 →
    libs.heading.Reads (libs.writeHeading heading).flatten heading
  body_reads : ∀ body, (utf8Bytes body.eventType).length < 2 ^ 64 →
    (∀ metadata ∈ body.metadata, metadata.length < 2 ^ 64) →
    body.payload.length < 2 ^ 64 →
    libs.body.Reads (libs.writeBody body).flatten body
  /-- An item takes at most nine bytes besides its content. -/
  length_map : ∀ length, (libs.writeMap length).flatten.length ≤ 9
  length_u32 : ∀ value, (libs.writeU32 value).flatten.length ≤ 9
  length_u64 : ∀ value, (libs.writeU64 value).flatten.length ≤ 9
  length_bytes : ∀ bytes, (libs.writeBytes bytes).flatten.length ≤ bytes.length + 9
  length_str : ∀ text, (libs.writeStr text).flatten.length ≤ (utf8Bytes text).length + 9
  /-- A checksum can be computed piece by piece. -/
  crc_nil : ∀ crc, libs.crc32cAppend crc [] = crc
  crc_append : ∀ crc first second,
    libs.crc32cAppend crc (first ++ second) = libs.crc32cAppend (libs.crc32cAppend crc first) second

end Libraries

end Mnesis.Chunk
