import Mnesis.Chunk.Libraries
import Mnesis.Import.Importer

/-!
# The format of backups

A backup is a header, sections of blocks behind their headings, and a completion
record with counts and a checksum of everything before it.  Salvage reads as far
as it can; normal decoding accepts only what is complete and intact.

A writer hands the items to a sink, which may fail after it took any part of a piece.
While an operation is under way the writer is poisoned; only its success makes the
writer ready again.
-/

namespace Mnesis.Chunk

open Foundation Kernel Store Wire Import

/-- The bytes every backup starts with. -/
def magic : Bytes := [110, 120, 99, 104]

/-- The format of new backups. -/
def formatVersion : UInt32 := 2

/-- The tag of the completion record. -/
def completionTag : UInt64 := 60000

/-- Fields that are no event. -/
inductive BackupEventError
  | versionZero
  | value (error : ValueError)
  | lengthOverflow
  | offset
  | wire (error : WireError)
  | envelope (error : EnvelopeError)
  deriving DecidableEq

/-- Why a backup is not complete. -/
inductive CompletionError (libs : Libraries)
  | legacy
  | missing
  | decode (source : libs.DecodeError)
  | shape
  | counts (declaredSections sections declaredEvents events : UInt64)
  | length (declared actual : UInt64)
  | checksum
  | trailingBytes
  | countConversion
  | countOverflow

/-- Failures of reading a backup. -/
inductive ChunkError (libs : Libraries)
  | malformed (reason : String)
  | decode (context : String) (source : libs.DecodeError)
  | event (error : BackupEventError)
  | completion (error : CompletionError libs)
  | corruptBlock

/-- A header that was read. -/
structure ChunkHeader where
  formatVersion : UInt32
  origin : Option Bytes
  deriving DecidableEq

/-- What salvage recovers. -/
structure SalvagedChunk (libs : Libraries) where
  header : ChunkHeader
  sections : List StreamSection
  completion : Except (CompletionError libs) Unit

/-- How reading items stops: at a torn item, behind the completion record, or with
a failure. -/
inductive Stop (libs : Libraries)
  | torn
  | completed (result : Except (CompletionError libs) Unit)
  | failed (error : ChunkError libs)

variable (libs : Libraries)

/-- Look at the entries of a map; no key may occur twice. -/
def probeKeys : Nat → List UInt32 → Parser UInt8 libs.DecodeError Unit
  | 0, _ => return ()
  | count + 1, keys => do
    let key ← libs.u32
    Parser.ofResult (rejectIf (key ∈ keys) (libs.message "duplicate backup map key"))
    libs.skip
    probeKeys count (key :: keys)

/-- Look at a map, which must have a definite length. -/
def probeMap : Parser UInt8 libs.DecodeError Unit := do
  let length ← libs.map
  let length ← Parser.ofResult (okOr length (libs.message "indefinite backup map"))
  probeKeys libs length.toNat []

/-- Read a record after a look at its map. -/
def decodeMap {α : Type} (decode : Parser UInt8 libs.DecodeError α) :
    Parser UInt8 libs.DecodeError α := do
  (probeMap libs).lookahead
  decode

/-- Only known formats are read. -/
def validateHeader (found : Bytes) (format : UInt32) : Except (ChunkError libs) Unit := do
  rejectIf (found ≠ magic) (.malformed "bad magic")
  rejectIf (¬ (format = 1 ∨ format = formatVersion)) (.malformed "unknown format version")

/-- Read the header; the rest of the backup is left. -/
def readHeader (bytes : Bytes) : Except (ChunkError libs) (ChunkHeader × Bytes) := do
  let (repr, rest) ← ((decodeMap libs libs.header).run bytes).mapError (.decode "unreadable header")
  validateHeader libs repr.magic repr.formatVersion
  return (⟨repr.formatVersion, repr.origin⟩, rest)

/-- Read only the header. -/
def decodeHeader (bytes : Bytes) : Except (ChunkError libs) ChunkHeader := do
  let (header, _) ← readHeader libs bytes
  return header

/-- Metadata that is present must not be empty and not too long. -/
def checkBodyMetadata : Option Bytes → Except BackupEventError Unit
  | none => return ()
  | some metadata => do
    rejectIf (metadata = []) (.value .metadataEmpty)
    rejectIf (maxMetadataLen < metadata.length) (.value (.metadataTooLong metadata.length))

/-- The metadata in a slice, if there is metadata. -/
def readMetadata (present : Option Bytes) (slice : Bytes) :
    Except ValueError (Option Metadata) :=
  match present with
  | none => return none
  | some _ => do
    let metadata ← Metadata.fromBytes slice
    return some metadata

/-- Build the event of a body, rejecting sizes that do not fit before copying. -/
def reconstruct (body : BodyRepr) : Except BackupEventError PersistedEnvelope := do
  let version ← okOr (Version.new body.version) .versionZero
  let schema ← (SchemaVersion.fromU32 body.schemaVersion).mapError .value
  let eventType := utf8Bytes body.eventType
  rejectIf (maxEventTypeLen < eventType.length) (.value (.eventTypeTooLong eventType.length))
  checkBodyMetadata body.metadata
  rejectIf (maxPayloadLen < body.payload.length) (.value (.payloadTooLong body.payload.length))
  let metadataEnd ← okOr
    (narrow usizeLimit (eventType.length + (body.metadata.map List.length).getD 0))
    .lengthOverflow
  let total ← okOr (narrow usizeLimit (metadataEnd + body.payload.length)) .lengthOverflow
  let _ ← okOr (toU32 total) .offset
  let compact := eventType ++ (body.metadata.getD [] ++ body.payload)
  let eventKind ← (EventType.fromBytes (compact.extract 0 eventType.length)).mapError .value
  let payload ← (Payload.fromBytes (compact.extract metadataEnd total)).mapError .value
  let metadata ← (readMetadata body.metadata
    (compact.extract eventKind.asBytes.length metadataEnd)).mapError .value
  let frame ← (encodeFrame schema eventKind payload metadata).mapError .wire
  (PersistedEnvelope.tryNew version frame.value schema frame.offsets.eventType
    frame.offsets.payload frame.offsets.metadata).mapError .envelope

/-- A torn item stops salvage; other failures are passed on. -/
def tornOr (context : String) (error : libs.DecodeError) : Stop libs :=
  if libs.isEndOfInput error then .torn else .failed (.decode context error)

/-- A block has two elements. -/
def checkBlockLength : Option UInt64 → Except (ChunkError libs) Unit
  | some length =>
    rejectIf (length ≠ 2) (.malformed "block array must have exactly 2 elements")
  | none => throw (.malformed "indefinite-length block array")

/-- The event of a block, if the checksum is right. -/
def decodeBody (block : BlockRepr) : Except (ChunkError libs) ImportBlock :=
  if libs.crc32c block.body ≠ block.crc then
    return .corrupt
  else do
    let (parsed, rest) ← ((decodeMap libs libs.body).run block.body).mapError
      (.decode "crc-valid body failed to decode")
    rejectIf (rest ≠ []) (.malformed "trailing bytes in block body")
    let event ← (reconstruct parsed).mapError .event
    return .event event

/-- Read the checksum and the body of a block. -/
def readBlock : Parser UInt8 (Stop libs) BlockRepr := do
  let length ← libs.array.mapError (tornOr libs "malformed block array")
  Parser.ofResult ((checkBlockLength libs length).mapError .failed)
  let crc ← libs.u32.mapError (tornOr libs "malformed block crc")
  let body ← libs.bytes.mapError (tornOr libs "malformed block body bytes")
  return ⟨crc, body⟩

/-- Read one block. -/
def decodeBlock : Parser UInt8 (Stop libs) ImportBlock := do
  let block ← readBlock libs
  Parser.ofResult ((decodeBody libs block).mapError .failed)

/-- Read the heading of a section. -/
def decodeHeading : Parser UInt8 (Stop libs) HeadingRepr :=
  (decodeMap libs libs.heading).mapError (tornOr libs "malformed section heading")

/-- What a completion record declares. -/
structure Completion where
  sections : UInt64
  events : UInt64
  length : UInt64
  crc : UInt32
  deriving DecidableEq

/-- A truncated record is a missing one. -/
def completionRead (error : libs.DecodeError) : CompletionError libs :=
  if libs.isEndOfInput error then .missing else .decode error

/-- Read a completion record. -/
def completionRecord : Parser UInt8 (CompletionError libs) Completion := do
  let tag ← libs.tag.mapError (completionRead libs)
  Parser.ofResult (rejectIf (tag ≠ completionTag) .shape)
  let length ← libs.array.mapError (completionRead libs)
  Parser.ofResult (rejectIf (length ≠ some 4) .shape)
  let sections ← libs.u64.mapError (completionRead libs)
  let events ← libs.u64.mapError (completionRead libs)
  let length ← libs.u64.mapError (completionRead libs)
  let crc ← libs.u32.mapError (completionRead libs)
  return ⟨sections, events, length, crc⟩

/-- Check the completion record at the end of a backup against what precedes it. -/
def decodeCompletion (bytes : Bytes) (position : Nat) (sections events : UInt64)
    (input : Bytes) : Except (CompletionError libs) Unit := do
  let (declared, rest) ← (completionRecord libs).run input
  rejectIf (rest ≠ []) .trailingBytes
  rejectIf (declared.sections ≠ sections ∨ declared.events ≠ events)
    (.counts declared.sections sections declared.events events)
  let actual ← okOr (toU64 position) .countConversion
  rejectIf (declared.length ≠ actual) (.length declared.length actual)
  rejectIf (declared.crc ≠ libs.crc32c (bytes.take position)) .checksum

/-- How far salvage has read. -/
structure Salvage where
  sections : List StreamSection
  eventCount : UInt64
  rest : Bytes
  deriving DecidableEq

/-- Add a block to the last section. -/
def pushBlock (block : ImportBlock) : List StreamSection → List StreamSection
  | [] => []
  | [last] => [{ last with blocks := last.blocks ++ [block] }]
  | first :: next :: sections => first :: pushBlock block (next :: sections)

/-- Read the next item of a backup of the given format. -/
def salvageItem (bytes : Bytes) (format : UInt32) (state : Salvage) :
    Except (Stop libs) Salvage := do
  match ← (libs.datatype state.rest).mapError (tornOr libs "decode error") with
  | .map =>
    let (heading, rest) ← (decodeHeading libs).run state.rest
    return { state with sections := state.sections ++ [⟨heading.streamId, []⟩], rest }
  | .array =>
    rejectIf (state.sections = []) (.failed (.malformed "block before section heading"))
    let (block, rest) ← (decodeBlock libs).run state.rest
    let eventCount ← okOr (checkedAdd state.eventCount 1) (.failed (.completion .countOverflow))
    return { sections := pushBlock block state.sections, eventCount, rest }
  | .tag =>
    if format = formatVersion then
      let sectionCount ← okOr (toU64 state.sections.length) (.failed (.completion .countConversion))
      throw (.completed (decodeCompletion libs bytes (bytes.length - state.rest.length)
        sectionCount state.eventCount state.rest))
    else
      throw (.failed (.malformed "unexpected item type"))
  | .other => throw (.failed (.malformed "unexpected item type"))

/-- Read items while there is input.  Every item takes at least one byte, so that
as many rounds as there are bytes are enough. -/
def salvageItems (bytes : Bytes) (format : UInt32) (unfinished : CompletionError libs) :
    Nat → Salvage →
      Except (ChunkError libs) (List StreamSection × Except (CompletionError libs) Unit)
  | 0, state => return (state.sections, .error unfinished)
  | rounds + 1, state =>
    if state.rest = [] then
      return (state.sections, .error unfinished)
    else
      match salvageItem libs bytes format state with
      | .ok next => salvageItems bytes format unfinished rounds next
      | .error .torn => return (state.sections, .error unfinished)
      | .error (.completed result) => return (state.sections, result)
      | .error (.failed error) => throw error

/-- Recover what can be read. -/
def salvageChunk (bytes : Bytes) : Except (ChunkError libs) (SalvagedChunk libs) := do
  let (header, rest) ← readHeader libs bytes
  let unfinished := if header.formatVersion = 1 then .legacy else .missing
  let (sections, completion) ← salvageItems libs bytes header.formatVersion unfinished
    bytes.length ⟨[], 0, rest⟩
  return { header, sections, completion }

/-- Decode a complete and intact backup. -/
def decodeChunk (bytes : Bytes) : Except (ChunkError libs) (List StreamSection) := do
  let recovered ← salvageChunk libs bytes
  recovered.completion.mapError .completion
  rejectIf (recovered.sections.any fun entry => entry.blocks.any (· = .corrupt)) .corruptBlock
  return recovered.sections

/-- A byte slice; its length is a machine word. -/
structure Slice where
  bytes : Bytes
  length_lt : bytes.length < 2 ^ 64
  deriving DecidableEq

/-- Where bytes are written to.  A write that fails has taken some part of the
bytes. -/
structure Sink where
  State : Type
  Error : Type
  initial : State
  writeAll : Bytes → State → Except Error Unit × State
  contents : State → Bytes
  contents_initial : contents initial = []
  contents_ok : ∀ {bytes state after},
    writeAll bytes state = (.ok (), after) → contents after = contents state ++ bytes
  contents_error : ∀ {bytes state error after},
    writeAll bytes state = (.error error, after) →
      ∃ part, part <+: bytes ∧ contents after = contents state ++ part

/-- Failures of forwarding bytes to the sink. -/
inductive ChunkSinkError (SinkError : Type)
  | sink (error : SinkError)
  | lengthConversion
  | lengthOverflow

/-- Failures of writing. -/
inductive WriteError (SinkError : Type)
  | encode (error : ChunkSinkError SinkError)
  | poisoned
  | countOverflow

/-- Failures of draining a source into a section. -/
inductive SectionError (SinkError SourceError : Type)
  | write (error : WriteError SinkError)
  | read (error : SourceError)

/-- How a drain ends early: it fails, or its caller gives it up. -/
inductive Interrupted (Error : Type)
  | failed (error : Error)
  | abandoned

/-- A failed write in terms of a drain. -/
def writeFailed {SinkError SourceError : Type} (error : WriteError SinkError) :
    Interrupted (SectionError SinkError SourceError) :=
  .failed (.write error)

/-- A sink with the number and the checksum of the bytes written to it. -/
structure TrackedSink (sink : Sink) where
  inner : sink.State
  bytes : UInt64
  crc : UInt32

/-- Whether a writer can be used. -/
inductive WriterState
  | ready
  | poisoned
  deriving DecidableEq

/-- A writer. -/
structure ChunkWriter (sink : Sink) where
  enc : TrackedSink sink
  state : WriterState
  sections : UInt64
  events : UInt64

/-- What a source of events does in a drain: it yields events and failures, and
ends, unless the drain is given up before. -/
structure Drain (SourceError : Type) where
  items : List (Except SourceError PersistedEnvelope)
  ended : Bool

variable {SourceError : Type}

/-- Write a piece and keep track of it. -/
def TrackedSink.writeAll (bytes : Bytes) :
    Locked (TrackedSink sink) (ChunkSinkError sink.Error) Unit := do
  let self ← get
  let len ← Locked.ofResult (okOr (toU64 bytes.length) .lengthConversion)
  let next ← Locked.ofResult (okOr (checkedAdd self.bytes len) .lengthOverflow)
  let (result, inner) := sink.writeAll bytes self.inner
  set { self with inner }
  Locked.ofResult (result.mapError ChunkSinkError.sink)
  set { inner, bytes := next, crc := libs.crc32cAppend self.crc bytes : TrackedSink sink }

/-- Write the pieces of an item. -/
def TrackedSink.encode :
    List Bytes → Locked (TrackedSink sink) (ChunkSinkError sink.Error) Unit
  | [] => return ()
  | piece :: pieces => do
    TrackedSink.writeAll libs piece
    TrackedSink.encode pieces

namespace ChunkWriter

/-- Write the pieces of an item. -/
def encode (pieces : List Bytes) :
    Locked (ChunkWriter sink) (WriteError sink.Error) Unit := do
  let self ← get
  let (result, enc) := (TrackedSink.encode libs pieces).exec self.enc
  set { self with enc }
  Locked.ofResult (result.mapError WriteError.encode)

/-- Start a backup: write the header.  The sink is left behind in any case. -/
def new (origin : Option Slice) :
    Except (WriteError sink.Error) (ChunkWriter sink) × sink.State :=
  let (result, enc) := (TrackedSink.encode libs
    (libs.writeHeader ⟨magic, formatVersion, origin.map Slice.bytes⟩)).exec
      (⟨sink.initial, 0, 0⟩ : TrackedSink sink)
  match result with
  | .ok () => (.ok ⟨enc, .ready, 0, 0⟩, enc.inner)
  | .error error => (.error (.encode error), enc.inner)

/-- A poisoned writer is refused. -/
def ensureReady : Locked (ChunkWriter sink) (WriteError sink.Error) Unit := do
  let self ← get
  Locked.ofResult (rejectIf (self.state = .poisoned) .poisoned)

/-- Mark a writer. -/
def setState (state : WriterState) :
    Locked (ChunkWriter sink) (WriteError sink.Error) Unit := do
  let self ← get
  set { self with state }

/-- Begin a section. -/
def beginSection (streamId : Slice) :
    Locked (ChunkWriter sink) (WriteError sink.Error) Unit := do
  ensureReady
  setState .poisoned
  let self ← get
  let next ← Locked.ofResult (okOr (checkedAdd self.sections 1) WriteError.countOverflow)
  encode libs (libs.writeHeading ⟨streamId.bytes⟩)
  let self ← get
  set { self with sections := next }
  setState .ready

/-- The body of an event. -/
def bodyOf (event : PersistedEnvelope) : BodyRepr where
  version := event.version.asU64
  schemaVersion := event.schemaVersion.get
  eventType := event.eventType
  metadata := event.metadata
  payload := event.payload

/-- The block of an event. -/
def blockOf (event : PersistedEnvelope) : BlockRepr :=
  let bodyBytes := (libs.writeBody (bodyOf event)).flatten
  { crc := libs.crc32c bodyBytes, body := bodyBytes }

/-- Write the block of an event. -/
def writeBlock (event : PersistedEnvelope) :
    Locked (ChunkWriter sink) (WriteError sink.Error) Unit := do
  let self ← get
  let next ← Locked.ofResult (okOr (checkedAdd self.events 1) WriteError.countOverflow)
  encode libs (libs.writeBlock (blockOf libs event))
  let self ← get
  set { self with events := next }

/-- Append one event to the section. -/
def block (event : PersistedEnvelope) :
    Locked (ChunkWriter sink) (WriteError sink.Error) Unit := do
  ensureReady
  setState .poisoned
  writeBlock libs event
  setState .ready

/-- Write the events of a source until it ends. -/
def drain (ended : Bool) :
    List (Except SourceError PersistedEnvelope) →
      Locked (ChunkWriter sink) (Interrupted (SectionError sink.Error SourceError)) Unit
  | [] => if ended then return () else throw .abandoned
  | item :: items => do
    let event ← Locked.ofResult (item.mapError fun error => .failed (.read error))
    (writeBlock libs event).mapError writeFailed
    drain ended items

/-- Drain a source into the section. -/
def tryExtend (source : Drain SourceError) :
    Locked (ChunkWriter sink) (Interrupted (SectionError sink.Error SourceError)) Unit := do
  ensureReady.mapError writeFailed
  (setState .poisoned).mapError writeFailed
  drain libs source.ended source.items
  (setState .ready).mapError writeFailed

/-- The pieces of a completion record. -/
def completionPieces (completion : Completion) : List Bytes :=
  libs.writeTag completionTag ++ (libs.writeArray 4 ++
    (libs.writeU64 completion.sections ++ (libs.writeU64 completion.events ++
      (libs.writeU64 completion.length ++ libs.writeU32 completion.crc))))

/-- Write the completion record. -/
def finish : Locked (ChunkWriter sink) (WriteError sink.Error) Unit := do
  ensureReady
  let self ← get
  encode libs (completionPieces libs ⟨self.sections, self.events, self.enc.bytes, self.enc.crc⟩)

end ChunkWriter

/-- Operations on a section. -/
inductive SectionOp (SourceError : Type)
  | block (event : PersistedEnvelope)
  | extend (source : Drain SourceError)

/-- A section and the operations on it. -/
structure SectionScript (SourceError : Type) where
  streamId : Slice
  ops : List (SectionOp SourceError)

/-- The answer of an operation. -/
abbrev OpResult (sink : Sink) (SourceError : Type) :=
  Except (Interrupted (SectionError sink.Error SourceError)) Unit

/-- Run an operation on a section. -/
def SectionOp.run : SectionOp SourceError →
    Locked (ChunkWriter sink) (Interrupted (SectionError sink.Error SourceError)) Unit
  | .block event =>
    (ChunkWriter.block libs event).mapError writeFailed
  | .extend source => ChunkWriter.tryExtend libs source

/-- Run operations on a section one after the other, whatever their answers. -/
def runOps : List (SectionOp SourceError) → ChunkWriter sink →
    List (OpResult sink SourceError) × ChunkWriter sink
  | [], writer => ([], writer)
  | op :: ops, writer =>
    let (answer, writer) := (op.run libs).exec writer
    let (answers, writer) := runOps ops writer
    (answer :: answers, writer)

/-- Write a section.  If it could not be begun there are no operations on it. -/
def runSection (script : SectionScript SourceError) (writer : ChunkWriter sink) :
    List (OpResult sink SourceError) × ChunkWriter sink :=
  match (ChunkWriter.beginSection libs script.streamId).exec writer with
  | (.ok (), writer) =>
    let (answers, writer) := runOps libs script.ops writer
    (.ok () :: answers, writer)
  | (.error error, writer) => ([.error (writeFailed error)], writer)

/-- Write sections one after the other, whatever the answers. -/
def runSections : List (SectionScript SourceError) → ChunkWriter sink →
    List (OpResult sink SourceError) × ChunkWriter sink
  | [], writer => ([], writer)
  | script :: scripts, writer =>
    let (answers, writer) := runSection libs script writer
    let (others, writer) := runSections scripts writer
    (answers ++ others, writer)

/-- What a run of a writer answers and leaves in the sink. -/
structure WriterRun (sink : Sink) (SourceError : Type) where
  opened : Except (WriteError sink.Error) Unit
  answers : List (OpResult sink SourceError)
  /-- The answer of `finish`, if it was called. -/
  finished : Option (Except (WriteError sink.Error) Unit)
  left : sink.State

/-- Open a writer, write sections, and finish the backup or keep it unfinished. -/
def runWriter (sink : Sink) (origin : Option Slice) (scripts : List (SectionScript SourceError))
    (finishes : Bool) : WriterRun sink SourceError :=
  match ChunkWriter.new libs origin with
  | (.error error, left) => { opened := .error error, answers := [], finished := none, left }
  | (.ok writer, _) =>
    let (answers, writer) := runSections libs scripts writer
    if finishes then
      let (result, writer) := (ChunkWriter.finish libs).exec writer
      { opened := .ok (), answers, finished := some result, left := writer.enc.inner }
    else
      { opened := .ok (), answers, finished := none, left := writer.enc.inner }

end Mnesis.Chunk
