import Mnesis.Chunk.Libraries
import Mnesis.Foundation.Cbor

/-!
# A codec and a checksum

CBOR with items of definite length, and CRC32C.  They are lawful, so that what
is shown of backups for all lawful libraries holds of some.
-/

namespace Mnesis.Chunk

open Foundation Store

/-- Divide by the polynomial once. -/
def crcBit (crc : UInt32) : UInt32 :=
  if crc &&& 1 = 1 then (crc >>> 1) ^^^ 0x82F63B78 else crc >>> 1

/-- Take in a byte. -/
def crcByte (crc : UInt32) (byte : UInt8) : UInt32 :=
  crcBit (crcBit (crcBit (crcBit (crcBit (crcBit (crcBit (crcBit (crc ^^^ byte.toUInt32))))))))

/-- Continue a CRC32C. -/
def crc32cAppend (crc : UInt32) (bytes : Bytes) : UInt32 :=
  ~~~ (bytes.foldl crcByte (~~~ crc))

theorem crc32cAppend_nil (crc : UInt32) : crc32cAppend crc [] = crc :=
  UInt32.not_not

theorem crc32cAppend_append (crc : UInt32) (first second : Bytes) :
    crc32cAppend crc (first ++ second) = crc32cAppend (crc32cAppend crc first) second := by
  unfold crc32cAppend
  rw [List.foldl_append, UInt32.not_not]

/-- The failure to read a value of another type. -/
def unexpected : Cbor.DecodeError := .message "unexpected type"

/-- A number as a 32-bit word. -/
def asU32 : Cbor.Value → Except Cbor.DecodeError UInt32
  | .uint number => okOr (toU32 number) unexpected
  | .bytes _ => throw unexpected
  | .text _ => throw unexpected

/-- A number as a 64-bit word. -/
def asU64 : Cbor.Value → Except Cbor.DecodeError UInt64
  | .uint number => okOr (toU64 number) unexpected
  | .bytes _ => throw unexpected
  | .text _ => throw unexpected

/-- The content of a byte string. -/
def asByteString : Cbor.Value → Except Cbor.DecodeError Bytes
  | .bytes content => return content
  | .uint _ => throw unexpected
  | .text _ => throw unexpected

/-- The text of a text. -/
def asText : Cbor.Value → Except Cbor.DecodeError String
  | .text content =>
    if text : isUtf8 content = true then
      return .ofByteArray ⟨content.toArray⟩ (ByteArray.validateUTF8_eq_true_iff.mp text)
    else
      throw (.message "no text")
  | .uint _ => throw unexpected
  | .bytes _ => throw unexpected

theorem asU32_uint (word : UInt32) : asU32 (.uint word.toNat) = .ok word := by
  rw [asU32, okOr_eq_ok, toU32_eq_some]

theorem asU64_uint (word : UInt64) : asU64 (.uint word.toNat) = .ok word := by
  rw [asU64, toU64_of_lt word.toNat_lt, UInt64.ofNat_toNat]
  rfl

theorem asText_utf8Bytes (text : String) : asText (.text (utf8Bytes text)) = .ok text :=
  dif_pos (isUtf8_utf8Bytes text)

/-- A field of a record. -/
def field {α : Type} (convert : Cbor.Value → Except Cbor.DecodeError α)
    (fields : List (Nat × Cbor.Value)) (key : Nat) : Except Cbor.DecodeError α := do
  let value ← okOr (fields.lookup key) (.message "missing value")
  convert value

/-- A field of a record that may be absent. -/
def absentField {α : Type} (convert : Cbor.Value → Except Cbor.DecodeError α)
    (fields : List (Nat × Cbor.Value)) (key : Nat) : Except Cbor.DecodeError (Option α) :=
  match fields.lookup key with
  | none => return none
  | some value => do
    let value ← convert value
    return some value

/-- A header of its fields. -/
def headerOfFields (fields : List (Nat × Cbor.Value)) : Except Cbor.DecodeError HeaderRepr := do
  let magic ← field asByteString fields 0
  let formatVersion ← field asU32 fields 1
  let origin ← absentField asByteString fields 2
  return { magic, formatVersion, origin }

/-- A heading of its fields. -/
def headingOfFields (fields : List (Nat × Cbor.Value)) : Except Cbor.DecodeError HeadingRepr := do
  let streamId ← field asByteString fields 0
  return { streamId }

/-- A body of its fields. -/
def bodyOfFields (fields : List (Nat × Cbor.Value)) : Except Cbor.DecodeError BodyRepr := do
  let version ← field asU64 fields 0
  let schemaVersion ← field asU32 fields 1
  let eventType ← field asText fields 2
  let metadata ← absentField asByteString fields 3
  let payload ← field asByteString fields 4
  return { version, schemaVersion, eventType, metadata, payload }

/-- Read an item and convert it. -/
def converted {α β : Type} (reader : Cbor.Reader α)
    (convert : α → Except Cbor.DecodeError β) : Cbor.Reader β := do
  let value ← reader
  Parser.ofResult (convert value)

theorem converted_resumable
    (resumable : reader.Resumable Cbor.IsEnd) (convert : α → Except Cbor.DecodeError β) :
    (converted reader convert).Resumable Cbor.IsEnd :=
  resumable.bind fun _ => .ofResult _

theorem converted_short
    (resumable : reader.Resumable Cbor.IsEnd) (convert : α → Except Cbor.DecodeError β) :
    (converted reader convert).Resumable fun error => decide (error = .endOfInput) = true := by
  have same : (fun error => decide (error = .endOfInput) = true) = Cbor.IsEnd := by
    funext error
    rw [decide_eq_true_eq]
    rfl
  rw [same]
  exact converted_resumable resumable convert

theorem converted_reads (reads : reader.Reads item value) (converts : convert value = .ok result) :
    (converted reader convert).Reads item result := by
  unfold converted Parser.Reads
  rw [Parser.run_bind_of_ok _ reads]
  exact Parser.run_ofResult_eq_ok.mpr ⟨converts, rfl⟩

/-- The kind of the item that begins with a byte. -/
def kindOf (first : UInt8) : Kind :=
  if first.toNat / 32 = 5 then .map
  else if first.toNat / 32 = 4 then .array
  else if first.toNat / 32 = 6 then .tag
  else .other

/-- The kind of the next item. -/
def datatype : Bytes → Except Cbor.DecodeError Kind
  | [] => .error .endOfInput
  | first :: _ => .ok (kindOf first)

/-- A length, which is definite. -/
def definite (length : Nat) : Except Cbor.DecodeError (Option UInt64) := do
  let length ← okOr (toU64 length) unexpected
  return some length

/-- CBOR and CRC32C. -/
def cbor : Libraries where
  DecodeError := Cbor.DecodeError
  isEndOfInput error := error = .endOfInput
  message := .message
  datatype := datatype
  map := converted (Cbor.sized 5) definite
  array := converted (Cbor.sized 4) definite
  tag := converted (Cbor.sized 6) fun number => okOr (toU64 number) unexpected
  u32 := converted Cbor.item asU32
  u64 := converted Cbor.item asU64
  bytes := converted Cbor.item asByteString
  skip := converted Cbor.item fun _ => return ()
  header := converted Cbor.record headerOfFields
  heading := converted Cbor.record headingOfFields
  body := converted Cbor.record bodyOfFields
  writeMap length := [Cbor.writeHead 5 length.toNat]
  writeArray length := [Cbor.writeHead 4 length.toNat]
  writeTag number := [Cbor.writeHead 6 number.toNat]
  writeU32 value := [Cbor.writeHead 0 value.toNat]
  writeU64 value := [Cbor.writeHead 0 value.toNat]
  writeBytes bytes := [Cbor.writeHead 2 bytes.length, bytes]
  writeStr text := [Cbor.writeHead 3 (utf8Bytes text).length, utf8Bytes text]
  crc32cAppend := crc32cAppend

/-- The pieces in which an item is written. -/
def pieces : Cbor.Value → List Bytes
  | .uint number => [Cbor.writeHead 0 number]
  | .bytes content => [Cbor.writeHead 2 content.length, content]
  | .text content => [Cbor.writeHead 3 content.length, content]

theorem flatten_pieces (value : Cbor.Value) : (pieces value).flatten = Cbor.writeItem value := by
  cases value <;> simp [pieces, Cbor.writeItem]

theorem item_reads_pieces
    {convert : Cbor.Value → Except Cbor.DecodeError α} {result : α} (fits : value.Fits)
    (converts : convert value = .ok result) :
    (converted Cbor.item convert).Reads (pieces value).flatten result := by
  rw [flatten_pieces]
  exact converted_reads (Cbor.item_reads fits) converts

theorem fits_u32 (word : UInt32) : (Cbor.Value.uint word.toNat).Fits := by
  have bounded := word.toNat_lt
  change word.toNat < 2 ^ 64
  omega

theorem length_pieces_bytes (content : Bytes) :
    (pieces (.bytes content)).flatten.length ≤ content.length + 9 := by
  have head := Cbor.length_writeHead 2 content.length
  rw [flatten_pieces, Cbor.writeItem, List.length_append]
  omega

theorem length_pieces_text (content : Bytes) :
    (pieces (.text content)).flatten.length ≤ content.length + 9 := by
  have head := Cbor.length_writeHead 3 content.length
  rw [flatten_pieces, Cbor.writeItem, List.length_append]
  omega

theorem length_head (major value : Nat) : [Cbor.writeHead major value].flatten.length ≤ 9 := by
  rw [List.flatten_singleton]
  exact Cbor.length_writeHead major value

theorem sized_reads_piece {word : UInt64} (known : major < 8)
    (converts : convert word.toNat = .ok result) :
    (converted (Cbor.sized major) convert).Reads [Cbor.writeHead major word.toNat].flatten
      result := by
  rw [List.flatten_singleton]
  exact converted_reads (Cbor.sized_reads known word.toNat_lt) converts

theorem toU64_toNat (word : UInt64) : toU64 word.toNat = some word := by
  rw [toU64_of_lt word.toNat_lt, UInt64.ofNat_toNat]

theorem definite_toNat (word : UInt64) : definite word.toNat = .ok (some word) := by
  rw [definite, toU64_toNat]
  rfl

theorem datatype_head (known : major < 8) (word : UInt64) :
    datatype [Cbor.writeHead major word.toNat].flatten = .ok
      (if major = 5 then .map else if major = 4 then .array else if major = 6 then .tag
        else .other) := by
  obtain ⟨small, _⟩ := Cbor.shortestForm_spec word.toNat_lt
  have byte : (UInt8.ofNat (32 * major + (Cbor.shortestForm word.toNat).1)).toNat / 32 = major := by
    rw [UInt8.toNat_ofNat_of_lt']
    · omega
    · change _ < 256
      omega
  rw [List.flatten_singleton, Cbor.writeHead, datatype, kindOf, byte]

/-! ### Records -/

theorem flatten_record (few : values.length < 2 ^ 64) (keys : ∀ value ∈ values, value.1 < 2 ^ 32) :
    (cbor.record (values.map fun value => (UInt32.ofNat value.1, pieces value.2))).flatten =
      Cbor.writeHead 5 values.length ++ Cbor.writeEntries values := by
  have body : ((values.map fun value => (UInt32.ofNat value.1, pieces value.2)).flatMap
      fun entry => cbor.writeU32 entry.1 ++ entry.2).flatten = Cbor.writeEntries values := by
    induction values with
    | nil => rfl
    | cons value values step =>
      obtain ⟨key, others⟩ := List.forall_mem_cons.mp keys
      rw [List.length_cons] at few
      rw [List.map_cons, List.flatMap_cons, List.flatten_append, step (by omega) others,
        List.flatten_append, flatten_pieces]
      change Cbor.writeHead 0 (UInt32.ofNat value.1).toNat ++ [] ++ _ ++ _ = _
      rw [toNat_ofNat_u32 key, List.append_nil]
      rfl
  unfold Libraries.record
  rw [List.flatten_append, body, List.length_map]
  change (Cbor.writeHead 5 (UInt64.ofNat values.length).toNat ++ []) ++ _ = _
  rw [UInt64.toNat_ofNat_of_lt' few, List.append_nil]

theorem record_reads_values
    {convert : List (Nat × Cbor.Value) → Except Cbor.DecodeError α} {result : α}
    (few : values.length < 2 ^ 64) (keys : ∀ value ∈ values, value.1 < 2 ^ 32)
    (fits : ∀ value ∈ values, value.2.Fits) (converts : convert values = .ok result) :
    (converted Cbor.record convert).Reads
      (cbor.record (values.map fun value => (UInt32.ofNat value.1, pieces value.2))).flatten
      result := by
  rw [flatten_record few keys]
  apply converted_reads _ converts
  apply Cbor.record_reads few
  intro value present
  have key := keys value present
  exact ⟨by omega, fits value present⟩

/-- The values of a header. -/
def headerValues (header : HeaderRepr) : List (Nat × Cbor.Value) :=
  [(0, .bytes header.magic), (1, .uint header.formatVersion.toNat)] ++
    header.origin.toList.map fun origin => (2, .bytes origin)

/-- The values of a body. -/
def bodyValues (body : BodyRepr) : List (Nat × Cbor.Value) :=
  [(0, .uint body.version.toNat), (1, .uint body.schemaVersion.toNat),
    (2, .text (utf8Bytes body.eventType))] ++
    ((body.metadata.toList.map fun metadata => (3, .bytes metadata)) ++ [(4, .bytes body.payload)])

theorem length_optional_le (value : Option α) (convert : α → β) :
    (value.toList.map convert).length ≤ 1 := by
  cases value <;> simp

theorem header_reads (header : HeaderRepr) (magicFits : header.magic.length < 2 ^ 64)
    (originFits : ∀ origin ∈ header.origin, origin.length < 2 ^ 64) :
    cbor.header.Reads (cbor.writeHeader header).flatten header := by
  have same : cbor.headerFields header = (headerValues header).map fun value =>
      (UInt32.ofNat value.1, pieces value.2) := by
    unfold Libraries.headerFields headerValues
    cases header.origin <;> rfl
  unfold Libraries.writeHeader
  rw [same]
  apply record_reads_values
  · have optional := length_optional_le header.origin fun origin => (2, Cbor.Value.bytes origin)
    have bounded : (headerValues header).length ≤ 2 + 1 := by
      rw [headerValues, List.length_append]
      exact Nat.add_le_add_left optional 2
    omega
  · simp [headerValues]
  · simp only [headerValues, List.forall_mem_append, List.forall_mem_cons, List.forall_mem_map,
      List.not_mem_nil, false_implies, implies_true, and_true, Option.mem_toList]
    exact ⟨⟨magicFits, fits_u32 header.formatVersion⟩, originFits⟩
  · obtain ⟨magic, formatVersion, origin⟩ := header
    have read : headerOfFields (headerValues ⟨magic, formatVersion, origin⟩) =
        (asU32 (.uint formatVersion.toNat) >>= fun formatVersion =>
          .ok ⟨magic, formatVersion, origin⟩) := by
      cases origin <;> rfl
    rw [read, asU32_uint]
    rfl

theorem heading_reads (heading : HeadingRepr) (fits : heading.streamId.length < 2 ^ 64) :
    cbor.heading.Reads (cbor.writeHeading heading).flatten heading := by
  have reads := @record_reads_values HeadingRepr [(0, .bytes heading.streamId)] headingOfFields
    heading (by simp) (by simp) (List.forall_mem_singleton.mpr fits) rfl
  exact reads

theorem body_reads (body : BodyRepr) (typeFits : (utf8Bytes body.eventType).length < 2 ^ 64)
    (metadataFits : ∀ metadata ∈ body.metadata, metadata.length < 2 ^ 64)
    (payloadFits : body.payload.length < 2 ^ 64) :
    cbor.body.Reads (cbor.writeBody body).flatten body := by
  have same : cbor.bodyFields body = (bodyValues body).map fun value =>
      (UInt32.ofNat value.1, pieces value.2) := by
    unfold Libraries.bodyFields bodyValues
    cases body.metadata <;> rfl
  unfold Libraries.writeBody
  rw [same]
  apply record_reads_values
  · have optional := length_optional_le body.metadata fun metadata =>
      (3, Cbor.Value.bytes metadata)
    have bounded : (bodyValues body).length ≤ 3 + (1 + 1) := by
      rw [bodyValues, List.length_append, List.length_append]
      exact Nat.add_le_add_left (Nat.add_le_add_right optional 1) 3
    omega
  · simp only [bodyValues, List.forall_mem_append, List.forall_mem_cons, List.forall_mem_map,
      List.not_mem_nil, false_implies, implies_true, and_true]
    exact ⟨by decide, fun _ _ => by decide, by decide⟩
  · simp only [bodyValues, List.forall_mem_append, List.forall_mem_cons, List.forall_mem_map,
      List.not_mem_nil, false_implies, implies_true, and_true, Option.mem_toList]
    exact ⟨⟨body.version.toNat_lt, fits_u32 body.schemaVersion, typeFits⟩, metadataFits,
      payloadFits⟩
  · obtain ⟨version, schemaVersion, eventType, metadata, payload⟩ := body
    have read : bodyOfFields (bodyValues ⟨version, schemaVersion, eventType, metadata, payload⟩) =
        (asU64 (.uint version.toNat) >>= fun version =>
          asU32 (.uint schemaVersion.toNat) >>= fun schemaVersion =>
          asText (.text (utf8Bytes eventType)) >>= fun eventType =>
          .ok ⟨version, schemaVersion, eventType, metadata, payload⟩) := by
      cases metadata <;> rfl
    rw [read, asU64_uint, asU32_uint, asText_utf8Bytes]
    rfl

/-- CBOR and CRC32C are lawful. -/
theorem cbor_lawful : cbor.Lawful where
  datatype_followed := by
    intro item kind isKind rest
    cases item with
    | nil => cases isKind
    | cons first item => exact isKind
  datatype_cut := by
    intro part missing kind isKind
    cases part with
    | nil => exact .inl ⟨.endOfInput, rfl, rfl⟩
    | cons first part => exact .inr isKind
  map_resumable := converted_short (Cbor.sized_resumable 5) _
  array_resumable := converted_short (Cbor.sized_resumable 4) _
  tag_resumable := converted_short (Cbor.sized_resumable 6) _
  u32_resumable := converted_short Cbor.item_resumable _
  u64_resumable := converted_short Cbor.item_resumable _
  bytes_resumable := converted_short Cbor.item_resumable _
  skip_resumable := converted_short Cbor.item_resumable _
  header_resumable := converted_short Cbor.record_resumable _
  heading_resumable := converted_short Cbor.record_resumable _
  body_resumable := converted_short Cbor.record_resumable _
  datatype_nil := by
    intro kind isKind
    cases isKind
  datatype_map := datatype_head (by decide)
  datatype_array := datatype_head (by decide)
  datatype_tag := datatype_head (by decide)
  map_reads length := sized_reads_piece (by decide) (definite_toNat length)
  array_reads length := sized_reads_piece (by decide) (definite_toNat length)
  tag_reads number := sized_reads_piece (by decide) (okOr_eq_ok.mpr (toU64_toNat number))
  u32_reads value := item_reads_pieces (fits_u32 value) (asU32_uint value)
  u64_reads value := @item_reads_pieces _ (.uint value.toNat) _ _ value.toNat_lt (asU64_uint value)
  bytes_reads bytes fits := @item_reads_pieces _ (.bytes bytes) _ _ fits rfl
  skip_u32 value := item_reads_pieces (fits_u32 value) rfl
  skip_u64 value := @item_reads_pieces _ (.uint value.toNat) _ _ value.toNat_lt rfl
  skip_bytes bytes fits := @item_reads_pieces _ (.bytes bytes) _ _ fits rfl
  skip_str text fits := @item_reads_pieces _ (.text (utf8Bytes text)) _ _ fits rfl
  header_reads := header_reads
  heading_reads := heading_reads
  body_reads := body_reads
  length_map length := length_head 5 _
  length_u32 value := length_head 0 _
  length_u64 value := length_head 0 _
  length_bytes bytes := length_pieces_bytes bytes
  length_str text := length_pieces_text _
  crc_nil := crc32cAppend_nil
  crc_append := crc32cAppend_append

end Mnesis.Chunk
