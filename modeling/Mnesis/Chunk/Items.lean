import Mnesis.Chunk.Script

/-!
# Reading items back

What a writer wrote is read back item by item, whatever follows, and an item that
was cut short is reported as torn.  Both are facts about the parsers of the
format, which inherit them from those of the codec.
-/

namespace Mnesis.Chunk

open Foundation Kernel Store Wire Import

variable {libs : Libraries}

section Records

variable (lawful : libs.Lawful)
include lawful

theorem probeKeys_resumable (count : Nat) (keys : List UInt32) :
    (probeKeys libs count keys).Resumable libs.Short := by
  induction count generalizing keys with
  | zero => exact .pure ()
  | succ count step =>
    unfold probeKeys
    apply lawful.u32_resumable.bind
    intro key
    apply Parser.Resumable.bind (.ofResult _)
    intro _
    apply lawful.skip_resumable.bind
    intro _
    exact step (key :: keys)

theorem decodeMap_resumable (resumable : decode.Resumable libs.Short) :
    (decodeMap libs decode).Resumable libs.Short := by
  unfold decodeMap
  apply Parser.Resumable.bind
  · apply Parser.Resumable.lookahead
    unfold probeMap
    apply lawful.map_resumable.bind
    intro length
    apply Parser.Resumable.bind (.ofResult _)
    intro length
    exact probeKeys_resumable lawful length.toNat []
  · intro _
    exact resumable

theorem probeKeys_reads {fields : List (UInt32 × List Bytes)}
    (skipped : ∀ field ∈ fields, libs.skip.Reads field.2.flatten ())
    (distinct : (fields.map Prod.fst).Nodup) (fresh : ∀ field ∈ fields, field.1 ∉ keys) :
    (probeKeys libs fields.length keys).Reads
      (fields.flatMap fun field => libs.writeU32 field.1 ++ field.2).flatten () := by
  induction fields generalizing keys with
  | nil => rfl
  | cons field fields step =>
    obtain ⟨skippedFirst, skipped⟩ := List.forall_mem_cons.mp skipped
    obtain ⟨freshFirst, fresh⟩ := List.forall_mem_cons.mp fresh
    obtain ⟨notAgain, distinct⟩ := List.nodup_cons.mp distinct
    have freshRest : ∀ other ∈ fields, other.1 ∉ field.1 :: keys := by
      intro other present known
      rcases List.mem_cons.mp known with same | known
      · apply notAgain
        rw [← same]
        exact List.mem_map_of_mem present
      · exact fresh other present known
    rw [List.flatMap_cons, List.flatten_append, List.flatten_append, List.append_assoc]
    unfold List.length probeKeys
    apply (lawful.u32_reads field.1).bind lawful.u32_resumable
    rw [rejectIf_of_not _ freshFirst]
    change (libs.skip >>= fun _ => probeKeys libs fields.length (field.1 :: keys)).Reads _ ()
    apply skippedFirst.bind lawful.skip_resumable
    exact step skipped distinct freshRest

/-- A map with distinct known keys is read back. -/
theorem decodeMap_reads {α : Type} {decode : Parser UInt8 libs.DecodeError α} {value : α}
    (among : (fields.map Prod.fst).Sublist keys) (distinct : keys.Nodup)
    (few : keys.length < 2 ^ 64) (skipped : ∀ field ∈ fields, libs.skip.Reads field.2.flatten ())
    (reads : decode.Reads (libs.record fields).flatten value) :
    (decodeMap libs decode).Reads (libs.record fields).flatten value := by
  have fewFields := among.length_le
  rw [List.length_map] at fewFields
  have length : (UInt64.ofNat fields.length).toNat = fields.length :=
    UInt64.toNat_ofNat_of_lt' (Nat.lt_of_le_of_lt fewFields few)
  have probed : (probeMap libs).Reads (libs.record fields).flatten () := by
    unfold probeMap Libraries.record
    rw [List.flatten_append]
    apply (lawful.map_reads _).bind lawful.map_resumable
    rw [okOr_some]
    change (probeKeys libs (UInt64.ofNat fields.length).toNat []).Reads _ ()
    rw [length]
    exact probeKeys_reads lawful skipped (distinct.sublist among) (by simp)
  unfold decodeMap Parser.Reads
  rw [Parser.run_bind_of_ok _ (Parser.run_lookahead_eq_ok.mpr ⟨⟨[], probed⟩, rfl⟩)]
  exact reads

omit lawful in
theorem forall_mem_optionalField {condition : UInt32 × List Bytes → Prop} :
    (∀ field ∈ libs.optionalField key value, condition field) ↔
      ∀ bytes ∈ value, condition (key, libs.writeBytes bytes) := by
  unfold Libraries.optionalField
  rw [List.forall_mem_map]
  simp only [Option.mem_toList, Option.mem_def]

omit lawful in
theorem keys_optionalField (key : UInt32) (value : Option Bytes) :
    ((libs.optionalField key value).map Prod.fst).Sublist [key] := by
  cases value with
  | none => exact List.nil_sublist _
  | some bytes => exact List.Sublist.refl _

theorem decodeMap_header_reads (origin : Option Slice) :
    (decodeMap libs libs.header).Reads (headerBytes libs origin)
      ⟨magic, formatVersion, origin.map Slice.bytes⟩ := by
  have short : magic.length < 2 ^ 64 := by decide
  have fits : ∀ bytes ∈ origin.map Slice.bytes, bytes.length < 2 ^ 64 := by
    intro bytes present
    obtain ⟨slice, _, rfl⟩ := Option.map_eq_some_iff.mp present
    exact slice.length_lt
  have reads := lawful.header_reads ⟨magic, formatVersion, origin.map Slice.bytes⟩ short fits
  have among : ((libs.headerFields ⟨magic, formatVersion, origin.map Slice.bytes⟩).map
      Prod.fst).Sublist ([0, 1] ++ [2]) := by
    unfold Libraries.headerFields
    rw [List.map_append]
    exact (List.Sublist.refl [0, 1]).append (keys_optionalField 2 _)
  apply decodeMap_reads lawful among (by decide) (by decide) _ reads
  simp only [Libraries.headerFields, List.forall_mem_append, List.forall_mem_cons,
    List.not_mem_nil, false_implies, implies_true, and_true, forall_mem_optionalField]
  exact ⟨⟨lawful.skip_bytes magic short, lawful.skip_u32 formatVersion⟩,
    fun bytes present => lawful.skip_bytes bytes (fits bytes present)⟩

theorem decodeMap_heading_reads (streamId : Slice) :
    (decodeMap libs libs.heading).Reads (Item.bytes libs (.heading streamId)) ⟨streamId.bytes⟩ := by
  have among : ((libs.headingFields ⟨streamId.bytes⟩).map Prod.fst).Sublist [0] :=
    List.Sublist.refl _
  apply decodeMap_reads lawful among (by decide) (by decide)
  · exact List.forall_mem_singleton.mpr (lawful.skip_bytes streamId.bytes streamId.length_lt)
  · exact lawful.heading_reads ⟨streamId.bytes⟩ streamId.length_lt

end Records

/-- The sizes of the fields of an event. -/
structure EventFits (body : BodyRepr) : Prop where
  eventType : (utf8Bytes body.eventType).length < 2 ^ 32
  metadata : ∀ metadata ∈ body.metadata, metadata.length < 2 ^ 32
  payload : body.payload.length < 2 ^ 32

theorem eventFits_bodyOf (event : PersistedEnvelope) : EventFits (ChunkWriter.bodyOf event) where
  eventType := by
    have bounded := event.toPending.eventType.length_le
    unfold maxEventTypeLen at bounded
    change (utf8Bytes event.eventType).length < _
    rw [event.utf8Bytes_eventType]
    omega
  metadata := by
    intro metadata present
    change event.metadata = some metadata at present
    rw [event.metadata_eq, Option.map_eq_some_iff] at present
    obtain ⟨value, _, rfl⟩ := present
    have bounded := value.length_le
    unfold maxMetadataLen at bounded
    omega
  payload := by
    have bounded := event.toPending.payload.length_le
    unfold maxPayloadLen at bounded
    change event.payload.length < _
    rw [event.payload_eq]
    omega

theorem keys_bodyFields (libs : Libraries) (body : BodyRepr) :
    ((libs.bodyFields body).map Prod.fst).Sublist ([0, 1, 2] ++ ([3] ++ [4])) := by
  unfold Libraries.bodyFields
  rw [List.map_append, List.map_append]
  exact (List.Sublist.refl [0, 1, 2]).append
    ((keys_optionalField 3 body.metadata).append (List.Sublist.refl [4]))

section Bodies

variable (lawful : libs.Lawful)
include lawful

theorem decodeMap_body_reads (fits : EventFits body) :
    (decodeMap libs libs.body).Reads (libs.writeBody body).flatten body := by
  obtain ⟨typeFits, metadataFits, payloadFits⟩ := fits
  have reads : libs.body.Reads (libs.writeBody body).flatten body := by
    apply lawful.body_reads body (by omega) _ (by omega)
    intro metadata present
    have short := metadataFits metadata present
    omega
  apply decodeMap_reads lawful (keys_bodyFields libs body) (by decide) (by decide) _ reads
  simp only [Libraries.bodyFields, List.forall_mem_append, List.forall_mem_cons,
    List.not_mem_nil, false_implies, implies_true, and_true, forall_mem_optionalField]
  refine ⟨⟨lawful.skip_u64 body.version, lawful.skip_u32 body.schemaVersion, ?_⟩, ?_, ?_⟩
  · exact lawful.skip_str body.eventType (by omega)
  · intro metadata present
    have short := metadataFits metadata present
    exact lawful.skip_bytes metadata (by omega)
  · exact lawful.skip_bytes body.payload (by omega)

theorem length_record_le (bounded : ∀ field ∈ fields, field.2.flatten.length ≤ bound) :
    (libs.record fields).flatten.length ≤ 9 + fields.length * (9 + bound) := by
  have values : (fields.flatMap fun field => libs.writeU32 field.1 ++ field.2).flatten.length ≤
      fields.length * (9 + bound) := by
    induction fields with
    | nil => exact Nat.zero_le _
    | cons field fields step =>
      obtain ⟨first, others⟩ := List.forall_mem_cons.mp bounded
      have key := lawful.length_u32 field.1
      have rest := step others
      rw [List.flatMap_cons, List.flatten_append, List.flatten_append, List.length_append,
        List.length_append, List.length_cons, Nat.succ_mul]
      omega
  have head := lawful.length_map (UInt64.ofNat fields.length)
  unfold Libraries.record
  rw [List.flatten_append, List.length_append]
  omega

theorem length_writeBody_le (fits : EventFits body) :
    (libs.writeBody body).flatten.length ≤ 9 + 5 * (9 + (2 ^ 32 + 9)) := by
  obtain ⟨typeFits, metadataFits, payloadFits⟩ := fits
  have few := (keys_bodyFields libs body).length_le
  rw [List.length_map] at few
  have bounded : ∀ field ∈ libs.bodyFields body, field.2.flatten.length ≤ 2 ^ 32 + 9 := by
    have version := lawful.length_u64 body.version
    have schemaVersion := lawful.length_u32 body.schemaVersion
    have eventType := lawful.length_str body.eventType
    have payload := lawful.length_bytes body.payload
    simp only [Libraries.bodyFields, List.forall_mem_append, List.forall_mem_cons,
      List.not_mem_nil, false_implies, implies_true, and_true, forall_mem_optionalField]
    refine ⟨⟨by omega, by omega, by omega⟩, ?_, by omega⟩
    intro bytes present
    have metadata := lawful.length_bytes bytes
    have short := metadataFits bytes present
    omega
  have total := length_record_le lawful bounded
  have product : (libs.bodyFields body).length * (9 + (2 ^ 32 + 9)) ≤ 5 * (9 + (2 ^ 32 + 9)) :=
    Nat.mul_le_mul_right _ few
  exact Nat.le_trans total (Nat.add_le_add_left product 9)

theorem length_writeBody_lt (fits : EventFits body) :
    (libs.writeBody body).flatten.length < 2 ^ 64 :=
  Nat.lt_of_le_of_lt (length_writeBody_le lawful fits) (by decide)

end Bodies

theorem checkBodyMetadata_asSlice (metadata : Option Metadata) :
    checkBodyMetadata (metadata.map Metadata.asSlice) = .ok () := by
  cases metadata with
  | none => rfl
  | some metadata =>
    change (do
      rejectIf (metadata.asSlice = []) (.value .metadataEmpty)
      rejectIf (maxMetadataLen < metadata.asSlice.length)
        (.value (.metadataTooLong metadata.asSlice.length)) : Except BackupEventError Unit) = _
    rw [rejectIf_of_not _ metadata.nonempty, ok_bind,
      rejectIf_of_not _ (Nat.not_lt.mpr metadata.length_le)]

theorem readMetadata_asSlice (metadata : Option Metadata) :
    readMetadata (metadata.map Metadata.asSlice) ((metadata.map Metadata.asSlice).getD []) =
      .ok metadata := by
  cases metadata with
  | none => rfl
  | some metadata =>
    change (Metadata.fromBytes metadata.asSlice >>= fun metadata => .ok (some metadata)) = _
    rw [Metadata.fromBytes_asSlice, ok_bind]

theorem length_getD_asSlice (metadata : Option Metadata) :
    ((metadata.map Metadata.asSlice).map List.length).getD 0 =
      ((metadata.map Metadata.asSlice).getD []).length := by
  cases metadata <;> rfl

/-- How many bytes the fields of an event have together. -/
def compactLen (pending : PendingEnvelope) : Nat :=
  pending.eventType.asBytes.length + ((pending.metadata.map Metadata.asSlice).getD []).length +
    pending.payload.asSlice.length

theorem compactLen_le (pending : PendingEnvelope) : compactLen pending ≤ envelopeLen pending := by
  unfold compactLen envelopeLen frameLen payloadOffset prePayloadLen
  cases pending.metadata with
  | none =>
    simp only [Option.map_none, Option.getD_none, List.length_nil]
    omega
  | some metadata =>
    simp only [Option.map_some, Option.getD_some]
    omega

/-- The fields of an event pass all checks up to the frame. -/
theorem reconstruct_of_short (version : body.version = pending.version.asU64)
    (schema : body.schemaVersion = pending.schemaVersion.get)
    (eventType : utf8Bytes body.eventType = pending.eventType.asBytes)
    (metadata : body.metadata = pending.metadata.map Metadata.asSlice)
    (payload : body.payload = pending.payload.asSlice) (short : compactLen pending < 2 ^ 32) :
    reconstruct body =
      ((encodeFrame pending.schemaVersion pending.eventType pending.payload
        pending.metadata).mapError BackupEventError.wire >>= fun frame =>
      (PersistedEnvelope.tryNew pending.version frame.value pending.schemaVersion
        frame.offsets.eventType frame.offsets.payload frame.offsets.metadata).mapError
          BackupEventError.envelope) := by
  unfold compactLen at short
  have typeFits := Nat.not_lt.mpr pending.eventType.length_le
  have payloadFits := Nat.not_lt.mpr pending.payload.length_le
  have metadataEnd : narrow usizeLimit (pending.eventType.asBytes.length +
      ((pending.metadata.map Metadata.asSlice).getD []).length) = some _ :=
    narrow_of_lt (by unfold usizeLimit; omega)
  have total : narrow usizeLimit (pending.eventType.asBytes.length +
      ((pending.metadata.map Metadata.asSlice).getD []).length +
        pending.payload.asSlice.length) = some _ :=
    narrow_of_lt (by unfold usizeLimit; omega)
  unfold reconstruct
  rw [version, schema, eventType, metadata, payload]
  simp only [Version.new_eq_some.mpr rfl,
    okOr_some, ok_bind, SchemaVersion.fromU32_get, mapError_ok, rejectIf_of_not _ typeFits,
    checkBodyMetadata_asSlice, rejectIf_of_not _ payloadFits, length_getD_asSlice, metadataEnd,
    total, toU32_of_lt short]
  rw [extract_first rfl, EventType.fromBytes_asBytes, mapError_ok, ok_bind,
    extract_middle rfl rfl, readMetadata_asSlice, ← List.append_assoc,
    extract_last List.length_append rfl, Payload.fromBytes_asSlice]
  rfl

/-- An event whose frame can be encoded. -/
def Encodable (event : PersistedEnvelope) : Prop :=
  ∃ frame, encodeFrame event.schemaVersion event.eventTypeValue event.payloadValue
    event.metadataValue = .ok frame

theorem encodable_iff : Encodable event ↔ envelopeLen event.toPending < 2 ^ 32 := by
  constructor
  · rintro ⟨frame, encoded⟩
    exact ((@encodeFrame_envelope event.toPending frame).mp encoded).1
  · intro short
    exact ⟨frameOf event.toPending, (@encodeFrame_envelope event.toPending _).mpr ⟨short, rfl⟩⟩

theorem reconstruct_of_encodable (encodable : Encodable event) :
    ∃ envelope, reconstruct (ChunkWriter.bodyOf event) = .ok envelope ∧
      envelope.toPending = event.toPending := by
  have short := encodable_iff.mp encodable
  obtain ⟨frame, encoded⟩ := encodable
  obtain ⟨envelope, built, same⟩ := tryNew_encodeFrame encoded event.version
  refine ⟨envelope, ?_, same⟩
  rw [reconstruct_of_short rfl rfl event.utf8Bytes_eventType event.metadata_eq event.payload_eq]
  · change ((encodeFrame event.schemaVersion event.eventTypeValue event.payloadValue
      event.metadataValue).mapError _ >>= _) = _
    rw [encoded, mapError_ok, ok_bind]
    change (PersistedEnvelope.tryNew event.version _ event.schemaVersion _ _ _).mapError _ = _
    rw [built, mapError_ok]
  · exact Nat.lt_of_le_of_lt (compactLen_le event.toPending) short

theorem reconstruct_of_not_encodable
    (short : compactLen event.toPending < 2 ^ 32) (refused : ¬ Encodable event) :
    ∃ error, reconstruct (ChunkWriter.bodyOf event) = .error (.wire error) := by
  rw [reconstruct_of_short rfl rfl event.utf8Bytes_eventType event.metadata_eq event.payload_eq
    short]
  change ∃ error, ((encodeFrame event.schemaVersion event.eventTypeValue event.payloadValue
    event.metadataValue).mapError BackupEventError.wire >>= _) = _
  cases encoded : encodeFrame event.schemaVersion event.eventTypeValue event.payloadValue
    event.metadataValue with
  | ok frame => exact absurd ⟨frame, encoded⟩ refused
  | error error => exact ⟨error, rfl⟩

end Mnesis.Chunk
