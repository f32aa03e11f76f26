import Mnesis.Chunk.Items

/-!
# Salvaging what a writer left

Salvage of a prefix of a backup recovers the items that are wholly in it.  The
last part of the prefix is a torn item or a part of the completion record, which
salvage leaves out; only the whole backup is found to be complete.
-/

namespace Mnesis.Chunk

open Foundation Kernel Store Wire Import

variable {libs : Libraries}

/-- The stop at a torn item. -/
def IsTorn (stop : Stop libs) : Prop := stop = .torn

theorem tornOr_of_short (isShort : libs.Short error) (context : String) :
    tornOr libs context error = .torn :=
  if_pos isShort

section Parsers

variable (lawful : libs.Lawful)
include lawful

omit lawful in
theorem tornOr_resumable {α : Type} {parser : Parser UInt8 libs.DecodeError α}
    (resumable : parser.Resumable libs.Short) (context : String) :
    (parser.mapError (tornOr libs context)).Resumable IsTorn :=
  resumable.mapError fun _ isShort => tornOr_of_short isShort context

theorem decodeHeading_resumable : (decodeHeading libs).Resumable IsTorn :=
  tornOr_resumable (decodeMap_resumable lawful lawful.heading_resumable) _

theorem readBlock_resumable : (readBlock libs).Resumable IsTorn := by
  unfold readBlock
  apply (tornOr_resumable lawful.array_resumable _).bind
  intro length
  apply Parser.Resumable.bind (.ofResult _)
  intro _
  apply (tornOr_resumable lawful.u32_resumable _).bind
  intro crc
  apply (tornOr_resumable lawful.bytes_resumable _).bind
  intro body
  exact .pure _

omit lawful in
theorem tornOr_reads {α : Type} {parser : Parser UInt8 libs.DecodeError α} {value : α}
    (reads : parser.Reads item value) (context : String) :
    (parser.mapError (tornOr libs context)).Reads item value :=
  Parser.run_mapError_eq_ok.mpr reads

theorem decodeHeading_reads (streamId : Slice) :
    (decodeHeading libs).Reads (Item.bytes libs (.heading streamId)) ⟨streamId.bytes⟩ :=
  tornOr_reads (decodeMap_heading_reads lawful streamId) _

theorem readBlock_reads (event : PersistedEnvelope) :
    (readBlock libs).Reads (Item.bytes libs (.block event)) (ChunkWriter.blockOf libs event) := by
  have short := length_writeBody_lt lawful (eventFits_bodyOf event)
  change (readBlock libs).Reads (libs.writeBlock _).flatten _
  unfold readBlock Libraries.writeBlock
  rw [List.flatten_append, List.flatten_append,
    ← List.append_nil (List.flatten (libs.writeBytes _))]
  apply (tornOr_reads (lawful.array_reads 2) _).bind (tornOr_resumable lawful.array_resumable _)
  change (do
    let crc ← libs.u32.mapError (tornOr libs "malformed block crc")
    let body ← libs.bytes.mapError (tornOr libs "malformed block body bytes")
    return ⟨crc, body⟩ : Parser UInt8 (Stop libs) BlockRepr).Reads _ _
  apply (tornOr_reads (lawful.u32_reads _) _).bind (tornOr_resumable lawful.u32_resumable _)
  apply (tornOr_reads (lawful.bytes_reads _ short) _).bind
    (tornOr_resumable lawful.bytes_resumable _)
  rfl

theorem decodeBody_blockOf (event : PersistedEnvelope) :
    decodeBody libs (ChunkWriter.blockOf libs event) =
      ((reconstruct (ChunkWriter.bodyOf event)).mapError ChunkError.event >>= fun envelope =>
        .ok (.event envelope)) := by
  have reads := decodeMap_body_reads lawful (eventFits_bodyOf event)
  unfold decodeBody ChunkWriter.blockOf
  rw [if_neg (not_not.mpr rfl), reads]
  rfl

end Parsers

/-- One round of salvage. -/
theorem salvageItems_round (libs : Libraries) (bytes : Bytes) (format : UInt32)
    (unfinished : CompletionError libs) (rounds : Nat) {state : Salvage}
    (nonempty : state.rest ≠ []) :
    salvageItems libs bytes format unfinished (rounds + 1) state =
      match salvageItem libs bytes format state with
      | .ok next => salvageItems libs bytes format unfinished rounds next
      | .error .torn => .ok (state.sections, .error unfinished)
      | .error (.completed result) => .ok (state.sections, result)
      | .error (.failed error) => .error error := by
  rw [salvageItems, if_neg nonempty]
  rfl

/-- What reading an item does to the sections read so far. -/
def readItem (sections : List StreamSection) : Item → Except BackupEventError (List StreamSection)
  | .heading streamId => return sections ++ [⟨streamId.bytes, []⟩]
  | .block event => do
    let envelope ← reconstruct (ChunkWriter.bodyOf event)
    return pushBlock (.event envelope) sections

theorem readItem_block (sections : List StreamSection) (event : PersistedEnvelope) :
    readItem sections (.block event) =
      (reconstruct (ChunkWriter.bodyOf event) >>= fun envelope =>
        .ok (pushBlock (.event envelope) sections)) := rfl

/-- Blocks stand behind a heading. -/
def Placed (sections : List StreamSection) (items : List Item) : Prop :=
  sections = [] → ∀ event, items.head? ≠ some (.block event)

section Salvage

variable (lawful : libs.Lawful)
include lawful

/-- A whole item is recovered. -/
theorem salvageItem_item (bytes : Bytes) (format : UInt32) (placed : Placed sections [item])
    (room : count.toNat + eventCount [item] < 2 ^ 64) (rest : Bytes) :
    salvageItem libs bytes format ⟨sections, count, item.bytes libs ++ rest⟩ =
      match readItem sections item with
      | .ok after => .ok ⟨after, count + UInt64.ofNat (eventCount [item]), rest⟩
      | .error error => .error (.failed (.event error)) := by
  unfold salvageItem
  rw [datatype_item lawful item rest]
  cases item with
  | heading streamId =>
    have read := (decodeHeading_reads lawful streamId).followed
      (decodeHeading_resumable lawful) rest
    change ((decodeHeading libs).run _ >>= _) = _
    rw [read]
    change Except.ok (⟨_, count, rest⟩ : Salvage) = .ok ⟨_, count + 0, rest⟩
    rw [UInt64.add_zero]
  | block event =>
    have begun : ¬ sections = [] := fun empty => placed empty event rfl
    have read := (readBlock_reads lawful event).followed (readBlock_resumable lawful) rest
    change (rejectIf (sections = []) _ >>= fun _ => (decodeBlock libs).run _ >>= _) = _
    rw [rejectIf_of_not _ begun, ok_bind, decodeBlock, Parser.run_bind_of_ok _ read,
      decodeBody_blockOf lawful, readItem_block]
    cases reconstruct (ChunkWriter.bodyOf event) with
    | error error => rfl
    | ok envelope =>
      change (okOr (checkedAdd count 1) _ >>= _) = _
      rw [checkedAdd_of_lt room]
      rfl

/-- A torn item ends the salvage. -/
theorem salvageItem_torn (bytes : Bytes) (format : UInt32) (placed : Placed sections [item])
    (isItem : item.bytes libs = part ++ missing) (cut : missing ≠ []) :
    salvageItem libs bytes format ⟨sections, count, part⟩ = .error .torn := by
  have isKind := datatype_item lawful item []
  rw [isItem, List.append_nil] at isKind
  unfold salvageItem
  rcases lawful.datatype_cut isKind with ⟨error, isShort, failed⟩ | found
  · rw [failed, mapError_error, tornOr_of_short isShort]
    rfl
  · rw [found]
    cases item with
    | heading streamId =>
      have reads := decodeHeading_reads lawful streamId
      rw [isItem] at reads
      obtain ⟨stop, isTorn, failed⟩ := reads.cut (decodeHeading_resumable lawful) cut
      change ((decodeHeading libs).run _ >>= _) = _
      rw [failed, isTorn]
      rfl
    | block event =>
      have begun : ¬ sections = [] := fun empty => placed empty event rfl
      have reads := readBlock_reads lawful event
      rw [isItem] at reads
      obtain ⟨stop, isTorn, failed⟩ := reads.cut (readBlock_resumable lawful) cut
      change (rejectIf (sections = []) _ >>= fun _ => (decodeBlock libs).run _ >>= _) = _
      rw [rejectIf_of_not _ begun, ok_bind, decodeBlock, Parser.run_bind_of_error _ failed, isTorn]
      rfl

omit lawful in
theorem pushBlock_ne_nil (begun : sections ≠ []) (block : ImportBlock) :
    pushBlock block sections ≠ [] := by
  unfold pushBlock
  split
  next => exact begun
  next => exact List.cons_ne_nil _ _
  next => exact List.cons_ne_nil _ _

omit lawful in
theorem readItem_ne_nil
    (placed : Placed sections [item]) (read : readItem sections item = .ok after) :
    after ≠ [] := by
  cases item with
  | heading streamId =>
    cases read
    exact List.append_ne_nil_of_right_ne_nil _ (List.cons_ne_nil _ _)
  | block event =>
    rw [readItem_block, bind_eq_ok] at read
    obtain ⟨envelope, _, built⟩ := read
    cases built
    exact pushBlock_ne_nil (fun empty => placed empty event rfl) _

/-- Items are read one after the other; the first that is no event ends salvage. -/
theorem salvageItems_items (bytes : Bytes) (format : UInt32) (unfinished : CompletionError libs)
    (rounds : Nat) (placed : Placed sections items) (room : count.toNat + eventCount items < 2 ^ 64)
    (rest : Bytes) :
    salvageItems libs bytes format unfinished (items.length + rounds)
        ⟨sections, count, items.flatMap (Item.bytes libs) ++ rest⟩ =
      match items.foldlM readItem sections with
      | .ok after => salvageItems libs bytes format unfinished rounds
          ⟨after, count + UInt64.ofNat (eventCount items), rest⟩
      | .error error => .error (.event error) := by
  induction items generalizing sections count with
  | nil =>
    rw [List.length_nil, Nat.zero_add]
    change _ = salvageItems libs bytes format unfinished rounds ⟨sections, count + 0, rest⟩
    rw [UInt64.add_zero]
    rfl
  | cons item items step =>
    have more : eventCount (item :: items) = eventCount [item] + eventCount items :=
      eventCount_append [item] items
    have placedFirst : Placed sections [item] := placed
    have nonempty : item.bytes libs ++ (items.flatMap (Item.bytes libs) ++ rest) ≠ [] :=
      List.append_ne_nil_of_left_ne_nil (bytes_ne_nil lawful item) _
    rw [List.length_cons, Nat.add_right_comm, List.flatMap_cons, List.append_assoc]
    rw [salvageItems_round libs bytes format unfinished _ nonempty,
      salvageItem_item lawful bytes format placedFirst (by omega), List.foldlM_cons]
    cases read : readItem sections item with
    | error error => rfl
    | ok after =>
      have counted : (count + UInt64.ofNat (eventCount [item])).toNat =
          count.toNat + eventCount [item] := toNat_add_ofNat (by omega)
      have placedRest : Placed after items := fun empty =>
        absurd empty (readItem_ne_nil placedFirst read)
      rw [ok_bind, more, UInt64.ofNat_add, ← UInt64.add_assoc]
      apply step placedRest
      omega

end Salvage

end Mnesis.Chunk
