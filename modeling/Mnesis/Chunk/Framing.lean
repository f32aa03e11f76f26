import Mnesis.Chunk.Backup

/-!
# Where a backup ends

What is accepted is read to its completion record, and the record is the last
item.  Bytes behind it do not change what is read up to there, but are refused.
So an accepted byte string has no accepted extension, and none of its prefixes is
accepted.
-/

namespace Mnesis.Chunk

open Foundation Kernel Store Import

variable {libs : Libraries}

/-- Stops other than behind a completion record. -/
def IsEarly (stop : Stop libs) : Prop := ∀ result, stop ≠ .completed result

theorem isEarly_tornOr (context : String) (error : libs.DecodeError) :
    IsEarly (tornOr libs context error) := by
  intro result same
  unfold tornOr at same
  split at same <;> cases same

theorem isEarly_failed (error : ChunkError libs) : IsEarly (.failed error) := by
  intro result same
  cases same

theorem failsWith_tornOr (parser : Parser UInt8 libs.DecodeError α) (context : String) :
    (parser.mapError (tornOr libs context)).FailsWith IsEarly :=
  .mapError parser (isEarly_tornOr context)

theorem failsWith_failed (result : Except (ChunkError libs) α) :
    (Parser.ofResult (result.mapError Stop.failed) : Parser UInt8 (Stop libs) α).FailsWith
      IsEarly := by
  apply Parser.FailsWith.ofResult
  intro error failed
  obtain ⟨original, _, rfl⟩ := mapError_eq_error.mp failed
  exact isEarly_failed original

theorem decodeBlock_failsWith : (decodeBlock libs).FailsWith IsEarly := by
  unfold decodeBlock readBlock
  apply Parser.FailsWith.bind _ fun block => failsWith_failed _
  apply (failsWith_tornOr libs.array _).bind
  intro length
  apply (failsWith_failed _).bind
  intro _
  apply (failsWith_tornOr libs.u32 _).bind
  intro crc
  apply (failsWith_tornOr libs.bytes _).bind
  intro body
  exact .pure _

theorem salvageItem_completed
    (stopped : salvageItem libs bytes format ⟨sections, count, rest⟩ = .error (.completed result)) :
    libs.datatype rest = .ok .tag ∧ format = formatVersion ∧
      ∃ sectionCount, toU64 sections.length = some sectionCount ∧
        result = decodeCompletion libs bytes (bytes.length - rest.length) sectionCount count
          rest := by
  unfold salvageItem at stopped
  rcases bind_eq_error.mp stopped with failed | ⟨kind, isKind, stopped⟩
  · obtain ⟨error, _, same⟩ := mapError_eq_error.mp failed
    exact absurd same (isEarly_tornOr _ error result)
  cases kind with
  | map =>
    rcases bind_eq_error.mp stopped with failed | ⟨_, _, failed⟩
    · exact absurd rfl (failsWith_tornOr _ _ _ _ failed result)
    · cases failed
  | array =>
    rcases bind_eq_error.mp stopped with failed | ⟨_, _, stopped⟩
    · unfold rejectIf at failed
      split at failed <;> cases failed
    rcases bind_eq_error.mp stopped with failed | ⟨read, _, stopped⟩
    · exact absurd rfl (decodeBlock_failsWith _ _ failed result)
    rcases bind_eq_error.mp stopped with failed | ⟨_, _, failed⟩
    · cases (okOr_eq_error.mp failed).2
    · cases failed
  | tag =>
    change (if format = formatVersion then _ else _) = _ at stopped
    split at stopped
    next current =>
      rcases bind_eq_error.mp stopped with failed | ⟨sectionCount, counted, checked⟩
      · cases (okOr_eq_error.mp failed).2
      · cases checked
        exact ⟨mapError_eq_ok.mp isKind, current, sectionCount, okOr_eq_ok.mp counted, rfl⟩
    next => cases stopped
  | other => cases stopped

section Extension

variable (lawful : libs.Lawful)
include lawful

theorem readHeader_extended (read : readHeader libs bytes = .ok (header, rest)) (tail : Bytes) :
    readHeader libs (bytes ++ tail) = .ok (header, rest ++ tail) := by
  unfold readHeader at read ⊢
  obtain ⟨⟨repr, left⟩, parsed, checked⟩ := bind_eq_ok.mp read
  have extended := (decodeMap_resumable lawful lawful.header_resumable).extended
    (mapError_eq_ok.mp parsed) tail
  obtain ⟨_, valid, built⟩ := bind_eq_ok.mp checked
  cases built
  rw [extended, mapError_ok, ok_bind]
  change (validateHeader libs repr.magic repr.formatVersion >>= _) = _
  rw [valid]
  rfl

theorem decodeCompletion_extended
    (right : decodeCompletion libs bytes position sections events input = .ok ()) (more : tail ≠ [])
    (bytes' : Bytes) (position' : Nat) :
    decodeCompletion libs bytes' position' sections events (input ++ tail) =
      .error .trailingBytes := by
  unfold decodeCompletion at right ⊢
  obtain ⟨⟨declared, rest⟩, parsed, checked⟩ := bind_eq_ok.mp right
  have extended := (completionRecord_resumable lawful).extended parsed tail
  have behind : rest ++ tail ≠ [] := List.append_ne_nil_of_right_ne_nil rest more
  rw [extended, ok_bind]
  change (rejectIf (rest ++ tail ≠ []) _ >>= _) = _
  rw [rejectIf_of _ behind]
  rfl

theorem decodeHeading_extended
    (read : (decodeHeading libs).run input = .ok (heading, rest)) (tail : Bytes) :
    (decodeHeading libs).run (input ++ tail) = .ok (heading, rest ++ tail) :=
  (decodeHeading_resumable lawful).extended read tail

theorem decodeBlock_extended
    (read : (decodeBlock libs).run input = .ok (block, rest)) (tail : Bytes) :
    (decodeBlock libs).run (input ++ tail) = .ok (block, rest ++ tail) := by
  have resumable : (decodeBlock libs).Resumable IsTorn :=
    (readBlock_resumable lawful).bind fun _ => .ofResult _
  exact resumable.extended read tail

theorem salvageItem_extended
    (read : salvageItem libs bytes format ⟨sections, count, rest⟩ = .ok next)
    (bytes' tail : Bytes) :
    salvageItem libs bytes' format ⟨sections, count, rest ++ tail⟩ =
      .ok { next with rest := next.rest ++ tail } := by
  unfold salvageItem at read ⊢
  obtain ⟨kind, isKind, read⟩ := bind_eq_ok.mp read
  rw [lawful.datatype_followed (mapError_eq_ok.mp isKind) tail, mapError_ok, ok_bind]
  cases kind with
  | map =>
    obtain ⟨⟨heading, left⟩, parsed, built⟩ := bind_eq_ok.mp read
    cases built
    change ((decodeHeading libs).run (rest ++ tail) >>= _) = _
    rw [decodeHeading_extended lawful parsed tail]
    rfl
  | array =>
    obtain ⟨_, begun, read⟩ := bind_eq_ok.mp read
    obtain ⟨⟨block, left⟩, parsed, read⟩ := bind_eq_ok.mp read
    obtain ⟨counted, isCounted, built⟩ := bind_eq_ok.mp read
    cases built
    change (rejectIf (sections = []) _ >>= fun _ => (decodeBlock libs).run (rest ++ tail) >>= _) = _
    rw [begun, ok_bind, decodeBlock_extended lawful parsed tail, ok_bind]
    change (okOr (checkedAdd count 1) _ >>= _) = _
    rw [isCounted]
    rfl
  | tag =>
    exfalso
    change (if format = formatVersion then _ else _) = _ at read
    split at read
    next =>
      obtain ⟨_, _, failed⟩ := bind_eq_ok.mp read
      cases failed
    next => cases read
  | other => cases read

/-- Bytes behind the completion record are seen. -/
theorem salvageItems_extended
    (complete : salvageItems libs bytes format unfinished rounds state = .ok (sections, .ok ()))
    (more : tail ≠ []) (bytes' : Bytes) (extra : Nat) :
    salvageItems libs bytes' format unfinished (rounds + extra)
        { state with rest := state.rest ++ tail } =
      .ok (sections, .error .trailingBytes) := by
  induction rounds generalizing state with
  | zero => cases complete
  | succ rounds step =>
    have nonempty : state.rest ≠ [] := by
      intro ended
      rw [salvageItems, if_pos ended] at complete
      cases complete
    have nonempty' : state.rest ++ tail ≠ [] := List.append_ne_nil_of_left_ne_nil nonempty tail
    rw [salvageItems_round libs bytes format unfinished rounds nonempty] at complete
    rw [Nat.add_right_comm, @salvageItems_round libs bytes' format unfinished (rounds + extra)
      { state with rest := state.rest ++ tail } nonempty']
    split at complete
    next next read =>
      rw [salvageItem_extended lawful read bytes' tail]
      exact step complete
    next => cases complete
    next result stopped =>
      cases complete
      obtain ⟨isTag, rfl, sectionCount, counted, right⟩ := salvageItem_completed stopped
      have refused := decodeCompletion_extended lawful right.symm more bytes'
        (bytes'.length - (state.rest ++ tail).length)
      have stopped' : salvageItem libs bytes' formatVersion
          ⟨state.sections, state.eventCount, state.rest ++ tail⟩ =
            .error (.completed (.error .trailingBytes)) := by
        unfold salvageItem
        rw [lawful.datatype_followed isTag tail, mapError_ok, ok_bind]
        change (okOr (toU64 state.sections.length) _ >>= _) = _
        rw [counted, okOr_some, ok_bind, refused]
        rfl
      rw [stopped']
    next => cases complete

end Extension

theorem decodeChunk_extended (lawful : libs.Lawful)
    (accepted : decodeChunk libs bytes = .ok sections)
    (more : tail ≠ []) :
    decodeChunk libs (bytes ++ tail) = .error (.completion .trailingBytes) := by
  obtain ⟨header, salvaged⟩ := salvage_of_decodeChunk accepted
  unfold salvageChunk at salvaged
  obtain ⟨⟨_, rest⟩, read, salvaged⟩ := bind_eq_ok.mp salvaged
  obtain ⟨⟨_, _⟩, complete, built⟩ := bind_eq_ok.mp salvaged
  cases built
  have refused := salvageItems_extended lawful complete more (bytes ++ tail) tail.length
  rw [← List.length_append] at refused
  unfold decodeChunk salvageChunk
  rw [readHeader_extended lawful read tail, ok_bind]
  change ((salvageItems libs (bytes ++ tail) _ _ _ ⟨[], 0, rest ++ tail⟩ >>= _) >>= _) = _
  rw [refused]
  rfl

/-- No part of an accepted byte string and nothing longer is accepted. -/
theorem accepted_backup_stands_alone (lawful : libs.Lawful) {bytes : Bytes}
    {sections : List StreamSection} (accepted : decodeChunk libs bytes = .ok sections) :
    (∀ part, part <+: bytes → part ≠ bytes → ∀ other, decodeChunk libs part ≠ .ok other) ∧
      ∀ longer, bytes <+: longer → longer ≠ bytes →
        ∀ other, decodeChunk libs longer ≠ .ok other := by
  constructor
  · rintro part ⟨missing, rfl⟩ shorter other acceptedPart
    have more : missing ≠ [] := by
      rintro rfl
      exact shorter (List.append_nil part).symm
    rw [decodeChunk_extended lawful acceptedPart more] at accepted
    cases accepted
  · rintro longer ⟨tail, rfl⟩ different other acceptedLonger
    have more : tail ≠ [] := by
      rintro rfl
      exact different (List.append_nil bytes)
    rw [decodeChunk_extended lawful accepted more] at acceptedLonger
    cases acceptedLonger

/-- A backup of one event is accepted, and not without its last byte or with another
byte behind it. -/
theorem small_backup_stands_alone :
    let backup := finished cbor none (scriptItems (oneEvent smallEvent))
    (∃ sections, decodeChunk cbor backup = .ok sections ∧
        sections.map readValues = [([], [some smallEvent.toPending])]) ∧
      (∀ other, decodeChunk cbor backup.dropLast ≠ .ok other) ∧
      ∀ byte other, decodeChunk cbor (backup ++ [byte]) ≠ .ok other := by
  intro backup
  obtain ⟨sections, accepted, values⟩ := decodeChunk_written cbor_lawful
    (oneEvent_encodable smallEvent_encodable) (length_oneEvent_lt smallEvent)
  obtain ⟨parts, longer⟩ := accepted_backup_stands_alone cbor_lawful accepted
  refine ⟨⟨sections, accepted, values⟩, parts _ (List.dropLast_prefix _) ?_, fun byte => ?_⟩
  · decide +kernel
  · exact longer _ (List.prefix_append _ _) (by simp [backup])

/-- The headings and blocks of sections in their order. -/
def itemsOf (sections : List StreamSection) : List (Bytes ⊕ ImportBlock) :=
  sections.flatMap fun entry => .inl entry.origin :: entry.blocks.map .inr

theorem itemsOf_pushBlock (begun : sections ≠ []) (block : ImportBlock) :
    itemsOf (pushBlock block sections) = itemsOf sections ++ [.inr block] := by
  obtain ⟨front, last, rfl⟩ := (List.eq_nil_or_concat' sections).resolve_left begun
  simp [pushBlock_append, itemsOf]

theorem itemsOf_salvageItem (read : salvageItem libs bytes format state = .ok next) :
    itemsOf state.sections <+: itemsOf next.sections := by
  unfold salvageItem at read
  obtain ⟨kind, _, read⟩ := bind_eq_ok.mp read
  cases kind with
  | map =>
    obtain ⟨_, _, built⟩ := bind_eq_ok.mp read
    cases built
    exact ⟨_, List.flatMap_append.symm⟩
  | array =>
    obtain ⟨_, begun, read⟩ := bind_eq_ok.mp read
    obtain ⟨_, _, read⟩ := bind_eq_ok.mp read
    obtain ⟨_, _, built⟩ := bind_eq_ok.mp read
    cases built
    exact ⟨_, (itemsOf_pushBlock (rejectIf_eq_ok.mp begun) _).symm⟩
  | tag =>
    change (if format = formatVersion then _ else _) = _ at read
    split at read
    · obtain ⟨_, _, failed⟩ := bind_eq_ok.mp read
      cases failed
    · cases read
  | other => cases read

theorem itemsOf_salvageItems
    (salvaged : salvageItems libs bytes format unfinished rounds state = .ok result) :
    itemsOf state.sections <+: itemsOf result.1 := by
  induction rounds generalizing state with
  | zero =>
    cases salvaged
    exact List.prefix_rfl
  | succ rounds step =>
    unfold salvageItems at salvaged
    split at salvaged
    · cases salvaged
      exact List.prefix_rfl
    · split at salvaged
      next read => exact (itemsOf_salvageItem read).trans (step salvaged)
      next =>
        cases salvaged
        exact List.prefix_rfl
      next =>
        cases salvaged
        exact List.prefix_rfl
      next => cases salvaged

/-- Bytes behind a cut add items at the end. -/
theorem itemsOf_extended (lawful : libs.Lawful)
    (alone : salvageItems libs bytes format unfinished rounds state = .ok part)
    (followed : salvageItems libs bytes' format unfinished (rounds + extra)
      { state with rest := state.rest ++ tail } = .ok whole) :
    itemsOf part.1 <+: itemsOf whole.1 := by
  induction rounds generalizing state with
  | zero =>
    have kept := itemsOf_salvageItems followed
    cases alone
    exact kept
  | succ rounds step =>
    have kept := itemsOf_salvageItems followed
    unfold salvageItems at alone
    split at alone
    · cases alone
      exact kept
    · next nonempty =>
      split at alone
      next next read =>
        have nonempty' : state.rest ++ tail ≠ [] := List.append_ne_nil_of_left_ne_nil nonempty tail
        rw [Nat.add_right_comm, @salvageItems_round libs bytes' format unfinished (rounds + extra)
          { state with rest := state.rest ++ tail } nonempty',
          salvageItem_extended lawful read bytes' tail] at followed
        exact step alone followed
      next =>
        cases alone
        exact kept
      next =>
        cases alone
        exact kept
      next => cases alone

/-- Salvage of a part of the bytes finds the same header and the first of the headings and
blocks. -/
theorem cuts_recover_less (lawful : libs.Lawful) {bytes cut : Bytes}
    {part whole : SalvagedChunk libs} (isCut : cut <+: bytes)
    (alone : salvageChunk libs cut = .ok part) (followed : salvageChunk libs bytes = .ok whole) :
    part.header = whole.header ∧ itemsOf part.sections <+: itemsOf whole.sections := by
  obtain ⟨tail, rfl⟩ := isCut
  unfold salvageChunk at alone followed
  obtain ⟨⟨header, rest⟩, read, alone⟩ := bind_eq_ok.mp alone
  obtain ⟨found, recovered, built⟩ := bind_eq_ok.mp alone
  cases built
  rw [readHeader_extended lawful read tail, ok_bind] at followed
  obtain ⟨more, recoveredMore, built⟩ := bind_eq_ok.mp followed
  cases built
  rw [List.length_append] at recoveredMore
  exact ⟨rfl, itemsOf_extended lawful recovered recoveredMore⟩

/-- A backup that is cut in its only heading. -/
theorem torn_heading_is_lost :
    let bytes := layout cbor none [.heading ⟨[1], by decide⟩, .heading ⟨[2], by decide⟩]
    ∃ part whole, salvageChunk cbor bytes.dropLast = .ok part ∧
      salvageChunk cbor bytes = .ok whole ∧ itemsOf part.sections <+: itemsOf whole.sections := by
  intro bytes
  have alone : (salvageChunk cbor bytes.dropLast).toOption.isSome = true := by decide +kernel
  have followed : (salvageChunk cbor bytes).toOption.isSome = true := by decide +kernel
  rcases isPart : salvageChunk cbor bytes.dropLast with _ | part
  · simp [isPart, Except.toOption] at alone
  rcases isWhole : salvageChunk cbor bytes with _ | whole
  · simp [isWhole, Except.toOption] at followed
  exact ⟨part, whole, rfl, rfl,
    (cuts_recover_less cbor_lawful (List.dropLast_prefix _) isPart isWhole).2⟩

end Mnesis.Chunk
