import Mnesis.Chunk.Prefix

/-!
# What is recovered

Items form sections: a heading with the events up to the next heading.  Reading
items gives back these sections, with the values of every event whose frame can
be encoded.
-/

namespace Mnesis.Chunk

open Foundation Kernel Store Wire Import

variable {SourceError : Type}

/-- The events in front of the next heading. -/
def leadingEvents : List Item → List PersistedEnvelope
  | .block event :: items => event :: leadingEvents items
  | .heading _ :: _ => []
  | [] => []

/-- The sections that items form. -/
def sectionsOf : List Item → List (Bytes × List PersistedEnvelope)
  | .heading streamId :: items => (streamId.bytes, leadingEvents items) :: sectionsOf items
  | .block _ :: items => sectionsOf items
  | [] => []

/-- The events that an operation writes. -/
def SectionOp.events : SectionOp SourceError → List PersistedEnvelope
  | .block event => [event]
  | .extend source => yielded source.items

/-- The stream of a section and the events that it writes. -/
def SectionScript.contents (script : SectionScript SourceError) :
    Bytes × List PersistedEnvelope :=
  (script.streamId.bytes, script.ops.flatMap SectionOp.events)

theorem SectionScript.items_eq (script : SectionScript SourceError) :
    script.items =
      .heading script.streamId :: (script.ops.flatMap SectionOp.events).map .block := by
  have same : script.ops.flatMap SectionOp.items =
      (script.ops.flatMap SectionOp.events).map .block := by
    rw [List.map_flatMap]
    congr 1
    funext op
    cases op <;> rfl
  rw [SectionScript.items, same]

@[simp] theorem leadingEvents_blocks (events : List PersistedEnvelope) (items : List Item) :
    leadingEvents (events.map .block ++ items) = events ++ leadingEvents items := by
  induction events with
  | nil => rfl
  | cons event events step => exact congrArg (event :: ·) step

@[simp] theorem sectionsOf_blocks (events : List PersistedEnvelope) (items : List Item) :
    sectionsOf (events.map .block ++ items) = sectionsOf items := by
  induction events with
  | nil => rfl
  | cons event events step => exact step

theorem leadingEvents_scriptItems (scripts : List (SectionScript SourceError)) :
    leadingEvents (scriptItems scripts) = [] := by
  cases scripts <;> rfl

theorem sectionsOf_scriptItems (scripts : List (SectionScript SourceError)) :
    sectionsOf (scriptItems scripts) = scripts.map SectionScript.contents := by
  induction scripts with
  | nil => rfl
  | cons script scripts step =>
    have split : scriptItems (script :: scripts) = .heading script.streamId ::
        ((script.ops.flatMap SectionOp.events).map .block ++ scriptItems scripts) := by
      rw [scriptItems, List.flatMap_cons, script.items_eq]
      rfl
    rw [split, sectionsOf, leadingEvents_blocks, leadingEvents_scriptItems, List.append_nil,
      sectionsOf_blocks, step]
    rfl

theorem placed_scriptItems (scripts : List (SectionScript SourceError)) :
    Placed [] (scriptItems scripts) := by
  intro _ event isBlock
  cases scripts <;> cases isBlock

/-- The values of the event of a block, unless it is corrupt. -/
def blockValues : ImportBlock → Option PendingEnvelope
  | .event envelope => some envelope.toPending
  | .corrupt => none

/-- The stream of a section that was read and the values of its blocks. -/
def readValues (entry : StreamSection) : Bytes × List (Option PendingEnvelope) :=
  (entry.origin, entry.blocks.map blockValues)

/-- The stream of a section that was written and the values of its events. -/
def writtenValues (entry : Bytes × List PersistedEnvelope) :
    Bytes × List (Option PendingEnvelope) :=
  (entry.1, entry.2.map fun event => some event.toPending)

theorem pushBlock_append (sections : List StreamSection) (last : StreamSection)
    (block : ImportBlock) :
    pushBlock block (sections ++ [last]) =
      sections ++ [{ last with blocks := last.blocks ++ [block] }] := by
  induction sections with
  | nil => rfl
  | cons first sections step =>
    cases sections with
    | nil => rfl
    | cons next sections => exact congrArg (first :: ·) step

/-- All events among items have frames that can be encoded. -/
def AllEncodable (items : List Item) : Prop :=
  ∀ event, .block event ∈ items → Encodable event

theorem allEncodable_scriptItems {scripts : List (SectionScript SourceError)}
    (encodable : ∀ script ∈ scripts, ∀ event ∈ script.contents.2, Encodable event) :
    AllEncodable (scriptItems scripts) := by
  intro event present
  obtain ⟨script, isScript, present⟩ := List.mem_flatMap.mp present
  rw [script.items_eq] at present
  rcases List.mem_cons.mp present with isHeading | present
  · cases isHeading
  · obtain ⟨other, isOther, same⟩ := List.mem_map.mp present
    cases same
    exact encodable script isScript event isOther

/-- Items read behind a heading extend its section and form new ones. -/
theorem foldlM_readItem_behind (encodable : AllEncodable items)
    (sections : List StreamSection) (last : StreamSection) :
    ∃ after, items.foldlM readItem (sections ++ [last]) = .ok after ∧
      after.map readValues = sections.map readValues ++
        (last.origin, last.blocks.map blockValues ++
          (leadingEvents items).map fun event => some event.toPending) ::
          (sectionsOf items).map writtenValues := by
  induction items generalizing sections last with
  | nil =>
    refine ⟨sections ++ [last], rfl, ?_⟩
    rw [List.map_append, leadingEvents, List.map_nil, List.append_nil]
    rfl
  | cons item items step =>
    have encodableRest : AllEncodable items := fun event present =>
      encodable event (List.mem_cons_of_mem item present)
    cases item with
    | heading streamId =>
      obtain ⟨after, read, values⟩ := step encodableRest (sections ++ [last]) ⟨streamId.bytes, []⟩
      refine ⟨after, read, ?_⟩
      rw [values, List.map_append, List.append_assoc, leadingEvents, List.map_nil, List.map_nil,
        List.append_nil]
      rfl
    | block event =>
      obtain ⟨envelope, built, same⟩ :=
        reconstruct_of_encodable (encodable event List.mem_cons_self)
      obtain ⟨after, read, values⟩ := step encodableRest sections
        { last with blocks := last.blocks ++ [.event envelope] }
      refine ⟨after, ?_, ?_⟩
      · rw [List.foldlM_cons, readItem_block, built, ok_bind, pushBlock_append]
        exact read
      · rw [values, List.map_append, List.append_assoc, List.map_singleton, blockValues, same]
        rfl

theorem foldlM_readItem (placed : Placed [] items) (encodable : AllEncodable items) :
    ∃ sections, items.foldlM readItem [] = .ok sections ∧
      sections.map readValues = (sectionsOf items).map writtenValues := by
  cases items with
  | nil => exact ⟨[], rfl, rfl⟩
  | cons item items =>
    cases item with
    | block event => exact absurd rfl (placed rfl event)
    | heading streamId =>
      have encodableRest : AllEncodable items := fun event present =>
        encodable event (List.mem_cons_of_mem _ present)
      exact foldlM_readItem_behind encodableRest [] ⟨streamId.bytes, []⟩

theorem not_corrupt_of_values {sections : List StreamSection}
    {written : List (Bytes × List PersistedEnvelope)}
    (values : sections.map readValues = written.map writtenValues) :
    ∀ entry ∈ sections, .corrupt ∉ entry.blocks := by
  intro entry present corrupt
  have among : readValues entry ∈ written.map writtenValues := values ▸ List.mem_map_of_mem present
  obtain ⟨other, _, same⟩ := List.mem_map.mp among
  have absent : none ∈ (writtenValues other).2 := by
    rw [same]
    exact List.mem_map.mpr ⟨.corrupt, corrupt, rfl⟩
  obtain ⟨event, _, isNone⟩ := List.mem_map.mp absent
  cases isNone

/-- A prefix is salvaged if the events that lie wholly in it can be encoded. -/
theorem salvageChunk_of_encodable (lawful : libs.Lawful) (placed : Placed [] items)
    (isPrefix : cut <+: finished libs origin items)
    (fits : cut.length < 2 ^ 64) (long : (headerBytes libs origin).length ≤ cut.length)
    (encodable : AllEncodable (itemsWithin libs origin cut items)) :
    ∃ sections, salvageChunk libs cut = .ok ⟨headerOf origin, sections,
        if cut = finished libs origin items then .ok () else .error .missing⟩ ∧
      sections.map readValues = (sectionsOf (itemsWithin libs origin cut items)).map
        writtenValues := by
  have placedWithin : Placed [] (itemsWithin libs origin cut items) := by
    have first : itemsWithin libs origin cut items <+: items := wholeItems_prefix _ items
    obtain ⟨rest, split⟩ := first
    rw [← split] at placed
    exact placed.first
  obtain ⟨sections, read, values⟩ := foldlM_readItem placedWithin encodable
  refine ⟨sections, ?_, values⟩
  rw [salvageChunk_behind_header lawful placed isPrefix fits long, salvagedOf, read]

theorem wholeItems_of_le (enough : (items.flatMap (Item.bytes libs)).length ≤ room) :
    wholeItems libs room items = items := by
  induction items generalizing room with
  | nil => rfl
  | cons item items step =>
    rw [List.flatMap_cons, List.length_append] at enough
    have fits : (item.bytes libs).length ≤ room := by omega
    rw [wholeItems, if_pos fits, step (by omega)]

theorem itemsWithin_finished (origin : Option Slice) (items : List Item) :
    itemsWithin libs origin (finished libs origin items) items = items := by
  apply wholeItems_of_le
  rw [finished, layout, List.length_append, List.length_append]
  omega

theorem header_le_finished (origin : Option Slice) (items : List Item) :
    (headerBytes libs origin).length ≤ (finished libs origin items).length := by
  rw [finished, layout, List.length_append, List.length_append]
  omega

/-- A finished backup is decoded. -/
theorem decodeChunk_finished (lawful : libs.Lawful) {origin : Option Slice}
    (placed : Placed [] items) (encodable : AllEncodable items)
    (fits : (finished libs origin items).length < 2 ^ 64) :
    ∃ sections, decodeChunk libs (finished libs origin items) = .ok sections ∧
      sections.map readValues = (sectionsOf items).map writtenValues := by
  obtain ⟨sections, salvaged, values⟩ := salvageChunk_of_encodable lawful placed
    (List.prefix_refl _) fits (header_le_finished origin items)
    (by rw [itemsWithin_finished]; exact encodable)
  rw [if_pos rfl] at salvaged
  rw [itemsWithin_finished] at values
  have intact : ¬ (sections.any fun entry => entry.blocks.any (· = .corrupt)) = true := by
    simp only [List.any_eq_true, decide_eq_true_eq, not_exists, not_and]
    rintro entry present block isBlock rfl
    exact not_corrupt_of_values values entry present isBlock
  refine ⟨sections, ?_, values⟩
  unfold decodeChunk
  rw [salvaged, ok_bind]
  change (rejectIf ((sections.any _) = true) _ >>= _) = _
  rw [rejectIf_of_not _ intact]
  rfl

theorem decodeHeader_finished (lawful : libs.Lawful) (origin : Option Slice) (items : List Item) :
    decodeHeader libs (finished libs origin items) = .ok (headerOf origin) := by
  unfold decodeHeader
  rw [finished, layout, List.append_assoc, readHeader_followed lawful]
  rfl

end Mnesis.Chunk
