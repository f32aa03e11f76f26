import Mnesis.Chunk.Format

/-!
# The bytes that a writer leaves

The layout of a backup is its header and its items one after the other.  Whatever
its operations answered, a writer has left a prefix of the layout of the items it
was asked to write, and the whole layout as long as all operations succeed.
-/

namespace Mnesis.Chunk

open Foundation Kernel Store

variable {libs : Libraries} {sink : Sink} {SourceError : Type}

/-- A sink holds bytes and has kept track of them. -/
structure TrackedSink.Holds (libs : Libraries) (bytes : Bytes) (tracked : TrackedSink sink) :
    Prop where
  contents : sink.contents tracked.inner = bytes
  length : tracked.bytes.toNat = bytes.length
  crc : tracked.crc = libs.crc32c bytes

/-- A sink that takes everything. -/
def Sink.NeverFails (sink : Sink) : Prop :=
  ∀ bytes state, ∃ after, sink.writeAll bytes state = (.ok (), after)

/-- A sink holds bytes and behind them a part of others, no more than it can count.  If the
sink takes everything it cannot count all of them. -/
structure TrackedSink.HoldsPart (before bytes : Bytes) (tracked : TrackedSink sink) : Prop where
  part : ∃ part, part <+: bytes ∧ sink.contents tracked.inner = before ++ part
  fits : (sink.contents tracked.inner).length < 2 ^ 64
  overflows : sink.NeverFails → 2 ^ 64 ≤ (before ++ bytes).length

variable {tracked : TrackedSink sink}

theorem TrackedSink.Holds.fits {bytes : Bytes} (holds : tracked.Holds libs bytes) :
    (sink.contents tracked.inner).length < 2 ^ 64 := by
  rw [holds.contents, ← holds.length]
  exact tracked.bytes.toNat_lt

/-- A piece is written whole, or the sink has failed. -/
theorem TrackedSink.writeAll_ends (lawful : libs.Lawful) (holds : tracked.Holds libs before)
    (piece : Bytes) :
    (TrackedSink.writeAll libs piece).Ends tracked
      (fun _ after => after.Holds libs (before ++ piece))
      (fun _ after => after.HoldsPart before piece) := by
  have nothing (overflows : 2 ^ 64 ≤ (before ++ piece).length) : tracked.HoldsPart before piece :=
    ⟨⟨[], List.nil_prefix, by rw [holds.contents, List.append_nil]⟩, holds.fits,
      fun _ => overflows⟩
  unfold TrackedSink.writeAll
  apply ends_get_bind
  apply ends_ofResult_bind
  · intro _ failed
    refine nothing (Nat.le_of_not_lt fun fits => ?_)
    rw [List.length_append] at fits
    rw [toU64_of_lt (by omega)] at failed
    cases failed
  intro len isLen
  have sum : tracked.bytes.toNat + len.toNat = (before ++ piece).length := by
    rw [toNat_of_toU64 (okOr_eq_ok.mp isLen), holds.length, List.length_append]
  apply ends_ofResult_bind
  · intro _ failed
    refine nothing (Nat.le_of_not_lt fun fits => ?_)
    rw [checkedAdd_of_lt (by rw [sum]; exact fits)] at failed
    cases failed
  intro next isNext
  have length : next.toNat = (before ++ piece).length :=
    (checkedAdd_eq_some.mp (okOr_eq_ok.mp isNext)).trans sum
  rcases ran : sink.writeAll piece tracked.inner with ⟨error | _, inner⟩
  · obtain ⟨part, isPart, contents⟩ := sink.contents_error ran
    rw [holds.contents] at contents
    refine ⟨⟨part, isPart, contents⟩, ?_, fun never => ?_⟩
    · change (sink.contents inner).length < _
      have shorter := isPart.length_le
      have fits := next.toNat_lt
      rw [length, List.length_append] at fits
      rw [contents, List.length_append]
      omega
    · obtain ⟨_, written⟩ := never piece tracked.inner
      cases ran.symm.trans written
  · apply ends_set_bind
    refine ⟨?_, ?_, ?_⟩
    · change sink.contents inner = _
      rw [sink.contents_ok ran, holds.contents]
    · exact length
    · change libs.crc32cAppend tracked.crc piece = _
      rw [holds.crc, Libraries.crc32c, Libraries.crc32c, lawful.crc_append]

theorem TrackedSink.encode_ends (lawful : libs.Lawful) (pieces : List Bytes)
    (holds : tracked.Holds libs before) :
    (TrackedSink.encode libs pieces).Ends tracked
      (fun _ after => after.Holds libs (before ++ pieces.flatten))
      (fun _ after => after.HoldsPart before pieces.flatten) := by
  induction pieces generalizing tracked before with
  | nil =>
    apply ends_pure
    rw [List.flatten_nil, List.append_nil]
    exact holds
  | cons piece pieces step =>
    have first := TrackedSink.writeAll_ends lawful holds piece
    unfold TrackedSink.encode
    rw [List.flatten_cons]
    apply Locked.Ends.bind (first.mono (fun _ _ holds => holds) ?_)
    · intro _ middle holdsFirst
      apply (step holdsFirst).mono
      · intro _ after holdsAll
        rw [← List.append_assoc]
        exact holdsAll
      · rintro _ after ⟨⟨part, isPart, contents⟩, fits, overflows⟩
        rw [List.append_assoc] at contents overflows
        exact ⟨⟨piece ++ part, (List.prefix_append_right_inj piece).mpr isPart, contents⟩, fits,
          overflows⟩
    · rintro _ after ⟨⟨part, isPart, contents⟩, fits, overflows⟩
      refine ⟨⟨part, isPart.trans (List.prefix_append ..), contents⟩, fits, fun never => ?_⟩
      rw [← List.append_assoc, List.length_append]
      exact Nat.le_add_right_of_le (overflows never)

/-- An item of a backup. -/
inductive Item
  | heading (streamId : Slice)
  | block (event : PersistedEnvelope)
  deriving DecidableEq

/-- The pieces in which an item is written. -/
def Item.pieces (libs : Libraries) : Item → List Bytes
  | .heading streamId => libs.writeHeading ⟨streamId.bytes⟩
  | .block event => libs.writeBlock (ChunkWriter.blockOf libs event)

/-- The bytes of an item. -/
def Item.bytes (libs : Libraries) (item : Item) : Bytes := (item.pieces libs).flatten

section Lengths

variable (lawful : libs.Lawful)
include lawful

theorem datatype_item (item : Item) (rest : Bytes) :
    libs.datatype (item.bytes libs ++ rest) =
      .ok (match item with
        | .heading _ => .map
        | .block _ => .array) := by
  cases item with
  | heading streamId =>
    change libs.datatype (List.flatten (libs.writeMap _ ++ _) ++ rest) = _
    rw [List.flatten_append, List.append_assoc]
    exact lawful.datatype_followed (lawful.datatype_map _) _
  | block event =>
    change libs.datatype (List.flatten (libs.writeArray 2 ++ _) ++ rest) = _
    rw [List.flatten_append, List.append_assoc]
    exact lawful.datatype_followed (lawful.datatype_array _) _

theorem bytes_ne_nil (item : Item) : item.bytes libs ≠ [] := by
  intro empty
  have isKind := datatype_item lawful item []
  rw [empty] at isKind
  exact lawful.datatype_nil _ isKind

theorem length_le_length_flatMap (items : List Item) :
    items.length ≤ (items.flatMap (Item.bytes libs)).length := by
  induction items with
  | nil => exact Nat.le_refl 0
  | cons item items step =>
    have positive := List.length_pos_iff.mpr (bytes_ne_nil lawful item)
    rw [List.length_cons, List.flatMap_cons, List.length_append]
    omega

end Lengths

/-- How many sections items begin. -/
def sectionCount (items : List Item) : Nat :=
  items.countP fun item => item matches .heading _

/-- How many events items hold. -/
def eventCount (items : List Item) : Nat :=
  items.countP fun item => item matches .block _

/-- The bytes of a header. -/
def headerBytes (libs : Libraries) (origin : Option Slice) : Bytes :=
  (libs.writeHeader ⟨magic, formatVersion, origin.map Slice.bytes⟩).flatten

/-- The header and items one after the other. -/
def layout (libs : Libraries) (origin : Option Slice) (items : List Item) : Bytes :=
  headerBytes libs origin ++ items.flatMap (Item.bytes libs)

theorem layout_append (libs : Libraries) (origin : Option Slice) (items more : List Item) :
    layout libs origin (items ++ more) =
      layout libs origin items ++ more.flatMap (Item.bytes libs) := by
  rw [layout, List.flatMap_append, ← List.append_assoc, layout]

/-- A writer holds the layout of items and has counted them. -/
structure ChunkWriter.Holds (libs : Libraries) (origin : Option Slice) (items : List Item)
    (writer : ChunkWriter sink) : Prop where
  enc : writer.enc.Holds libs (layout libs origin items)
  sections : writer.sections.toNat = sectionCount items
  events : writer.events.toNat = eventCount items

/-- A writer is ready and holds the layout of items. -/
structure ChunkWriter.Wrote (libs : Libraries) (origin : Option Slice) (items : List Item)
    (writer : ChunkWriter sink) : Prop extends writer.Holds libs origin items where
  ready : writer.state = .ready

/-- A writer is poisoned and holds a prefix of the layout of items.  If the sink takes
everything and its sources are whole, the layout is too long to be counted. -/
structure ChunkWriter.Torn (libs : Libraries) (origin : Option Slice) (items : List Item)
    (whole : Prop) (writer : ChunkWriter sink) : Prop where
  poisoned : writer.state = .poisoned
  part : sink.contents writer.enc.inner <+: layout libs origin items
  fits : (sink.contents writer.enc.inner).length < 2 ^ 64
  overflows : sink.NeverFails → whole → 2 ^ 64 ≤ (layout libs origin items).length

section Operations

variable {origin : Option Slice} {items : List Item} {writer : ChunkWriter sink}

theorem sectionCount_append (items more : List Item) :
    sectionCount (items ++ more) = sectionCount items + sectionCount more :=
  List.countP_append

theorem eventCount_append (items more : List Item) :
    eventCount (items ++ more) = eventCount items + eventCount more :=
  List.countP_append

theorem prefix_layout_append (part : bytes <+: layout libs origin items) (more : List Item) :
    bytes <+: layout libs origin (items ++ more) := by
  rw [layout_append]
  exact part.trans (List.prefix_append ..)

theorem ChunkWriter.Torn.append (torn : writer.Torn libs origin items whole) (more : List Item)
    (other : Prop) : writer.Torn libs origin (items ++ more) (whole ∧ other) :=
  ⟨torn.poisoned, prefix_layout_append torn.part more, torn.fits, fun never isWhole =>
    (torn.overflows never isWhole.1).trans
        (prefix_layout_append (List.prefix_refl _) more).length_le⟩

theorem ChunkWriter.Holds.torn (holds : writer.Holds libs origin items)
    (poisoned : writer.state = .poisoned) (more : List Item)
    (overflows : whole → 2 ^ 64 ≤ (layout libs origin (items ++ more)).length) :
    writer.Torn libs origin (items ++ more) whole :=
  ⟨poisoned, prefix_layout_append (holds.enc.contents ▸ List.prefix_refl _) more, holds.enc.fits,
    fun _ => overflows⟩

theorem ChunkWriter.torn_of_part (poisoned : writer.state = .poisoned)
    (holdsPart : writer.enc.HoldsPart (layout libs origin items) (item.bytes libs)) :
    writer.Torn libs origin (items ++ [item]) whole := by
  have split : layout libs origin (items ++ [item]) =
      layout libs origin items ++ item.bytes libs := by
    rw [layout_append, List.flatMap_singleton]
  obtain ⟨⟨part, isPart, contents⟩, fits, overflows⟩ := holdsPart
  refine ⟨poisoned, ?_, fits, fun never _ => ?_⟩
  · rw [contents, split]
    exact (List.prefix_append_right_inj _).mpr isPart
  · rw [split]
    exact overflows never

/-- An item is written to the sink, or a part of it; nothing else of the writer
changes. -/
theorem ChunkWriter.encode_ends (lawful : libs.Lawful) (holds : writer.Holds libs origin items)
    (pieces : List Bytes) :
    (ChunkWriter.encode libs pieces).Ends writer
      (fun _ after => ∃ enc, after = { writer with enc } ∧
        enc.Holds libs (layout libs origin items ++ pieces.flatten))
      (fun _ after => ∃ enc, after = { writer with enc } ∧
        enc.HoldsPart (layout libs origin items) pieces.flatten) := by
  have written := TrackedSink.encode_ends lawful pieces holds.enc
  unfold Locked.Ends at written
  unfold ChunkWriter.encode
  apply ends_get_bind
  split at written
  next value enc ran =>
    rw [ran]
    exact ⟨enc, rfl, written⟩
  next error enc ran =>
    rw [ran]
    exact ⟨enc, rfl, written⟩

theorem ChunkWriter.exec_ensureReady (ready : writer.state = .ready) :
    (ChunkWriter.ensureReady : Locked (ChunkWriter sink) (WriteError sink.Error) Unit).exec
      writer = (.ok (), writer) := by
  unfold ChunkWriter.ensureReady
  rw [exec_get_bind, rejectIf_of_not _ (by rw [ready]; decide)]
  rfl

theorem ChunkWriter.exec_ensureReady_of_poisoned (poisoned : writer.state = .poisoned) :
    (ChunkWriter.ensureReady : Locked (ChunkWriter sink) (WriteError sink.Error) Unit).exec
      writer = (.error .poisoned, writer) := by
  unfold ChunkWriter.ensureReady
  rw [exec_get_bind, rejectIf_of _ poisoned]
  rfl

/-- A ready writer goes on poisoned. -/
theorem ChunkWriter.ends_of_ready {α : Type}
    {next : Locked (ChunkWriter sink) (WriteError sink.Error) α}
    {succeeded : α → ChunkWriter sink → Prop}
    {failed : WriteError sink.Error → ChunkWriter sink → Prop}
    (wrote : writer.Wrote libs origin items)
    (rest : ∀ after : ChunkWriter sink, after.Holds libs origin items →
      after.state = .poisoned → next.Ends after succeeded failed) :
    (do
      ChunkWriter.ensureReady
      ChunkWriter.setState .poisoned
      next).Ends writer succeeded failed := by
  unfold Locked.Ends
  rw [exec_bind_of_ok (ChunkWriter.exec_ensureReady wrote.ready)]
  exact rest { writer with state := .poisoned } ⟨wrote.enc, wrote.sections, wrote.events⟩ rfl

/-- An item is counted and written. -/
theorem ChunkWriter.item_ends (lawful : libs.Lawful) (holds : writer.Holds libs origin items)
    (poisoned : writer.state = .poisoned) (item : Item)
    (counts : count.toNat = items.countP counted)
    {next : UInt64 → Locked (ChunkWriter sink) (WriteError sink.Error) Unit}
    {succeeded : Unit → ChunkWriter sink → Prop}
    (rest : ∀ total enc, total.toNat = items.countP counted + 1 →
      enc.Holds libs (layout libs origin (items ++ [item])) →
      (next total).Ends { writer with enc } succeeded
        fun _ after => after.Torn libs origin (items ++ [item]) whole) :
    (do
      let total ← Locked.ofResult (okOr (checkedAdd count 1) WriteError.countOverflow)
      ChunkWriter.encode libs (item.pieces libs)
      next total).Ends writer succeeded
        fun _ after => after.Torn libs origin (items ++ [item]) whole := by
  apply ends_ofResult_bind
  · intro _ failed
    refine holds.torn poisoned _ fun _ => Nat.le_of_not_lt fun fits => ?_
    have bounded := length_le_length_flatMap lawful (items ++ [item])
    have few : items.countP counted ≤ items.length := List.countP_le_length
    rw [layout, List.length_append] at fits
    rw [List.length_append, List.length_singleton] at bounded
    have one : (1 : UInt64).toNat = 1 := rfl
    rw [checkedAdd_of_lt (by omega)] at failed
    cases failed
  intro total isTotal
  rw [okOr_eq_ok, checkedAdd_eq_some, counts] at isTotal
  have written := ChunkWriter.encode_ends lawful holds (item.pieces libs)
  apply Locked.Ends.bind (written.mono (fun _ _ ends => ends) ?_)
  · rintro _ _ ⟨enc, rfl, holdsAll⟩
    refine rest total enc isTotal ?_
    rw [layout_append, List.flatMap_singleton]
    exact holdsAll
  · rintro _ _ ⟨enc, rfl, holdsPart⟩
    exact ChunkWriter.torn_of_part poisoned holdsPart

theorem ChunkWriter.beginSection_ends (lawful : libs.Lawful)
    (wrote : writer.Wrote libs origin items) (streamId : Slice) :
    (ChunkWriter.beginSection libs streamId).Ends writer
      (fun _ after => after.Wrote libs origin (items ++ [.heading streamId]))
      (fun _ after => after.Torn libs origin (items ++ [.heading streamId]) whole) := by
  unfold ChunkWriter.beginSection
  apply ChunkWriter.ends_of_ready wrote
  intro begun holds poisoned
  apply ends_get_bind
  apply ChunkWriter.item_ends lawful holds poisoned (.heading streamId) holds.sections
  intro total enc isTotal holdsAll
  refine ⟨⟨holdsAll, ?_, ?_⟩, rfl⟩
  · rw [sectionCount_append]
    exact isTotal
  · rw [eventCount_append]
    exact holds.events

theorem ChunkWriter.writeBlock_ends (lawful : libs.Lawful) (holds : writer.Holds libs origin items)
    (poisoned : writer.state = .poisoned) (event : PersistedEnvelope) :
    (ChunkWriter.writeBlock libs event).Ends writer
      (fun _ after => after.Holds libs origin (items ++ [.block event]) ∧ after.state = .poisoned)
      (fun _ after => after.Torn libs origin (items ++ [.block event]) whole) := by
  unfold ChunkWriter.writeBlock
  apply ends_get_bind
  apply ChunkWriter.item_ends lawful holds poisoned (.block event) holds.events
  intro total enc isTotal holdsAll
  refine ⟨⟨holdsAll, ?_, ?_⟩, poisoned⟩
  · rw [sectionCount_append]
    exact holds.sections
  · rw [eventCount_append]
    exact isTotal

theorem ChunkWriter.block_ends (lawful : libs.Lawful) (wrote : writer.Wrote libs origin items)
    (event : PersistedEnvelope) :
    (ChunkWriter.block libs event).Ends writer
      (fun _ after => after.Wrote libs origin (items ++ [.block event]))
      (fun _ after => after.Torn libs origin (items ++ [.block event]) whole) := by
  unfold ChunkWriter.block
  apply ChunkWriter.ends_of_ready wrote
  intro begun holds poisoned
  apply Locked.Ends.bind (ChunkWriter.writeBlock_ends lawful holds poisoned event)
  rintro _ after ⟨holdsAll, _⟩
  exact ⟨⟨holdsAll.enc, holdsAll.sections, holdsAll.events⟩, rfl⟩

/-- The events that a source yields before it fails or ends. -/
def yielded : List (Except SourceError PersistedEnvelope) → List PersistedEnvelope
  | [] => []
  | .ok event :: items => event :: yielded items
  | .error _ :: _ => []

/-- A source without failures that was drained to its end. -/
def Drain.Complete (source : Drain SourceError) : Prop :=
  source.ended = true ∧ ∀ item ∈ source.items, ∃ event, item = .ok event

/-- The events of a source are written one after the other. -/
theorem ChunkWriter.drain_ends (lawful : libs.Lawful) (ended : Bool)
    (source : List (Except SourceError PersistedEnvelope)) (holds : writer.Holds libs origin items)
    (poisoned : writer.state = .poisoned) :
    (ChunkWriter.drain libs ended source).Ends writer
      (fun _ after => (Drain.mk source ended).Complete ∧
        after.Holds libs origin (items ++ (yielded source).map .block) ∧ after.state = .poisoned)
      (fun _ after => after.Torn libs origin (items ++ (yielded source).map .block)
        (Drain.mk source ended).Complete) := by
  induction source generalizing writer items with
  | nil =>
    cases ended with
    | true =>
      apply ends_pure
      rw [yielded, List.map_nil, List.append_nil]
      exact ⟨⟨rfl, List.forall_mem_nil _⟩, holds, poisoned⟩
    | false => exact holds.torn poisoned _ fun isWhole => nomatch isWhole.1
  | cons item source step =>
    cases item with
    | error error =>
      refine holds.torn poisoned _ fun isWhole => ?_
      obtain ⟨_, impossible⟩ := isWhole.2 _ List.mem_cons_self
      cases impossible
    | ok event =>
      have split : items ++ (yielded (.ok event :: source)).map .block =
          items ++ [.block event] ++ (yielded source).map .block := by
        rw [yielded, List.map_cons, List.append_cons]
      have isComplete : (Drain.mk (.ok event :: source) ended).Complete ↔
          (Drain.mk source ended).Complete := by
        simp [Drain.Complete]
      rw [split, isComplete]
      unfold ChunkWriter.drain
      apply ends_ofResult_bind
      · intro error impossible
        cases impossible
      · intro found isFound
        cases isFound
        apply Locked.Ends.bind
        · apply ends_mapError
          apply (@ChunkWriter.writeBlock_ends libs sink _ _ _ True lawful holds poisoned event).mono
          · exact fun _ _ ends => ends
          · intro _ _ torn
            rw [← true_and (Drain.Complete _)]
            exact torn.append _ _
        · rintro _ after ⟨holdsFirst, poisonedFirst⟩
          exact step holdsFirst poisonedFirst

/-- A drained source is written event by event. -/
theorem ChunkWriter.tryExtend_ends (lawful : libs.Lawful) (wrote : writer.Wrote libs origin items)
    (source : Drain SourceError) :
    (ChunkWriter.tryExtend libs source).Ends writer
      (fun _ after => source.Complete ∧
        after.Wrote libs origin (items ++ (yielded source.items).map .block))
      (fun _ after => after.Torn libs origin (items ++ (yielded source.items).map .block)
        source.Complete) := by
  unfold ChunkWriter.tryExtend Locked.Ends
  have ready : (ChunkWriter.ensureReady.mapError writeFailed :
      Locked (ChunkWriter sink) (Interrupted (SectionError sink.Error SourceError)) Unit).exec
        writer = (.ok (), writer) := by
    rw [exec_mapError, ChunkWriter.exec_ensureReady wrote.ready]
    rfl
  rw [exec_bind_of_ok ready]
  have holds : ({ writer with state := .poisoned } : ChunkWriter sink).Holds libs origin items :=
    ⟨wrote.enc, wrote.sections, wrote.events⟩
  apply Locked.Ends.bind (ChunkWriter.drain_ends lawful source.ended source.items holds rfl)
  rintro _ after ⟨complete, holdsAll, _⟩
  exact ⟨complete, ⟨holdsAll.enc, holdsAll.sections, holdsAll.events⟩, rfl⟩

end Operations

end Mnesis.Chunk
