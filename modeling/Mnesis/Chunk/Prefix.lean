import Mnesis.Chunk.Salvage

/-!
# Prefixes of backups

A prefix of a finished backup ends in the header, in an item or in the completion
record.  Salvage refuses it in the first case and otherwise recovers the items
that are wholly in it.
-/

namespace Mnesis.Chunk

open Foundation Kernel Store Wire Import

variable {libs : Libraries}

/-- A completion record that is not there. -/
def IsMissing (error : CompletionError libs) : Prop := error = .missing

section Completion

variable (lawful : libs.Lawful)
include lawful

omit lawful in
theorem completionRead_resumable {parser : Parser UInt8 libs.DecodeError α}
    (resumable : parser.Resumable libs.Short) :
    (parser.mapError (completionRead libs)).Resumable IsMissing :=
  resumable.mapError fun _ isShort => if_pos isShort

theorem completionRecord_resumable : (completionRecord libs).Resumable IsMissing := by
  unfold completionRecord
  apply (completionRead_resumable lawful.tag_resumable).bind
  intro tag
  apply Parser.Resumable.bind (.ofResult _)
  intro _
  apply (completionRead_resumable lawful.array_resumable).bind
  intro length
  apply Parser.Resumable.bind (.ofResult _)
  intro _
  apply (completionRead_resumable lawful.u64_resumable).bind
  intro sections
  apply (completionRead_resumable lawful.u64_resumable).bind
  intro events
  apply (completionRead_resumable lawful.u64_resumable).bind
  intro length
  apply (completionRead_resumable lawful.u32_resumable).bind
  intro crc
  exact .pure _

omit lawful in
theorem completionRead_reads {parser : Parser UInt8 libs.DecodeError α}
    (reads : parser.Reads item value) :
    (parser.mapError (completionRead libs)).Reads item value :=
  Parser.run_mapError_eq_ok.mpr reads

theorem completionRecord_reads (completion : Completion) :
    (completionRecord libs).Reads (ChunkWriter.completionPieces libs completion).flatten
      completion := by
  unfold completionRecord ChunkWriter.completionPieces
  simp only [List.flatten_append]
  rw [← List.append_nil (List.flatten (libs.writeU32 _))]
  apply (completionRead_reads (lawful.tag_reads _)).bind
    (completionRead_resumable lawful.tag_resumable)
  rw [rejectIf_of_not _ (not_not.mpr rfl)]
  change (do
    let length ← libs.array.mapError (completionRead libs)
    Parser.ofResult (rejectIf (length ≠ some 4) .shape)
    let sections ← libs.u64.mapError (completionRead libs)
    let events ← libs.u64.mapError (completionRead libs)
    let length ← libs.u64.mapError (completionRead libs)
    let crc ← libs.u32.mapError (completionRead libs)
    return ⟨sections, events, length, crc⟩ : Parser UInt8 _ Completion).Reads _ _
  apply (completionRead_reads (lawful.array_reads _)).bind
    (completionRead_resumable lawful.array_resumable)
  rw [rejectIf_of_not _ (not_not.mpr rfl)]
  change (do
    let sections ← libs.u64.mapError (completionRead libs)
    let events ← libs.u64.mapError (completionRead libs)
    let length ← libs.u64.mapError (completionRead libs)
    let crc ← libs.u32.mapError (completionRead libs)
    return ⟨sections, events, length, crc⟩ : Parser UInt8 _ Completion).Reads _ _
  apply (completionRead_reads (lawful.u64_reads _)).bind
    (completionRead_resumable lawful.u64_resumable)
  apply (completionRead_reads (lawful.u64_reads _)).bind
    (completionRead_resumable lawful.u64_resumable)
  apply (completionRead_reads (lawful.u64_reads _)).bind
    (completionRead_resumable lawful.u64_resumable)
  apply (completionRead_reads (lawful.u32_reads _)).bind
    (completionRead_resumable lawful.u32_resumable)
  rfl

theorem datatype_completion (completion : Completion) :
    libs.datatype (ChunkWriter.completionPieces libs completion).flatten = .ok .tag := by
  unfold ChunkWriter.completionPieces
  rw [List.flatten_append]
  exact lawful.datatype_followed (lawful.datatype_tag _) _

theorem completionBytes_ne_nil (origin : Option Slice) (items : List Item) :
    completionBytes libs origin items ≠ [] := by
  intro empty
  have isKind := datatype_completion lawful (completionOf libs origin items)
  change libs.datatype (completionBytes libs origin items) = _ at isKind
  rw [empty] at isKind
  exact lawful.datatype_nil _ isKind

end Completion

section End

variable (lawful : libs.Lawful)
include lawful

theorem salvageItems_torn (bytes : Bytes) (format : UInt32) (unfinished : CompletionError libs)
    (rounds : Nat) (placed : Placed sections [item])
    (isItem : item.bytes libs = part ++ missing) (cut : missing ≠ []) :
    salvageItems libs bytes format unfinished rounds ⟨sections, count, part⟩ =
      .ok (sections, .error unfinished) := by
  cases rounds with
  | zero => rfl
  | succ rounds =>
    by_cases ended : part = []
    · rw [salvageItems, if_pos ended]
      rfl
    · rw [salvageItems_round libs bytes format unfinished rounds ended,
        salvageItem_torn lawful bytes format placed isItem cut]

omit lawful in
theorem salvageItem_completion (bytes : Bytes)
    (isTag : libs.datatype input = .ok .tag) (room : sections.length < 2 ^ 64) :
    salvageItem libs bytes formatVersion ⟨sections, count, input⟩ =
      .error (.completed (decodeCompletion libs bytes (bytes.length - input.length)
        (UInt64.ofNat sections.length) count input)) := by
  unfold salvageItem
  rw [isTag, toU64_of_lt room]
  rfl

theorem salvageItems_completion_cut (bytes : Bytes) (rounds : Nat) (completion : Completion)
    (isRecord : (ChunkWriter.completionPieces libs completion).flatten = part ++ missing)
    (cut : missing ≠ []) (room : sections.length < 2 ^ 64) :
    salvageItems libs bytes formatVersion .missing rounds ⟨sections, count, part⟩ =
      .ok (sections, .error .missing) := by
  cases rounds with
  | zero => rfl
  | succ rounds =>
    by_cases ended : part = []
    · rw [salvageItems, if_pos ended]
      rfl
    · rw [salvageItems_round libs bytes formatVersion .missing rounds ended]
      have isKind := datatype_completion lawful completion
      have reads := completionRecord_reads lawful completion
      rw [isRecord] at isKind reads
      rcases lawful.datatype_cut isKind with ⟨error, isShort, failed⟩ | found
      · unfold salvageItem
        rw [failed, mapError_error, tornOr_of_short isShort]
        rfl
      · obtain ⟨error, isMissing, failed⟩ := reads.cut (completionRecord_resumable lawful) cut
        rw [salvageItem_completion bytes found room, decodeCompletion, failed, isMissing]
        rfl

/-- The completion record is right behind what it declares. -/
theorem salvageItems_completion (rounds : Nat) (fits : before.length < 2 ^ 64)
    (room : sections.length < 2 ^ 64)
    (isSections : completion.sections = UInt64.ofNat sections.length)
    (isEvents : completion.events = count)
    (isLength : completion.length = UInt64.ofNat before.length)
    (isCrc : completion.crc = libs.crc32c before) :
    salvageItems libs
        (before ++ (ChunkWriter.completionPieces libs completion).flatten)
        formatVersion .missing (rounds + 1)
        ⟨sections, count, (ChunkWriter.completionPieces libs completion).flatten⟩ =
      .ok (sections, .ok ()) := by
  have isKind := datatype_completion lawful completion
  have nonempty : (ChunkWriter.completionPieces libs completion).flatten ≠ [] := by
    intro empty
    rw [empty] at isKind
    exact lawful.datatype_nil _ isKind
  have read : (completionRecord libs).run _ = .ok (completion, []) :=
    completionRecord_reads lawful completion
  have position : (before ++ (ChunkWriter.completionPieces libs completion).flatten).length -
      (ChunkWriter.completionPieces libs completion).flatten.length = before.length := by
    rw [List.length_append, Nat.add_sub_cancel]
  have right : decodeCompletion libs
      (before ++ (ChunkWriter.completionPieces libs completion).flatten) before.length
      (UInt64.ofNat sections.length) count (ChunkWriter.completionPieces libs completion).flatten =
        .ok () := by
    unfold decodeCompletion
    rw [read, ok_bind]
    change (rejectIf (([] : Bytes) ≠ []) _ >>= fun _ => _) = _
    rw [rejectIf_of_not _ (not_not.mpr rfl), ok_bind,
      rejectIf_of_not _ (by simp [isSections, isEvents]),
      ok_bind, toU64_of_lt fits]
    change (rejectIf (completion.length ≠ UInt64.ofNat before.length) _ >>= fun _ => _) = _
    rw [rejectIf_of_not _ (not_not.mpr isLength), ok_bind, List.take_left,
      rejectIf_of_not _ (not_not.mpr isCrc)]
  rw [salvageItems_round libs _ formatVersion .missing rounds nonempty,
    salvageItem_completion _ isKind room, position, right]

end End

/-- The header that is read of a backup of a producer. -/
def headerOf (origin : Option Slice) : ChunkHeader := ⟨formatVersion, origin.map Slice.bytes⟩

section Header

variable (lawful : libs.Lawful)
include lawful

theorem readHeader_followed (origin : Option Slice) (rest : Bytes) :
    readHeader libs (headerBytes libs origin ++ rest) = .ok (headerOf origin, rest) := by
  have read := (decodeMap_header_reads lawful origin).followed
    (decodeMap_resumable lawful lawful.header_resumable) rest
  unfold readHeader
  rw [read]
  rfl

theorem readHeader_cut (isHeader : headerBytes libs origin = part ++ missing) (cut : missing ≠ []) :
    ∃ error, readHeader libs part = .error error := by
  have reads := decodeMap_header_reads lawful origin
  rw [isHeader] at reads
  obtain ⟨error, _, failed⟩ := reads.cut (decodeMap_resumable lawful lawful.header_resumable) cut
  refine ⟨.decode "unreadable header" error, ?_⟩
  unfold readHeader
  rw [failed]
  rfl

end Header

theorem salvage_of_decodeChunk (accepted : decodeChunk libs bytes = .ok sections) :
    ∃ header, salvageChunk libs bytes = .ok ⟨header, sections, .ok ()⟩ := by
  unfold decodeChunk at accepted
  obtain ⟨⟨header, recovered, completion⟩, salvaged, accepted⟩ := bind_eq_ok.mp accepted
  obtain ⟨_, complete, accepted⟩ := bind_eq_ok.mp accepted
  obtain ⟨_, _, built⟩ := bind_eq_ok.mp accepted
  cases built
  cases mapError_eq_ok.mp complete
  exact ⟨header, salvaged⟩

/-- The first items that fit into a room. -/
def wholeItems (libs : Libraries) : Nat → List Item → List Item
  | _, [] => []
  | room, item :: items =>
    if (item.bytes libs).length ≤ room then
      item :: wholeItems libs (room - (item.bytes libs).length) items
    else
      []

theorem wholeItems_prefix (room : Nat) (items : List Item) :
    wholeItems libs room items <+: items := by
  induction items generalizing room with
  | nil => exact List.prefix_refl _
  | cons item items step =>
    rw [wholeItems]
    split
    next => exact (List.prefix_cons_inj item).mpr (step _)
    next => exact List.nil_prefix

/-- A prefix of items and what follows ends in the item behind the whole ones, or
behind all items. -/
theorem prefix_items_cases (isPrefix : cut <+: items.flatMap (Item.bytes libs) ++ tail) :
    (∃ item rest part missing, missing ≠ [] ∧
        items = wholeItems libs cut.length items ++ item :: rest ∧
        item.bytes libs = part ++ missing ∧
        cut = (wholeItems libs cut.length items).flatMap (Item.bytes libs) ++ part) ∨
      wholeItems libs cut.length items = items ∧
        ∃ part, part <+: tail ∧ cut = items.flatMap (Item.bytes libs) ++ part := by
  induction items generalizing cut with
  | nil => exact .inr ⟨rfl, cut, isPrefix, rfl⟩
  | cons item items step =>
    rw [List.flatMap_cons, List.append_assoc] at isPrefix
    rw [wholeItems]
    rcases prefix_append_cases isPrefix with ⟨missing, present, isItem⟩ | ⟨more, rfl, within⟩
    · left
      have short : ¬ (item.bytes libs).length ≤ cut.length := by
        have positive := List.length_pos_iff.mpr present
        rw [isItem, List.length_append]
        omega
      rw [if_neg short]
      exact ⟨item, items, cut, missing, present, rfl, isItem, rfl⟩
    · have fits : (item.bytes libs).length ≤ (item.bytes libs ++ more).length := by
        rw [List.length_append]
        exact Nat.le_add_right _ _
      have left : (item.bytes libs ++ more).length - (item.bytes libs).length = more.length := by
        rw [List.length_append, Nat.add_sub_cancel_left]
      rw [if_pos fits, left]
      rcases step within with
        ⟨torn, rest, part, missing, present, isItems, isTorn, isMore⟩ | ⟨all, part, isPart, isMore⟩
      · refine .inl ⟨torn, rest, part, missing, present, congrArg (item :: ·) isItems, isTorn, ?_⟩
        rw [List.flatMap_cons, List.append_assoc, ← isMore]
      · refine .inr ⟨congrArg (item :: ·) all, part, isPart, ?_⟩
        rw [List.flatMap_cons, List.append_assoc, ← isMore]

theorem length_pushBlock (block : ImportBlock) (sections : List StreamSection) :
    (pushBlock block sections).length = sections.length := by
  fun_induction pushBlock with
  | case1 => rfl
  | case2 => rfl
  | case3 first next sections step => exact congrArg (· + 1) step

theorem length_of_foldlM_readItem (read : items.foldlM readItem sections = .ok after) :
    after.length = sections.length + sectionCount items := by
  induction items generalizing sections with
  | nil =>
    cases read
    rfl
  | cons item items step =>
    have more : sectionCount (item :: items) = sectionCount [item] + sectionCount items :=
      sectionCount_append [item] items
    rw [List.foldlM_cons, bind_eq_ok] at read
    obtain ⟨middle, first, readRest⟩ := read
    rw [step readRest, more, ← Nat.add_assoc]
    congr 1
    cases item with
    | heading streamId =>
      cases first
      rw [List.length_append]
      rfl
    | block event =>
      rw [readItem_block, bind_eq_ok] at first
      obtain ⟨envelope, _, built⟩ := first
      cases built
      exact length_pushBlock _ _

theorem Placed.after {after : List StreamSection} (placed : Placed sections (before ++ rest))
    (read : before.foldlM readItem sections = .ok after) :
    Placed after rest := by
  induction before generalizing sections with
  | nil =>
    cases read
    exact placed
  | cons item before step =>
    have placedFirst : Placed sections [item] := placed
    rw [List.foldlM_cons, bind_eq_ok] at read
    obtain ⟨middle, first, readRest⟩ := read
    exact step (fun empty => absurd empty (readItem_ne_nil placedFirst first)) readRest

theorem Placed.first (placed : Placed sections (before ++ rest)) : Placed sections before := by
  cases before with
  | nil => exact fun _ _ absent => absurd absent (by simp)
  | cons item before => exact placed

/-- The items that lie wholly in a prefix. -/
def itemsWithin (libs : Libraries) (origin : Option Slice) (cut : Bytes) (items : List Item) :
    List Item :=
  wholeItems libs (cut.length - (headerBytes libs origin).length) items

/-- What salvage makes of a prefix that has the whole header. -/
def salvagedOf (libs : Libraries) (origin : Option Slice) (items : List Item) (cut : Bytes) :
    Except (ChunkError libs) (SalvagedChunk libs) :=
  match (itemsWithin libs origin cut items).foldlM readItem [] with
  | .ok sections => .ok
      { header := headerOf origin
        sections := sections
        completion := if cut = finished libs origin items then .ok () else .error .missing }
  | .error error => .error (.event error)

section Cut

variable (lawful : libs.Lawful)
include lawful

/-- Behind the header, the rounds are enough to read the whole items of a prefix. -/
theorem salvageItems_whole (bytes : Bytes) (placed : Placed [] whole) (fits : bytes.length < 2 ^ 64)
    (enough : whole.length ≤ bytes.length) :
    salvageItems libs bytes formatVersion .missing bytes.length
        ⟨[], 0, whole.flatMap (Item.bytes libs) ++ rest⟩ =
      match whole.foldlM readItem [] with
      | .ok after => salvageItems libs bytes formatVersion .missing (bytes.length - whole.length)
          ⟨after, UInt64.ofNat (eventCount whole), rest⟩
      | .error error => .error (.event error) := by
  have counted : eventCount whole ≤ whole.length := List.countP_le_length
  have room : (0 : UInt64).toNat + eventCount whole < 2 ^ 64 := by
    rw [UInt64.toNat_zero]
    omega
  have read := salvageItems_items lawful bytes formatVersion .missing
    (bytes.length - whole.length) placed room rest
  rw [Nat.add_sub_cancel' enough, UInt64.zero_add] at read
  exact read

/-- A prefix that ends in an item gives the items before it. -/
theorem salvageItems_in_item
    (placed : Placed [] (whole ++ item :: rest)) (isItem : item.bytes libs = part ++ missing)
    (cut : missing ≠ []) (fits : bytes.length < 2 ^ 64) (enough : whole.length ≤ bytes.length) :
    salvageItems libs bytes formatVersion .missing bytes.length
        ⟨[], 0, whole.flatMap (Item.bytes libs) ++ part⟩ =
      match whole.foldlM readItem [] with
      | .ok sections => .ok (sections, .error .missing)
      | .error error => .error (.event error) := by
  rw [salvageItems_whole lawful bytes placed.first fits enough]
  cases read : whole.foldlM readItem [] with
  | error error => rfl
  | ok sections =>
    have placedItem : Placed sections [item] := placed.after read
    exact salvageItems_torn lawful bytes formatVersion .missing _ placedItem isItem cut

/-- A prefix that ends in the completion record gives all items. -/
theorem salvageItems_in_completion (placed : Placed [] items)
    (isRecord : completionBytes libs origin items = part ++ missing) (cut : missing ≠ [])
    (fits : bytes.length < 2 ^ 64) (enough : items.length ≤ bytes.length) :
    salvageItems libs bytes formatVersion .missing bytes.length
        ⟨[], 0, items.flatMap (Item.bytes libs) ++ part⟩ =
      match items.foldlM readItem [] with
      | .ok sections => .ok (sections, .error .missing)
      | .error error => .error (.event error) := by
  rw [salvageItems_whole lawful bytes placed fits enough]
  cases read : items.foldlM readItem [] with
  | error error => rfl
  | ok sections =>
    have room : sections.length < 2 ^ 64 := by
      have counted : sectionCount items ≤ items.length := List.countP_le_length
      rw [length_of_foldlM_readItem read, List.length_nil]
      omega
    exact salvageItems_completion_cut lawful bytes _ _ isRecord cut room

/-- The whole backup gives all items and is complete. -/
theorem salvageItems_finished (placed : Placed [] items)
    (fits : (finished libs origin items).length < 2 ^ 64)
    (enough : items.length < (finished libs origin items).length) :
    salvageItems libs (finished libs origin items) formatVersion .missing
        (finished libs origin items).length
        ⟨[], 0, items.flatMap (Item.bytes libs) ++ completionBytes libs origin items⟩ =
      match items.foldlM readItem [] with
      | .ok sections => .ok (sections, .ok ())
      | .error error => .error (.event error) := by
  rw [salvageItems_whole lawful _ placed fits enough.le]
  cases read : items.foldlM readItem [] with
  | error error => rfl
  | ok sections =>
    have counted := length_of_foldlM_readItem read
    rw [List.length_nil, Nat.zero_add] at counted
    have room : sections.length < 2 ^ 64 := by
      have bounded : sectionCount items ≤ items.length := List.countP_le_length
      rw [counted]
      omega
    have layoutFits : (layout libs origin items).length < 2 ^ 64 := by
      rw [finished, List.length_append] at fits
      omega
    rw [← Nat.sub_add_cancel (Nat.sub_pos_of_lt enough)]
    apply salvageItems_completion lawful _ layoutFits room
    · rw [counted]
      rfl
    · rfl
    · rfl
    · rfl

theorem salvageChunk_followed (origin : Option Slice) (rest : Bytes) :
    salvageChunk libs (headerBytes libs origin ++ rest) =
      (salvageItems libs (headerBytes libs origin ++ rest) formatVersion .missing
        (headerBytes libs origin ++ rest).length ⟨[], 0, rest⟩ >>= fun read =>
          .ok ⟨headerOf origin, read.1, read.2⟩) := by
  unfold salvageChunk
  rw [readHeader_followed lawful]
  rfl

theorem salvageChunk_in_header (isPrefix : cut <+: finished libs origin items)
    (short : cut.length < (headerBytes libs origin).length) :
    ∃ error, salvageChunk libs cut = .error error := by
  rw [finished, layout, List.append_assoc] at isPrefix
  rcases prefix_append_cases isPrefix with ⟨missing, present, isHeader⟩ | ⟨more, rfl, _⟩
  · obtain ⟨error, failed⟩ := readHeader_cut lawful isHeader present
    refine ⟨error, ?_⟩
    unfold salvageChunk
    rw [failed]
    rfl
  · rw [List.length_append] at short
    omega

/-- A cut behind the header is salvaged. -/
theorem salvageChunk_behind_header (placed : Placed [] items)
    (isPrefix : cut <+: finished libs origin items) (fits : cut.length < 2 ^ 64)
    (long : (headerBytes libs origin).length ≤ cut.length) :
    salvageChunk libs cut = salvagedOf libs origin items cut := by
  have isFinished : finished libs origin items = headerBytes libs origin ++
      (items.flatMap (Item.bytes libs) ++ completionBytes libs origin items) := by
    rw [finished, layout, List.append_assoc]
  rw [isFinished] at isPrefix
  rcases prefix_append_cases isPrefix with ⟨missing, present, isHeader⟩ | ⟨more, rfl, within⟩
  · have positive := List.length_pos_iff.mpr present
    rw [isHeader, List.length_append] at long
    omega
  have within' : itemsWithin libs origin (headerBytes libs origin ++ more) items =
      wholeItems libs more.length items := by
    rw [itemsWithin, List.length_append, Nat.add_sub_cancel_left]
  rw [salvageChunk_followed lawful, salvagedOf, within']
  rcases prefix_items_cases within with
    ⟨item, rest, part, missing, present, isItems, isItem, isMore⟩ | ⟨all, part, isPart, isMore⟩
  · generalize wholeItems libs more.length items = whole at isItems isMore ⊢
    have strict : headerBytes libs origin ++ more ≠ finished libs origin items := by
      rw [isFinished]
      intro same
      have positive := List.length_pos_iff.mpr present
      have length := congrArg List.length (List.append_cancel_left same)
      rw [isMore, isItems, List.flatMap_append, List.flatMap_cons, isItem] at length
      simp only [List.length_append] at length
      omega
    have enough : whole.length ≤ (headerBytes libs origin ++ more).length := by
      have bounded := length_le_length_flatMap lawful whole
      rw [isMore, List.length_append, List.length_append]
      omega
    have read := salvageItems_in_item lawful (isItems ▸ placed) isItem present fits enough
    rw [← isMore] at read
    rw [read, if_neg strict]
    cases whole.foldlM readItem [] <;> rfl
  · have bounded := length_le_length_flatMap lawful items
    obtain ⟨missing, isRecord⟩ := isPart
    rw [all]
    by_cases whole : missing = []
    · have same : headerBytes libs origin ++ more = finished libs origin items := by
        rw [isFinished, isMore, ← isRecord, whole, List.append_nil]
      have record : 0 < (completionBytes libs origin items).length :=
        List.length_pos_iff.mpr (completionBytes_ne_nil lawful origin items)
      have enough : items.length < (finished libs origin items).length := by
        rw [isFinished, List.length_append, List.length_append]
        omega
      rw [whole, List.append_nil] at isRecord
      have read := salvageItems_finished lawful placed (same ▸ fits) enough
      rw [← isRecord, ← isMore, ← same] at read
      rw [read, if_pos same]
      cases items.foldlM readItem [] <;> rfl
    · have strict : headerBytes libs origin ++ more ≠ finished libs origin items := by
        rw [isFinished, isMore, ← isRecord]
        intro same
        exact whole (List.append_right_eq_self.mp
          (List.append_cancel_left (List.append_cancel_left same)).symm)
      have enough : items.length ≤ (headerBytes libs origin ++ more).length := by
        rw [isMore, List.length_append, List.length_append]
        omega
      have read := salvageItems_in_completion lawful placed isRecord.symm whole fits enough
      rw [← isMore] at read
      rw [read, if_neg strict]
      cases items.foldlM readItem [] <;> rfl

end Cut

end Mnesis.Chunk
