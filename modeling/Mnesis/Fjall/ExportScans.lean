import Mnesis.Fjall.ExportReads
import Mnesis.Fjall.Reads

/-!
# Sessions export their snapshots

The ids of streams are listed behind the last one, and the events of a stream are read
from the version behind the last one, so that a scan that is opened again goes on where
the one before was left.  Behind the last possible version nothing is left to read.
-/

namespace Mnesis.Fjall

open Foundation Kernel Store Wire
open InMemory (ExportError)

section Reading

variable {Item : Type} (fault : Item × Nat → Option IoError)

/-- The items before the first one that cannot be read. -/
def readable (items : List (Item × Nat)) : List (Item × Nat) :=
  items.takeWhile fun item => (fault item).isNone

/-- The failure to read the first item that cannot be read. -/
def firstFault (items : List (Item × Nat)) : Option IoError := items.findSome? fault

/-- The rows that are read of some items. -/
def readRows (items : List (Item × Nat)) : List (SizedRow FjallError Item) :=
  sizedRows (readable fault items) ((firstFault fault items).map .io)

variable {fault}

theorem readRows_of_none (isRead : fault item = none) (items : List (Item × Nat)) :
    readRows fault (item :: items) = (.ok item.1, item.2) :: readRows fault items := by
  simp [readRows, readable, firstFault, isRead, sizedRows, sizedItem]

theorem readRows_of_some (isFault : fault item = some error) (items : List (Item × Nat)) :
    readRows fault (item :: items) = [(.error (.io error), 0)] := by
  simp [readRows, readable, firstFault, isFault, sizedRows]

theorem readRows_eq_nil (empty : readRows fault items = []) :
    items = [] := by
  cases items with
  | nil => rfl
  | cons item items =>
    cases isRead : fault item with
    | none => rw [readRows_of_none isRead] at empty; cases empty
    | some error => rw [readRows_of_some isRead] at empty; cases empty

/-- The first row is that of the first item, if it could be read. -/
theorem readRows_eq_ok (isRows : (.ok first, size) :: rows = readRows fault items) :
    ∃ rest, items = (first, size) :: rest ∧ rows = readRows fault rest := by
  cases items with
  | nil => cases isRows
  | cons item items =>
    cases isRead : fault item with
    | some error =>
      rw [readRows_of_some isRead] at isRows
      cases isRows
    | none =>
      rw [readRows_of_none isRead] at isRows
      obtain ⟨isFirst, rfl⟩ := List.cons.inj isRows
      cases isFirst
      exact ⟨items, rfl, rfl⟩

end Reading

/-- The items of a list of ids. -/
def idItems (ids : List StreamKey) : List (StreamKey × Nat) :=
  ids.map fun id => (id, id.length)

theorem sorted_streamIds (snapshot : Partitions) : snapshot.streams.keys.Pairwise (· < ·) :=
  Std.ExtTreeMap.ordered_keys.imp compare_bytes_eq_lt.mp

theorem streamIdsAfter_eq (snapshot : Partitions) (after : Option StreamKey) :
    snapshot.streamIdsAfter after =
      snapshot.streams.keys.filter fun key => after.all fun last => last < key := by
  cases after <;> simp [Partitions.streamIdsAfter]

theorem streamIdsAfter_behind {snapshot : Partitions} {id : StreamKey}
    (remaining : snapshot.streamIdsAfter after = id :: ids) :
    snapshot.streamIdsAfter (some id) = ids := by
  rw [streamIdsAfter_eq] at remaining ⊢
  have isFirst : id ∈ snapshot.streams.keys.filter fun key => after.all fun last => last < key :=
    remaining ▸ List.mem_cons_self
  refine filter_behind (sorted_streamIds snapshot) (List.lt_irrefl id) remaining fun key _ => ?_
  simp only [Option.all_some, decide_eq_true_eq, Option.all_eq_true, List.mem_filter] at isFirst ⊢
  refine ⟨fun behind => ⟨fun last isLast => ?_, behind⟩, And.right⟩
  exact List.lt_trans (isFirst.2 last isLast) behind

/-- The rows of a cursor of ids. -/
def HasIds (faults : Faults) (cursor : StreamIdCursor)
    (rows : List (SizedRow FjallError StreamKey)) : Prop :=
  cursor.poisoned = false ∧ rows = readRows (fun item => faults item.1) (idItems cursor.iter) ∨
    cursor.poisoned = true ∧ rows = []

/-- A listing goes on behind its last id. -/
theorem listingScan_resumes (faults : Faults) (snapshot : Partitions) :
    (listingScan faults).Resumes snapshot (HasIds faults) fun scan rows =>
      rows = readRows (fun item => faults item.1)
        (idItems (snapshot.streamIdsAfter scan.after)) where
  opened isRemaining := ⟨_, rfl, .inl ⟨rfl, isRemaining⟩⟩
  ended {cursor} none := by
    obtain ⟨ids, poisoned⟩ := cursor
    obtain ⟨rfl, isRows⟩ | ⟨rfl, _⟩ := none
    · obtain rfl : ids = [] := List.map_eq_nil_iff.mp (readRows_eq_nil isRows.symm)
      rfl
    · rfl
  row {cursor _ _} isRows := by
    obtain ⟨ids, poisoned⟩ := cursor
    obtain ⟨rfl, isRows⟩ | ⟨_, impossible⟩ := isRows
    · cases ids with
      | nil => cases isRows
      | cons id ids =>
        change _ = readRows _ ((id, id.length) :: idItems ids) at isRows
        change (nextStreamId faults ⟨id :: ids, false⟩).1 = _ ∧
          HasIds faults (nextStreamId faults ⟨id :: ids, false⟩).2 _
        cases isRead : faults id with
        | none =>
          rw [readRows_of_none isRead] at isRows
          cases isRows
          simp [nextStreamId, StreamIdCursor.pollOne, isRead, HasIds, Except.toOption]
        | some error =>
          rw [readRows_of_some isRead] at isRows
          cases isRows
          simp [nextStreamId, StreamIdCursor.pollOne, isRead, HasIds, Except.toOption]
    · cases impossible
  advanced {scan item size rows after} isRows isAfter := by
    cases isAfter
    obtain ⟨rest, isItems, rfl⟩ := readRows_eq_ok isRows
    obtain ⟨id, ids, isIds, isItem, rfl⟩ := List.map_eq_cons_iff.mp isItems
    cases isItem
    rw [streamIdsAfter_behind isIds]
    rfl
  exhausted _ impossible := by cases impossible

section Events

variable {id : StreamKey} {all : List PendingEnvelope}

/-- The row of an event is decoded to an item with its values and the size of the row. -/
structure Decodes (id : StreamKey) (envelope : PendingEnvelope) (item : PersistedEnvelope × Nat) :
    Prop where
  decoded : (streamScan id).decode (eventRow (id, envelope)).1 (eventRow (id, envelope)).2 =
    .ok item.1
  values : item.1.toPending = envelope
  size : item.2 = (eventRow (id, envelope)).1.length + (eventRow (id, envelope)).2.length

theorem exists_decodes (short : id.length < 2 ^ 16) (fits : envelopeLen envelope < 2 ^ 32) :
    ∃ item, Decodes id envelope item := by
  obtain ⟨stored, decoded, values⟩ := decode_eventRow short fits
  exact ⟨(stored, _), decoded, values, rfl⟩

theorem eventRow_injective (short : id.length < 2 ^ 16)
    (fits : envelopeLen envelope < 2 ^ 32) (otherFits : envelopeLen other < 2 ^ 32)
    (same : eventRow (id, envelope) = eventRow (id, other)) :
    envelope = other := by
  obtain ⟨item, isItem⟩ := exists_decodes short fits
  obtain ⟨another, isAnother⟩ := exists_decodes short otherFits
  have decoded := isItem.decoded
  rw [same, isAnother.decoded, Except.ok.injEq] at decoded
  rw [← isItem.values, ← isAnother.values, decoded]

/-- The rows of a stream are its events. -/
theorem Stored.exists_isStream (stored : Stored snapshot entries) (short : id.length < 2 ^ 16) :
    ∃ events, IsStream entries id events := by
  have := lawfulOrderOrd_bytes
  have inRange : ∀ row, row ∈ range snapshot.events (eventKey id 0) (some (eventKey id u64Max)) ↔
      ∃ envelope, (id, envelope) ∈ entries ∧ eventRow (id, envelope) = row := by
    intro row
    rw [mem_range, stored.events row, List.mem_map]
    simp only [Option.mem_some_iff, forall_eq']
    constructor
    · rintro ⟨⟨⟨other, envelope⟩, present, rfl⟩, inside⟩
      obtain ⟨rfl, _⟩ := (eventKey_mem_range_iff short (stored.short _ present)).mp inside
      exact ⟨envelope, present, rfl⟩
    · rintro ⟨envelope, present, rfl⟩
      exact ⟨⟨_, present, rfl⟩, (eventKey_mem_range_iff short short).mpr ⟨rfl, UInt64.zero_le⟩⟩
  obtain ⟨events, isEvents⟩ : range snapshot.events (eventKey id 0) (some (eventKey id u64Max)) ∈
      Set.range (List.map fun envelope : {envelope // (id, envelope) ∈ entries} =>
        eventRow (id, envelope.1)) := by
    rw [Set.range_list_map]
    intro row present
    obtain ⟨envelope, inEntries, isRow⟩ := (inRange row).mp present
    exact ⟨⟨envelope, inEntries⟩, isRow⟩
  refine ⟨events.map Subtype.val, ?_, fun envelope => ?_⟩
  · have sorted := sorted_range snapshot.events (eventKey id 0) (some (eventKey id u64Max))
    rw [← isEvents, List.pairwise_map] at sorted
    rw [List.pairwise_map]
    refine sorted.imp fun {envelope next} below => ?_
    have below := compare_bytes_eq_lt.mp below
    change eventKey id _ < eventKey id _ at below
    rw [eventKey_lt_iff short short, UInt64.lt_iff_toNat_lt] at below
    simp only [Nat.lt_irrefl, List.lt_irrefl, true_and, false_or] at below
    exact below
  · constructor
    · intro present
      obtain ⟨event, _, rfl⟩ := List.mem_map.mp present
      exact event.2
    · intro present
      have isRow := (inRange (eventRow (id, envelope))).mpr ⟨envelope, present, rfl⟩
      rw [← isEvents] at isRow
      obtain ⟨event, inEvents, same⟩ := List.mem_map.mp isRow
      have isEvent := eventRow_injective short (stored.fits _ event.2) (stored.fits _ present) same
      exact List.mem_map.mpr ⟨event, inEvents, isEvent⟩

/-- The read of an event of a stream. -/
def eventFault (faults : Faults) (id : StreamKey) (item : PersistedEnvelope × Nat) :
    Option IoError :=
  faults (eventKey id item.1.version.asU64)

/-- A cursor that is left with some rows of a stream. -/
def HasEvents (faults : Faults) (id : StreamKey) (cursor : ScanCursor PersistedEnvelope)
    (rows : List (SizedRow FjallError PersistedEnvelope)) : Prop :=
  (∃ events items, cursor = ⟨events.map fun envelope => eventRow (id, envelope),
      (streamScan id).decode, false⟩ ∧
    List.Forall₂ (Decodes id) events items ∧
    (∀ envelope ∈ events, envelopeLen envelope < 2 ^ 32) ∧
    rows = readRows (eventFault faults id) items) ∨
  cursor.poisoned = true ∧ rows = []

/-- The rows that remain of a stream from a version on. -/
def EventsRemain (faults : Faults) (id : StreamKey) (all : List PendingEnvelope) (scan : Events)
    (rows : List (SizedRow FjallError PersistedEnvelope)) : Prop :=
  scan.id = id ∧ ∃ items, List.Forall₂ (Decodes id)
      (all.filter fun envelope => scan.start.toNat ≤ versionNumber envelope) items ∧
    rows = readRows (eventFault faults id) items

theorem filter_next {start : Version}
    (sorted : all.Pairwise fun envelope next => versionNumber envelope < versionNumber next)
    (isFirst : all.filter (fun other => start.toNat ≤ versionNumber other) = envelope :: rest) :
    all.filter (fun other => versionNumber envelope + 1 ≤ versionNumber other) = rest := by
  have chosen : envelope ∈ all.filter (fun other => start.toNat ≤ versionNumber other) :=
    isFirst ▸ List.mem_cons_self
  rw [List.mem_filter, decide_eq_true_eq] at chosen
  refine filter_behind sorted (Nat.lt_irrefl _) isFirst fun other _ => ?_
  simp only [decide_eq_true_eq]
  omega

theorem EventsRemain.cons
    (remaining : EventsRemain faults id all scan ((.ok first, size) :: rows)) :
    ∃ envelope rest items,
      all.filter (fun other => scan.start.toNat ≤ versionNumber other) = envelope :: rest ∧
      first.version.toNat = versionNumber envelope ∧ List.Forall₂ (Decodes id) rest items ∧
      rows = readRows (eventFault faults id) items := by
  obtain ⟨_, items, decodes, isRows⟩ := remaining
  obtain ⟨others, rfl, rfl⟩ := readRows_eq_ok isRows
  obtain ⟨envelope, rest, isFirst, later, isEvents⟩ := List.forall₂_cons_right_iff.mp decodes
  exact ⟨envelope, rest, others, isEvents, congrArg versionNumber isFirst.values, later, rfl⟩

theorem eventKey_of_decodes (decodes : Decodes id envelope item) :
    (eventRow (id, envelope)).1 = eventKey id item.1.version.asU64 := by
  rw [← decodes.values]
  rfl

theorem nextSized_eventRow (short : id.length < 2 ^ 16) (fit : envelopeLen envelope < 2 ^ 32)
    (decodes : Decodes id envelope item) :
    ScanCursor.nextSized ⟨eventRow (id, envelope) :: rest, (streamScan id).decode, false⟩ =
      some ((.ok item.1, item.2), ⟨rest, (streamScan id).decode, false⟩) := by
  simp only [ScanCursor.nextSized, Bool.false_eq_true, if_false,
    narrow_of_lt (small_eventRow short fit), decodes.decoded, decodes.size]

theorem nextScanned_of_read (short : id.length < 2 ^ 16) (fit : envelopeLen envelope < 2 ^ 32)
    (decodes : Decodes id envelope item) (isRead : eventFault faults id item = none) :
    nextScanned faults ⟨eventRow (id, envelope) :: rest, (streamScan id).decode, false⟩ =
      (some (.ok item.1, item.2), ⟨rest, (streamScan id).decode, false⟩) := by
  rw [eventFault, ← eventKey_of_decodes decodes] at isRead
  simp [nextScanned, nextSized_eventRow short fit decodes, isRead]

theorem nextScanned_of_fault (short : id.length < 2 ^ 16) (fit : envelopeLen envelope < 2 ^ 32)
    (decodes : Decodes id envelope item) (isFault : eventFault faults id item = some error) :
    nextScanned faults ⟨eventRow (id, envelope) :: rest, (streamScan id).decode, false⟩ =
      (some (.error (.io error), 0), ⟨rest, (streamScan id).decode, true⟩) := by
  rw [eventFault, ← eventKey_of_decodes decodes] at isFault
  simp [nextScanned, nextSized_eventRow short fit decodes, isFault]

/-- A scan of events goes on behind its last version. -/
theorem eventsScan_resumes (faults : Faults) (stored : Stored snapshot entries)
    (isStream : IsStream entries id all) (short : id.length ≤ maxStreamIdLen) :
    (eventsScan faults).Resumes snapshot (HasEvents faults id) (EventsRemain faults id all) where
  opened {scan rows} remaining := by
    obtain ⟨rfl, items, decodes, isRows⟩ := remaining
    have eventFits : scan.id.length ≤ maxEventKeyIdLen := Nat.le_trans short (by decide)
    have lower : (streamScan scan.id).lowerKey scan.start =
        .ok (eventKey scan.id scan.start.asU64) :=
      streamScan_lowerKey_eq_ok.mpr (encodeEventKey_eq_ok.mpr ⟨eventFits, rfl⟩)
    have upper : (streamScan scan.id).upperKey = .ok (some (eventKey scan.id u64Max)) :=
      streamScan_upperKey_eq_ok.mpr (encodeEventKey_eq_ok.mpr ⟨eventFits, rfl⟩)
    refine ⟨_, ?_, .inl ⟨_, items, rfl, decodes, fun envelope present => ?_, isRows⟩⟩
    · change ScanCursor.openAt snapshot.events (streamScan scan.id) scan.start = _
      rw [ScanCursor.openAt, lower, ok_bind, upper, ok_bind,
        stored.range_events isStream (Nat.lt_of_le_of_lt short (by decide))]
      rfl
    · have inStream := (isStream.mem envelope).mp (List.mem_filter.mp present).1
      exact stored.fits _ inStream
  ended {cursor} none := by
    obtain ⟨events, items, rfl, decodes, _, isRows⟩ | ⟨poisoned, _⟩ := none
    · obtain rfl := readRows_eq_nil isRows.symm
      cases decodes
      rfl
    · change (nextScanned faults cursor).1 = none
      simp only [nextScanned, ScanCursor.nextSized, poisoned, if_true]
  row {cursor row rows} isRows := by
    obtain ⟨events, items, rfl, decodes, fits, isRows⟩ | ⟨_, impossible⟩ := isRows
    · cases decodes with
      | nil => cases isRows
      | @cons envelope item rest items first later =>
        obtain ⟨fit, fits⟩ := List.forall_mem_cons.mp fits
        have short := Nat.lt_of_le_of_lt short (show maxStreamIdLen < 2 ^ 16 by decide)
        change (nextScanned faults _).1 = _ ∧ HasEvents faults id (nextScanned faults _).2 _
        rw [List.map_cons]
        cases isRead : eventFault faults id item with
        | none =>
          rw [readRows_of_none isRead] at isRows
          cases isRows
          rw [nextScanned_of_read short fit first isRead]
          exact ⟨rfl, .inl ⟨rest, items, rfl, later, fits, rfl⟩⟩
        | some error =>
          rw [readRows_of_some isRead] at isRows
          cases isRows
          rw [nextScanned_of_fault short fit first isRead]
          exact ⟨rfl, .inr ⟨rfl, rfl⟩⟩
    · cases impossible
  advanced {scan item size rows after} remaining isAfter := by
    obtain ⟨envelope, rest, items, isFirst, isVersion, later, isRows⟩ := remaining.cons
    obtain ⟨rfl, _⟩ := remaining
    simp only [eventsScan] at isAfter
    split at isAfter
    · cases isAfter
    next start isNext =>
      cases isAfter
      refine ⟨rfl, items, ?_, isRows⟩
      rw [← filter_next isStream.sorted isFirst, ← isVersion] at later
      rw [← Version.next_eq_some.mp isNext] at later
      exact later
  exhausted {scan item size rows after} remaining isAfter := by
    obtain ⟨envelope, rest, items, isFirst, isVersion, later, rfl⟩ := remaining.cons
    simp only [eventsScan] at isAfter
    split at isAfter
    next isNone =>
      -- nothing is behind the last possible version
      have last := following_eq_none.mp (show following (some item.version) =
        none from isNone)
      have nothing : rest = [] := by
        rw [← filter_next isStream.sorted isFirst, List.filter_eq_nil_iff]
        intro other _
        have bounded := other.version.asU64.toNat_lt
        change item.version.toNat + 1 = 2 ^ 64 at last
        change other.version.toNat < 2 ^ 64 at bounded
        rw [decide_eq_true_eq, ← isVersion, versionNumber]
        omega
      rw [nothing] at later
      cases later
      rfl
    · cases isAfter

theorem exists_items (short : id.length < 2 ^ 16) {events : List PendingEnvelope}
    (fits : ∀ envelope ∈ events, envelopeLen envelope < 2 ^ 32) :
    ∃ items, List.Forall₂ (Decodes id) events items := by
  induction events with
  | nil => exact ⟨[], .nil⟩
  | cons envelope events rest =>
    obtain ⟨fit, fits⟩ := List.forall_mem_cons.mp fits
    obtain ⟨item, decodes⟩ := exists_decodes short fit
    obtain ⟨items, others⟩ := rest fits
    exact ⟨item :: items, .cons decodes others⟩

end Events

section Sessions

variable {config : BlockingConfig} {clockLimit : Nat} {lease : Lease}
theorem cursor_eq_ok {Scan Item : Type} {initial : Scan} :
    (∃ cursor : FjallExportCursor Scan Item, lease.cursor now admission initial = .ok cursor) ↔
      now < lease.deadline ∧ admission = .ok () := by
  unfold Lease.cursor Lease.checkLive reserveCursor
  by_cases expired : lease.deadline ≤ now
  · rw [rejectIf_of _ expired]
    exact iff_of_false nofun fun live => absurd expired (Nat.not_le.mpr live.1)
  · rw [rejectIf_of_not _ expired, ok_bind, and_iff_right (Nat.not_le.mp expired)]
    cases admission with
    | error error => exact iff_of_false nofun nofun
    | ok _ => exact iff_of_true ⟨_, rfl⟩ rfl

theorem exportStream_eq_ok {id : StreamKey} :
    (∃ cursor, lease.exportStream now admission id start = .ok cursor) ↔
      now < lease.deadline ∧ (id ≠ [] ∧ id.length ≤ maxStreamIdLen) ∧ admission = .ok () := by
  unfold Lease.exportStream
  by_cases live : now < lease.deadline
  · rw [Lease.checkLive, rejectIf_of_not _ (Nat.not_le.mpr live), ok_bind, and_iff_right live]
    by_cases valid : id ≠ [] ∧ id.length ≤ maxStreamIdLen
    · have isValid : validateKey id maxStreamIdLen = .ok () := validateKey_eq_ok.mpr valid
      rw [isValid, mapError_ok, ok_bind, cursor_eq_ok, and_iff_right live, and_iff_right valid]
    · refine iff_of_false ?_ fun valid => absurd valid.1 ‹_›
      rintro ⟨_, isCursor⟩
      obtain ⟨_, isValid, _⟩ := bind_eq_ok.mp isCursor
      exact valid (validateKey_eq_ok.mp (mapError_eq_ok.mp isValid))
  · refine iff_of_false ?_ fun live => absurd live.1 ‹_›
    rintro ⟨_, isCursor⟩
    obtain ⟨_, isLive, _⟩ := bind_eq_ok.mp isCursor
    exact live (Nat.not_le.mp (rejectIf_eq_ok.mp isLive))

theorem exports_listStreams (keeps : host.views.Keeps lease snapshot host.now)
    (isCursor : lease.listStreams host.now admission = .ok cursor) (faults : Faults)
    (events : List ExportEvent) :
    ((ExportWorld.mk host cursor []).run (listingScan faults) config clockLimit lease
      events).Exports config lease events
        (readable (fun item => faults item.1) (idItems snapshot.streams.keys))
        (firstFault (fun item => faults item.1) (idItems snapshot.streams.keys)) :=
  ExportWorld.exports_of_cursor (listingScan_resumes faults snapshot) keeps rfl isCursor events

/-- The events of a stream in a snapshot are exported from a version on, in the order of
their versions. -/
theorem exports_exportStream (keeps : host.views.Keeps lease snapshot host.now)
    (stored : Stored snapshot entries) {id : StreamKey} {all : List PendingEnvelope}
    (isStream : IsStream entries id all) {start : Version}
    {cursor : FjallExportCursor Events PersistedEnvelope}
    (isCursor : lease.exportStream host.now admission id start = .ok cursor) :
    ∃ items, List.Forall₂ (Decodes id)
        (all.filter fun envelope => start.toNat ≤ versionNumber envelope) items ∧
      ∀ faults events, ((ExportWorld.mk host cursor []).run (eventsScan faults) config clockLimit
        lease events).Exports config lease events (readable (eventFault faults id) items)
          (firstFault (eventFault faults id) items) := by
  obtain ⟨_, _, isCursor⟩ := bind_eq_ok.mp isCursor
  obtain ⟨_, isValid, isCursor⟩ := bind_eq_ok.mp isCursor
  have short := (validateKey_eq_ok.mp (mapError_eq_ok.mp isValid)).2
  obtain ⟨items, decodes⟩ := @exists_items id (Nat.lt_of_le_of_lt short (by decide))
    (all.filter fun envelope => start.toNat ≤ versionNumber envelope) (by
      intro envelope present
      exact stored.fits _ ((isStream.mem envelope).mp (List.mem_filter.mp present).1))
  exact ⟨items, decodes, fun faults events =>
    ExportWorld.exports_of_cursor (eventsScan_resumes faults stored isStream short) keeps
      ⟨rfl, items, decodes, rfl⟩ isCursor events⟩

theorem keeps_of_openExportSession
    (isOpened : openExportSession clockLimit lifetime opening later admission snapshot views =
      .ok (lease, opened))
    (events : List HostEvent) :
    (ExportHost.run clockLimit lease ⟨snapshot, opened, later⟩ events).views.Keeps lease snapshot
      (ExportHost.run clockLimit lease ⟨snapshot, opened, later⟩ events).now := by
  obtain ⟨_, _, isOpened⟩ := bind_eq_ok.mp isOpened
  obtain ⟨_, _, isOpened⟩ := bind_eq_ok.mp isOpened
  exact ExportHost.keeps_run (Views.keeps_of_openView isOpened) events

end Sessions

/-- What the listings of a session export: all ids of streams in a snapshot, in their order. -/
structure ExportsIds (config : BlockingConfig) (clockLimit : Nat) (lease : Lease)
    (snapshot : Partitions) (host : ExportHost) : Prop where
  sorted : snapshot.streams.keys.Pairwise (· < ·)
  mem : ∀ id, id ∈ snapshot.streams.keys ↔ snapshot.streams[id]? ≠ none
  /-- There is a listing as long as the session lives and there is a place for one. -/
  given : ∀ admission, (∃ cursor, lease.listStreams host.now admission = .ok cursor) ↔
    host.now < lease.deadline ∧ admission = .ok ()
  exported : ∀ admission cursor, lease.listStreams host.now admission = .ok cursor →
    ∀ faults events, ((ExportWorld.mk host cursor []).run (listingScan faults) config clockLimit
      lease events).Exports config lease events
        (readable (fun item => faults item.1) (idItems snapshot.streams.keys))
        (firstFault (fun item => faults item.1) (idItems snapshot.streams.keys))

/-- What a session exports of a stream from a version on: its entries in the order of their
versions. -/
structure ExportsEvents (config : BlockingConfig) (clockLimit : Nat) (lease : Lease)
    (entries : List (StreamKey × PendingEnvelope)) (host : ExportHost) (id : StreamKey)
    (start : Version) : Prop where
  given : ∀ admission, (∃ cursor, lease.exportStream host.now admission id start = .ok cursor) ↔
    host.now < lease.deadline ∧ (id ≠ [] ∧ id.length ≤ maxStreamIdLen) ∧ admission = .ok ()
  exported : ∀ admission cursor, lease.exportStream host.now admission id start = .ok cursor →
    ∃ exported items,
      exported.Pairwise (fun envelope next => versionNumber envelope < versionNumber next) ∧
      (∀ envelope, envelope ∈ exported ↔
        (id, envelope) ∈ entries ∧ start.toNat ≤ versionNumber envelope) ∧
      List.Forall₂ (Decodes id) exported items ∧
      ∀ faults events, ((ExportWorld.mk host cursor []).run (eventsScan faults) config clockLimit
        lease events).Exports config lease events (readable (eventFault faults id) items)
          (firstFault (eventFault faults id) items)

/-- The cursors of a session export the snapshot that was taken when the session was
opened, whatever is committed meanwhile and however the rows are cut into batches: the
ids of its streams in their order, and the events of a stream from a version on in the
order of their versions. -/
theorem sessions_export_their_snapshot (config : BlockingConfig)
    {clockLimit lifetime opening later : Nat} {admission : Except TrySendError Unit}
    {snapshot : Partitions} {entries : List (StreamKey × PendingEnvelope)} {views opened : Views}
    {lease : Lease} (stored : Stored snapshot entries)
    (isOpened : openExportSession clockLimit lifetime opening later admission snapshot views =
      .ok (lease, opened))
    {host : ExportHost} {before : List HostEvent}
    (isHost : host = ExportHost.run clockLimit lease ⟨snapshot, opened, later⟩ before) :
    ExportsIds config clockLimit lease snapshot host ∧
      ∀ id start, ExportsEvents config clockLimit lease entries host id start := by
  subst isHost
  have keeps := keeps_of_openExportSession isOpened before
  refine ⟨⟨sorted_streamIds snapshot, fun id => ?_, fun _ => cursor_eq_ok, fun _ cursor isCursor =>
    exports_listStreams keeps isCursor⟩, fun id start => ⟨fun _ => exportStream_eq_ok,
      fun admission cursor isCursor => ?_⟩⟩
  · rw [Std.ExtTreeMap.mem_keys, Std.ExtTreeMap.mem_iff_isSome_getElem?, ne_eq,
      ← Option.not_isSome_iff_eq_none, not_not]
  · have short := (exportStream_eq_ok.mp ⟨cursor, isCursor⟩).2.1.2
    obtain ⟨all, isStream⟩ := stored.exists_isStream (Nat.lt_of_le_of_lt short (by decide))
    obtain ⟨items, decodes, exports⟩ :=
      @exports_exportStream config clockLimit _ _ _ _ _ keeps stored _ _ isStream _ _ isCursor
    refine ⟨_, items, isStream.sorted.filter _, fun envelope => ?_, decodes, exports⟩
    rw [List.mem_filter, isStream.mem, decide_eq_true_eq]

/-- An event at the last possible version. -/
def ceilingEvent : PendingEnvelope :=
  { (freshRun []).head with version := ⟨u64Max, by decide⟩ }

/-- A snapshot with one event, at the last possible version. -/
def ceilingSnapshot : Partitions :=
  { Partitions.new .disabled with
    streams := (∅ : Keyspace).insert [1] (encodeStreamVersion u64Max)
    events := (∅ : Keyspace).insert (eventRow ([1], ceilingEvent)).1
      (eventRow ([1], ceilingEvent)).2 }

theorem stored_ceilingSnapshot : Stored ceilingSnapshot [([1], ceilingEvent)] where
  events := holds_empty.insert (List.forall_mem_nil _) _
  short := by decide
  fits := by decide

/-- A session of this snapshot has just been opened. -/
def ceilingHost : ExportHost where
  partitions := ceilingSnapshot
  views := ⟨(∅ : Std.ExtTreeMap UInt64 View compare).insert 1 ⟨ceilingSnapshot, 10⟩, some 2⟩
  now := 0

/-- The stream and its event at the last possible version are exported in batches of one
row, behind which there is no next version. -/
theorem event_at_ceiling_is_exported :
    (∃ cursor, Lease.listStreams ⟨1, 10⟩ 0 (.ok ()) = .ok cursor ∧ ∀ events,
      ((ExportWorld.mk ceilingHost cursor []).run (listingScan fun _ => none) .single 100 ⟨1, 10⟩
        events).Exports .single ⟨1, 10⟩ events [([1], 1)] none) ∧
    ∃ cursor, Lease.exportStream ⟨1, 10⟩ 0 (.ok ()) [1] .initial = .ok cursor ∧
      ∃ item, Decodes [1] ceilingEvent item ∧ ∀ events,
        ((ExportWorld.mk ceilingHost cursor []).run (eventsScan fun _ => none) .single 100 ⟨1, 10⟩
          events).Exports .single ⟨1, 10⟩ events [item] none := by
  have isOpened : openExportSession 100 10 0 0 (.ok ()) ceilingSnapshot .new =
      .ok (⟨1, 10⟩, ceilingHost.views) := rfl
  obtain ⟨listed, read⟩ := @sessions_export_their_snapshot .single _ _ _ _ _ _ _ _ _ _
    stored_ceilingSnapshot isOpened _ [] rfl
  obtain ⟨exported, items, sorted, mem, decodes, exports⟩ :=
    (read [1] .initial).exported (.ok ()) _ rfl
  refine ⟨⟨_, rfl, listed.exported (.ok ()) _ rfl fun _ => none⟩, _, rfl, ?_⟩
  have present : ceilingEvent ∈ exported := (mem ceilingEvent).mpr ⟨by simp, by decide⟩
  have only : ∀ envelope ∈ exported, envelope = ceilingEvent := by
    intro envelope isExported
    simpa using ((mem envelope).mp isExported).1
  cases decodes with
  | nil => cases present
  | @cons first item rest items decodes others =>
    obtain rfl := only first List.mem_cons_self
    cases others with
    | nil => exact ⟨item, decodes, exports fun _ => none⟩
    | @cons second =>
      -- two events of a stream do not have the same version
      have below := (List.pairwise_cons.mp sorted).1 second List.mem_cons_self
      rw [only second (List.mem_cons_of_mem _ List.mem_cons_self)] at below
      exact absurd below (Nat.lt_irrefl _)

end Mnesis.Fjall
