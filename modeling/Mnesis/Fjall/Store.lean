import Mnesis.Fjall.Partition
import Mnesis.Store.Contract

/-!
# Scans and the store

A read scans one partition between two keys and decodes the rows it finds.  The rows of
a stream are exactly those between the key of the first version asked for and the key of
the last possible version, and the rows behind a position those from the smallest key of
the next position on.  An append checks and encodes its input, and then works on a copy
of the partitions that replaces them when it is committed.
-/

namespace Mnesis.Fjall

open Foundation Kernel Store Wire

/-- What distinguishes the scans: their bounds, and how a row is decoded. -/
structure ScanStrategy (Position Item : Type) where
  lowerKey : Position → Except FjallError Bytes
  upperKey : Except FjallError (Option Bytes)
  decode : Bytes → Bytes → Except FjallError Item

/-- The envelope of a decoded frame. -/
def buildEnvelope (bytesValue : Bytes) (decoded : DecodedFrame) (rawVersion : UInt64)
    (streamId : StreamKey) : Except FjallError PersistedEnvelope := do
  let version ← okOr (Version.new rawVersion) (.corruptValue streamId (some rawVersion))
  (PersistedEnvelope.tryNew version bytesValue decoded.schemaVersion
    decoded.offsets.eventType decoded.offsets.payload decoded.offsets.metadata).mapError
    (.envelopeCorrupt streamId rawVersion)

/-- The last version of a stream. -/
def u64Max : UInt64 := UInt64.ofNat (2 ^ 64 - 1)

/-- The scan of one stream. -/
def streamScan (id : StreamKey) : ScanStrategy Version PersistedEnvelope where
  lowerKey start :=
    (encodeEventKey id start.asU64).mapError fun error =>
      .invalidInput id start.asU64 (.key error)
  upperKey :=
    ((encodeEventKey id u64Max).map some).mapError fun error =>
      .invalidInput id u64Max (.key error)
  decode key value := do
    let (_, version) ← (decodeEventKey key).mapError fun _ => .corruptValue id none
    let decoded ← (decodeFrame value).mapError fun _ => .corruptValue id (some version)
    buildEnvelope value decoded version id

/-- The scan of all streams. -/
def globalScan : ScanStrategy GlobalSeq (GlobalSeq × StreamKey × PersistedEnvelope) where
  lowerKey start :=
    (encodeGlobalKey start.asU64 [] 0).mapError fun error =>
      .invalidInput [] start.asU64 (.key error)
  upperKey := return none
  decode key value := do
    let (keyGlobalSeq, stream, versionRaw) ←
      (decodeGlobalKey key).mapError fun _ => .corruptValue [] none
    rejectIf (stream = []) (.corruptValue [] (some versionRaw))
    let position ← okOr (Version.new keyGlobalSeq) (.corruptValue stream (some versionRaw))
    let decoded ← (decodeFrame value).mapError fun _ =>
      .corruptValue stream (some versionRaw)
    let envelope ← buildEnvelope value decoded versionRaw stream
    return (position, stream, envelope)

/-- A scan in progress: the rows still to come, and whether it has failed. -/
structure ScanCursor (Item : Type) where
  rows : List (Bytes × Bytes)
  decode : Bytes → Bytes → Except FjallError Item
  poisoned : Bool

namespace ScanCursor

variable {Position Item : Type}

/-- Open a scan. -/
def openAt (keyspace : Keyspace) (strategy : ScanStrategy Position Item)
    (start : Position) : Except FjallError (ScanCursor Item) := do
  let lower ← strategy.lowerKey start
  let upper ← strategy.upperKey
  return ⟨range keyspace lower upper, strategy.decode, false⟩

/-- Open a scan that has no rows. -/
def openEmpty (strategy : ScanStrategy Position Item) : ScanCursor Item :=
  ⟨[], strategy.decode, false⟩

/-- The next item with its size.  A scan that has failed has no more items. -/
def nextSized (cursor : ScanCursor Item) :
    Option ((Except FjallError Item × Nat) × ScanCursor Item) :=
  if cursor.poisoned then
    none
  else
    match cursor.rows with
    | [] => none
    | (key, value) :: rows =>
      match narrow usizeLimit (key.length + value.length) with
      | none =>
        some ((.error .scanLengthOverflow, 0), { cursor with rows, poisoned := true })
      | some size =>
        match cursor.decode key value with
        | .ok item => some ((.ok item, size), { cursor with rows })
        | .error error => some ((.error error, size), { cursor with rows, poisoned := true })

theorem length_rows_of_nextSized {cursor : ScanCursor Item}
    (next : cursor.nextSized = some (item, after)) :
    after.rows.length < cursor.rows.length := by
  unfold nextSized at next
  split at next
  · cases next
  · split at next
    · cases next
    · next isRows =>
        rw [isRows, List.length_cons]
        split at next
        · cases next
          exact Nat.lt_succ_self _
        · split at next <;>
          · cases next
            exact Nat.lt_succ_self _

/-- The items of a scan that is read to its end. -/
def collect (cursor : ScanCursor Item) : List (Except FjallError Item) :=
  match _ : cursor.nextSized with
  | none => []
  | some ((item, _), after) => item :: after.collect
termination_by cursor.rows.length
decreasing_by exact length_rows_of_nextSized ‹_›

theorem collect_of_nextSized {cursor : ScanCursor Item}
    (next : cursor.nextSized = some ((item, size), after)) :
    cursor.collect = item :: after.collect := by
  rw [collect]
  split
  next ended => cases next.symm.trans ended
  next continued =>
    cases next.symm.trans continued
    rfl

/-- A scan whose rows all decode yields their items. -/
theorem collect_of_decodes {Entry View : Type} {entries : List Entry} {row : Entry → Bytes × Bytes}
    {decode : Bytes → Bytes → Except FjallError Item} {view : Item → View} {expected : Entry → View}
    (small : ∀ entry ∈ entries, (row entry).1.length + (row entry).2.length < usizeLimit)
    (decodes : ∀ entry ∈ entries, ∃ item,
      decode (row entry).1 (row entry).2 = .ok item ∧ view item = expected entry) :
    (ScanCursor.mk (entries.map row) decode false).collect.map (Except.map view) =
      entries.map fun entry => .ok (expected entry) := by
  induction entries with
  | nil =>
    rw [collect]
    rfl
  | cons entry entries rest =>
    rw [List.forall_mem_cons] at small decodes
    obtain ⟨item, decoded, isView⟩ := decodes.1
    have next : (ScanCursor.mk ((entry :: entries).map row) decode false).nextSized =
        some ((.ok item, (row entry).1.length + (row entry).2.length),
          ⟨entries.map row, decode, false⟩) := by
      simp only [List.map_cons, nextSized, Bool.false_eq_true, if_false,
        narrow_of_lt small.1, decoded]
    rw [collect_of_nextSized next, List.map_cons, List.map_cons, rest small.2 decodes.2, ← isView]
    rfl

end ScanCursor

theorem streamScan_lowerKey_eq_ok {id : StreamKey} :
    (streamScan id).lowerKey start = .ok key ↔ encodeEventKey id start.asU64 = .ok key :=
  mapError_eq_ok

theorem streamScan_upperKey_eq_ok {id : StreamKey} :
    (streamScan id).upperKey = .ok (some key) ↔ encodeEventKey id u64Max = .ok key := by
  rw [streamScan, mapError_eq_ok]
  cases encodeEventKey id u64Max <;> simp [Except.map]

theorem globalScan_lowerKey_eq_ok :
    globalScan.lowerKey start = .ok key ↔ globalKey start.asU64 [] 0 = key := by
  rw [globalScan, mapError_eq_ok, encodeGlobalKey_eq_ok]
  exact and_iff_right (Nat.zero_le _)

theorem globalKey_le_iff {id : Bytes} (fits : id.length < 2 ^ 16) (nonempty : id ≠ []) :
    globalKey start [] 0 ≤ globalKey globalSeq id version ↔ start ≤ globalSeq := by
  have above : ¬ eventKey id version < eventKey [] 0 := by
    rw [eventKey_lt_iff fits (by decide), List.length_nil]
    rintro (shorter | ⟨empty, _⟩)
    · exact Nat.not_lt_zero _ shorter
    · exact nonempty (List.length_eq_zero_iff.mp empty)
  rw [← List.not_lt, globalKey_lt_iff, not_or, not_and, UInt64.not_lt]
  exact and_iff_left fun _ => above

/-- The keys of events: their order, and what their decoders accept. -/
structure LawfulKeys : Prop where
  /-- Ids up to a length have event keys. -/
  eventAccepted : ∀ (id : StreamKey) (version : UInt64),
    (∃ key, encodeEventKey id version = .ok key) ↔ id.length ≤ maxEventKeyIdLen
  /-- Ids up to a length have keys of the index. -/
  allAccepted : ∀ (globalSeq : UInt64) (id : StreamKey) (version : UInt64),
    (∃ key, encodeGlobalKey globalSeq id version = .ok key) ↔ id.length ≤ maxStreamIdLen
  /-- The events of a stream from a version on, and no others, lie between the key
  of that version and the key of the last possible one. -/
  eventRange : ∀ {id other : StreamKey} {start version : UInt64} {lower upper key : Bytes},
    encodeEventKey id start = .ok lower → encodeEventKey id u64Max = .ok upper →
    encodeEventKey other version = .ok key →
    ((lower ≤ key ∧ key ≤ upper) ↔ other = id ∧ start ≤ version)
  /-- These are the bounds of the scan of a stream. -/
  streamRange : ∀ {id other : StreamKey} {start : Version} {version : UInt64}
    {lower upper key : Bytes},
    (streamScan id).lowerKey start = .ok lower → (streamScan id).upperKey = .ok (some upper) →
    encodeEventKey other version = .ok key →
    ((lower ≤ key ∧ key ≤ upper) ↔ other = id ∧ start.asU64 ≤ version)
  /-- The keys of a stream are in the order of their versions. -/
  eventOrder : ∀ {id : StreamKey} {version another : UInt64} {key next : Bytes},
    encodeEventKey id version = .ok key → encodeEventKey id another = .ok next →
    (key < next ↔ version < another)
  /-- The events at or behind a position, and no others, lie at or above the lower
  bound of the scan of all streams. -/
  allRange : ∀ {start : GlobalSeq} {globalSeq version : UInt64} {id : StreamKey}
    {lower key : Bytes},
    globalScan.lowerKey start = .ok lower → encodeGlobalKey globalSeq id version = .ok key →
    id ≠ [] → (lower ≤ key ↔ start.asU64 ≤ globalSeq)
  /-- Keys of different positions are in the order of their positions. -/
  allOrder : ∀ {globalSeq position version another : UInt64} {id other : StreamKey}
    {key next : Bytes},
    encodeGlobalKey globalSeq id version = .ok key →
    encodeGlobalKey position other another = .ok next →
    globalSeq ≠ position → (key < next ↔ globalSeq < position)
  /-- An event key is decoded to the fields it was made from. -/
  eventDecoded : ∀ {id : StreamKey} {version : UInt64} {key : Bytes},
    encodeEventKey id version = .ok key → decodeEventKey key = .ok (id, version)
  /-- Only an event key is decoded, if it is no longer than a key may be. -/
  eventEncoded : ∀ {id : StreamKey} {version : UInt64} {key : Bytes},
    key.length ≤ maxKeyLen → decodeEventKey key = .ok (id, version) →
    encodeEventKey id version = .ok key
  /-- Different events have different keys. -/
  eventInjective : ∀ {id other : StreamKey} {version another : UInt64} {key : Bytes},
    encodeEventKey id version = .ok key → encodeEventKey other another = .ok key →
    id = other ∧ version = another
  /-- A key of the index is decoded to the fields it was made from. -/
  allDecoded : ∀ {globalSeq version : UInt64} {id : StreamKey} {key : Bytes},
    encodeGlobalKey globalSeq id version = .ok key →
    decodeGlobalKey key = .ok (globalSeq, id, version)
  /-- Only a key of the index is decoded, if it is no longer than a key may be. -/
  allEncoded : ∀ {globalSeq version : UInt64} {id : StreamKey} {key : Bytes},
    key.length ≤ maxKeyLen → decodeGlobalKey key = .ok (globalSeq, id, version) →
    encodeGlobalKey globalSeq id version = .ok key
  /-- Different entries of the index have different keys. -/
  allInjective : ∀ {globalSeq position version another : UInt64} {id other : StreamKey}
    {key : Bytes},
    encodeGlobalKey globalSeq id version = .ok key →
    encodeGlobalKey position other another = .ok key →
    globalSeq = position ∧ id = other ∧ version = another

theorem length_lt_of_encodeEventKey {id : Bytes} (encoded : encodeEventKey id version = .ok key) :
    id.length < 2 ^ 16 :=
  Nat.lt_of_le_of_lt (encodeEventKey_eq_ok.mp encoded).1 (by decide)

theorem length_lt_of_encodeGlobalKey {id : Bytes}
    (encoded : encodeGlobalKey globalSeq id version = .ok key) :
    id.length < 2 ^ 16 :=
  Nat.lt_of_le_of_lt (encodeGlobalKey_eq_ok.mp encoded).1 (by decide)

theorem eventKey_range {id : StreamKey} (isLower : encodeEventKey id start = .ok lower)
    (isUpper : encodeEventKey id u64Max = .ok upper)
    (isKey : encodeEventKey other version = .ok key) :
    (lower ≤ key ∧ key ≤ upper) ↔ other = id ∧ start ≤ version := by
  have fits := length_lt_of_encodeEventKey isLower
  have otherFits := length_lt_of_encodeEventKey isKey
  obtain ⟨_, rfl⟩ := encodeEventKey_eq_ok.mp isLower
  obtain ⟨_, rfl⟩ := encodeEventKey_eq_ok.mp isUpper
  obtain ⟨_, rfl⟩ := encodeEventKey_eq_ok.mp isKey
  exact eventKey_mem_range_iff fits otherFits

/-- The keys of the partitions keep streams apart and are ordered as their versions and
positions are. -/
theorem lawfulKeys : LawfulKeys where
  eventAccepted id version := by
    constructor
    · rintro ⟨key, encoded⟩
      exact (encodeEventKey_eq_ok.mp encoded).1
    · intro fits
      exact ⟨_, encodeEventKey_eq_ok.mpr ⟨fits, rfl⟩⟩
  allAccepted globalSeq id version := by
    constructor
    · rintro ⟨key, encoded⟩
      exact (encodeGlobalKey_eq_ok.mp encoded).1
    · intro fits
      exact ⟨_, encodeGlobalKey_eq_ok.mpr ⟨fits, rfl⟩⟩
  eventRange := eventKey_range
  streamRange isLower isUpper isKey :=
    eventKey_range (streamScan_lowerKey_eq_ok.mp isLower)
      (streamScan_upperKey_eq_ok.mp isUpper) isKey
  eventOrder {id version another key next} isKey isNext := by
    have fits := length_lt_of_encodeEventKey isKey
    obtain ⟨_, rfl⟩ := encodeEventKey_eq_ok.mp isKey
    obtain ⟨_, rfl⟩ := encodeEventKey_eq_ok.mp isNext
    rw [eventKey_lt_iff fits fits]
    simp only [Nat.lt_irrefl, List.lt_irrefl, true_and, false_or]
  allRange isLower isKey nonempty := by
    obtain rfl := globalScan_lowerKey_eq_ok.mp isLower
    have fits := length_lt_of_encodeGlobalKey isKey
    obtain ⟨_, rfl⟩ := encodeGlobalKey_eq_ok.mp isKey
    exact globalKey_le_iff fits nonempty
  allOrder isKey isNext different := by
    obtain ⟨_, rfl⟩ := encodeGlobalKey_eq_ok.mp isKey
    obtain ⟨_, rfl⟩ := encodeGlobalKey_eq_ok.mp isNext
    rw [globalKey_lt_iff]
    exact or_iff_left fun same => different same.1
  eventDecoded isKey := by
    have fits := length_lt_of_encodeEventKey isKey
    obtain ⟨_, rfl⟩ := encodeEventKey_eq_ok.mp isKey
    exact decodeEventKey_eq_ok.mpr ⟨fits, rfl⟩
  eventEncoded {id version key} short decoded := by
    obtain ⟨_, rfl⟩ := decodeEventKey_eq_ok.mp decoded
    rw [length_eventKey, maxKeyLen] at short
    refine encodeEventKey_eq_ok.mpr ⟨?_, rfl⟩
    change id.length ≤ 65535 - 2 - 8
    omega
  eventInjective isKey isOther := by
    have fits := length_lt_of_encodeEventKey isKey
    have otherFits := length_lt_of_encodeEventKey isOther
    obtain ⟨_, rfl⟩ := encodeEventKey_eq_ok.mp isKey
    exact eventKey_injective fits otherFits (encodeEventKey_eq_ok.mp isOther).2.symm
  allDecoded isKey := by
    have fits := length_lt_of_encodeGlobalKey isKey
    obtain ⟨_, rfl⟩ := encodeGlobalKey_eq_ok.mp isKey
    exact decodeGlobalKey_eq_ok.mpr ⟨fits, rfl⟩
  allEncoded {globalSeq version id key} short decoded := by
    obtain ⟨_, rfl⟩ := decodeGlobalKey_eq_ok.mp decoded
    rw [length_globalKey, maxKeyLen] at short
    refine encodeGlobalKey_eq_ok.mpr ⟨?_, rfl⟩
    change id.length ≤ 65535 - 18
    omega
  allInjective isKey isOther := by
    have fits := length_lt_of_encodeGlobalKey isKey
    have otherFits := length_lt_of_encodeGlobalKey isOther
    obtain ⟨_, rfl⟩ := encodeGlobalKey_eq_ok.mp isKey
    exact globalKey_injective fits otherFits (encodeGlobalKey_eq_ok.mp isOther).2.symm

/-- A failed plan in terms of an append. -/
def appendPlanErr (id : StreamKey) : PlanError → AppendError FjallError
  | .versionOverflow => .store .versionOverflow
  | .globalSeqOverflow => .store .globalSeqOverflow
  | .invalidInput version reason => .store (.invalidInput id version reason)

/-- The append contract in terms of the store. -/
def fjallValidationErr (id : StreamKey) : AppendValidationError → AppendError FjallError
  | .conflict _ expected actual => .conflict id expected actual
  | .versionOverflow => .store .versionOverflow

/-- Append a batch to one stream. -/
def append (id : StreamKey) (expectedVersion : Option Version) (envelopes : PendingBatch) :
    Locked Partitions (AppendError FjallError) GlobalSeq := do
  Locked.ofResult ((validateKey id maxStreamIdLen).mapError AppendError.store)
  let prepared ← Locked.ofResult ((prepareRun envelopes).mapError (appendPlanErr id))
  let tx ← get
  let currentVersion ← Locked.ofResult ((tx.readVersion id).mapError AppendError.store)
  Locked.ofResult ((validateAppendVersions currentVersion expectedVersion envelopes id).mapError
    (fjallValidationErr id))
  let currentGlobal ← Locked.ofResult ((tx.readGlobal id).mapError AppendError.store)
  let planned ← Locked.ofResult
    ((planPreparedRun currentVersion currentGlobal id prepared).mapError (appendPlanErr id))
  let tx := planned.rows.foldl Partitions.stageEvent tx
  let tx := tx.setGlobal planned.endingGlobal
  let tx := tx.setVersion id planned.newVersion
  set tx
  let position ← Locked.ofResult
    (okOr (Version.new planned.endingGlobal) (.store (.corruptMeta id)))
  return position

/-- A failed plan in terms of an atomic append. -/
def atomicPlanErr (target : StreamKey) : PlanError → AtomicAppendError FjallError
  | .versionOverflow => .store .versionOverflow
  | .globalSeqOverflow => .store .globalSeqOverflow
  | .invalidInput version reason => .store (.invalidInput target version reason)

/-- All targets must be valid keys. -/
def validateKeys : List PlannedAppend → Except (AtomicAppendError FjallError) Unit
  | [] => return ()
  | write :: writes => do
    (validateKey write.target maxStreamIdLen).mapError .store
    validateKeys writes

/-- Encode the envelopes of runs. -/
def prepareRuns :
    List PlannedAppend → Except (AtomicAppendError FjallError) (List (PlannedAppend × List Bytes))
  | [] => return []
  | write :: writes => do
    let frames ← (prepareRun write.batch).mapError (atomicPlanErr write.target)
    return (write, frames) :: (← prepareRuns writes)

/-- Every run must build on the current version of its stream. -/
def validateAtomicWrites (tx : Partitions) :
    Nat → List PlannedAppend → Except (AtomicAppendError FjallError) Unit
  | _, [] => return ()
  | index, write :: writes => do
    let actual ← (tx.readVersion write.target).mapError .store
    rejectIf (actual ≠ rawHead write.expectedVersion) (.conflict index (Version.new actual))
    validateAtomicWrites tx (index + 1) writes

/-- Plan and stage runs; the positions continue from run to run. -/
def stageRuns :
    Partitions → UInt64 → List (PlannedAppend × List Bytes) →
      Except (AtomicAppendError FjallError) (Partitions × UInt64)
  | tx, globalSeq, [] => return (tx, globalSeq)
  | tx, globalSeq, (write, frames) :: prepared => do
    let planned ← (planPreparedRun (rawHead write.expectedVersion) globalSeq
      write.target frames).mapError (atomicPlanErr write.target)
    let tx := planned.rows.foldl Partitions.stageEvent tx
    let tx := tx.setVersion write.target planned.newVersion
    stageRuns tx planned.endingGlobal prepared

/-- Stage runs and the position counter behind them.  The first target names a
corrupt counter. -/
def writeAtomicRuns (tx : Partitions) (firstTarget : StreamKey)
    (prepared : List (PlannedAppend × List Bytes)) :
    Except (AtomicAppendError FjallError) (GlobalSeq × Partitions) := do
  let startGlobal ← (tx.readGlobal firstTarget).mapError .store
  let (tx, globalSeq) ← stageRuns tx startGlobal prepared
  let tx := tx.setGlobal globalSeq
  let position ← okOr (Version.new globalSeq) (.store (.corruptMeta firstTarget))
  return (position, tx)

/-- Append runs to several streams, all of them or none. -/
def atomicAppendMany :
    List PlannedAppend → Locked Partitions (AtomicAppendError FjallError) (Option GlobalSeq)
  | [] => return none
  | first :: rest => do
    let writes := first :: rest
    Locked.ofResult ((validateDistinctTargets (writes.map PlannedAppend.target)).mapError
      AtomicAppendError.invalidRoute)
    Locked.ofResult ((validateAtomicRuns writes).mapError AtomicAppendError.invalidRun)
    Locked.ofResult (validateKeys writes)
    let prepared ← Locked.ofResult (prepareRuns writes)
    let tx ← get
    Locked.ofResult (validateAtomicWrites tx 0 writes)
    let (lastPosition, tx) ← Locked.ofResult (writeAtomicRuns tx first.target prepared)
    set tx
    return some lastPosition

/-- The store and the calls that write to it. -/
def machine (mode : AllIndex) : Machine Partitions Call (Answer FjallError) :=
  writeMachine (.new mode)
    (fun id expected envelopes => (append id expected envelopes).exec)
    (fun writes => (atomicAppendMany writes).exec)

/-- Read a stream from a version on. -/
def readStream (partitions : Partitions) (id : StreamKey)
    (start : Version) : Except FjallError (ScanCursor PersistedEnvelope) := do
  validateKey id maxStreamIdLen
  ScanCursor.openAt partitions.events (streamScan id) start

/-- Read the events of all streams behind a position, or from the beginning. -/
def readAll (partitions : Partitions) (after : Option GlobalSeq) :
    Except FjallError (ScanCursor (GlobalSeq × StreamKey × PersistedEnvelope)) := do
  rejectIf (partitions.mode = .disabled) .allIndexDisabled
  match after.elim (some Version.initial) Version.next with
  | none => return .openEmpty globalScan
  | some start => ScanCursor.openAt partitions.eventsGlobal globalScan start

end Mnesis.Fjall
