import Mnesis.Postgres.Scans
import Mnesis.Postgres.Walks

/-!
# What scans of events yield

No row is committed any more below the cutoff of a scan of all streams, and appends add
rows behind those of their streams.  So what a scan is about, the events below its
cutoff or up to the last version at its opening, stays the same.
-/

namespace Mnesis.Postgres

open Foundation Kernel Store

variable {Session : Type} {db after : Database Session}

/-- What a row yields. -/
def PageRow.item (history : History) (buffered : PageRow) : Except PostgresError AllItem := do
  let row ← buffered.intoValue
  row.item history

theorem Scan.next_eq (limits : Limits) (history : History) (scan : Scan) :
    scan.next limits history =
      refillRows scan.rows
        (fetch (.selectPage limits scan.ceiling (scan.after.map PgAllPos.bound))) >>=
        popRow (PageRow.item history) id fun item rest => ⟨some item.1, rest, scan.ceiling⟩ := by
  unfold Scan.next
  congr 1
  funext rows
  cases rows with
  | nil => rfl
  | cons buffered rows => cases buffered <;> rfl

/-- How a scan of all streams takes its rows. -/
def allRowWise (limits : Limits) (history : History) :
    RowWise (allKind limits history) AllItem where
  rows := Scan.rows
  fetch scan := fetch (.selectPage limits scan.ceiling (scan.after.map PgAllPos.bound))
  decode := PageRow.item history
  item := id
  advance scan item rest := ⟨some item.1, rest, scan.ceiling⟩
  rows_advance _ _ _ := rfl
  next_eq scan := congrArg ExceptT.run (scan.next_eq limits history)

theorem allRowWise_decode (limits : Limits) (history : History) (pair : EventRow × KeyRow) :
    (allRowWise limits history).decode (pageRow limits pair) =
      checkedDecode limits rowBytes
        (fun pair => AllEventRow.item history ⟨pair.2.value, pair.1⟩) pair := by
  change (pageRow limits pair).item history = _
  unfold pageRow PageRow.of PageRow.item checkedDecode rowBytes
  split
  next => rfl
  next => rfl

theorem allRowWise_entryItem (limits : Limits) (history : History) :
    (allRowWise limits history).entryItem (pageRow limits) =
      checkedDecode limits rowBytes fun pair =>
        AllEventRow.item history ⟨pair.2.value, pair.1⟩ := by
  funext pair
  rw [← allRowWise_decode]
  exact congrFun Except.map_id _

section Pages

variable {history : History}

/-- The events behind a position and below a cutoff, in order. -/
abbrev allEvents (db : Database Session) (ceiling : Nat) (start : Option PgAllPos) :
    List (EventRow × KeyRow) :=
  selectionBy EventRow.position (selects ceiling (start.map PgAllPos.bound)) db

/-- The position behind which a scan is that has yielded the first events. -/
def allAfter (db : Database Session) (history : History) (ceiling : Nat) (start : Option PgAllPos)
    (count : Nat) : Option PgAllPos :=
  (((allEvents db ceiling start).take count).getLast?.map fun pair => pair.1.at history).or start

/-- A scan that has yielded the first events. -/
structure Scan.IsAt (db : Database Session) (history : History) (ceiling : Nat)
    (start : Option PgAllPos) (count : Nat) (scan : Scan) : Prop where
  ceiling_eq : scan.ceiling = ceiling
  after_eq : scan.after = allAfter db history ceiling start count

theorem selects_nodup (sound : db.Sound) (ceiling : Nat) (bound : Option Bound) :
    ((db.events.filter (selects ceiling bound)).map EventRow.position).Nodup :=
  sound.constraints.position_nodup.sublist (List.filter_sublist.map _)

/-- What is behind a selected row is selected and larger. -/
theorem selects_at_iff (checked : last.Checked) (selected : selects ceiling bound last = true)
    (row : EventRow) :
    selects ceiling (some (last.at history).bound) row = true ↔
      selects ceiling bound row = true ∧ last.position < row.position := by
  simp only [selects, Bool.and_eq_true, decide_eq_true_eq, Option.all_some,
    Option.all_eq_true] at selected ⊢
  rw [EventRow.admits_bound_at checked]
  constructor
  · rintro ⟨below, before⟩
    exact ⟨⟨below, fun bound isBound => Bound.admits_mono (selected.2 bound isBound) before⟩,
      before⟩
  · rintro ⟨⟨below, _⟩, before⟩
    exact ⟨below, before⟩

/-- At every later moment the same events are left behind those that were yielded. -/
theorem Evolves.allEvents_behind (evolves : Evolves db after) (sound : db.Sound)
    (afterSound : after.Sound) (settled : Settled db ceiling) (count : Nat) :
    selectionBy EventRow.position
        (selects ceiling ((allAfter db history ceiling start count).map PgAllPos.bound)) after =
      (allEvents db ceiling start).drop count := by
  have same : allEvents after ceiling start = allEvents db ceiling start := by
    apply selectionBy_of_grown afterSound sound.constraints.eventsStreamIdFkey evolves.keys
      evolves.events
    intro row present meets
    simp only [selects, Bool.and_eq_true, decide_eq_true_eq] at meets
    exact evolves.final settled row present meets.1
  unfold allAfter
  rw [← same]
  refine selectionBy_behind afterSound (selects_nodup afterSound ceiling _) count ?_
  intro row _
  cases isLast : ((allEvents after ceiling start).take count).getLast? with
  | none => simp
  | some last =>
    have present := List.mem_of_mem_take (List.mem_of_getLast? isLast)
    obtain ⟨isJoined, selected⟩ := mem_selectionBy.mp present
    have checked := afterSound.checked last.1 (mem_joined.mp isJoined).1
    simpa using selects_at_iff checked selected row

/-- Pages of all streams hold the next events. -/
theorem allRowWise_fetchesAt (limits : Limits) (history : History) (sound : db.Sound)
    (settled : Settled db ceiling) (start : Option PgAllPos) (evolves : Evolves db moment.db)
    (momentSound : moment.db.Sound) :
    (allRowWise limits history).FetchesAt (pageRow limits) (allEvents db ceiling start)
      (Scan.IsAt db history ceiling start) moment.refusal
      (ReadStatement.answerAt moment ceiling) where
  refused := by
    intro scan error refused
    obtain ⟨failure, failed, rfl⟩ := Option.map_eq_some_iff.mp refused
    have answered : ReadStatement.answerAt moment ceiling
        (.selectPage limits scan.ceiling (scan.after.map PgAllPos.bound)) = .error failure := by
      unfold ReadStatement.answerAt Moment.answer
      rw [failed]
      rfl
    exact ⟨_, Program.serve_await answered (), rfl⟩
  fetched := by
    intro scan count answered isAt
    have agree (pair : EventRow × KeyRow) : (Candidate.of pair).position = pair.1.position := rfl
    obtain ⟨pairs, isPrefix, progress, isPage⟩ := exists_pageBy momentSound agree
      (selects scan.ceiling (scan.after.map PgAllPos.bound)) limits
    rw [isAt.ceiling_eq, isAt.after_eq,
      evolves.allEvents_behind sound momentSound settled] at isPrefix progress
    have answered : ReadStatement.answerAt moment ceiling
        (.selectPage limits scan.ceiling (scan.after.map PgAllPos.bound)) =
          .ok (pairs.map (pageRow limits)) := by
      unfold ReadStatement.answerAt Moment.answer
      rw [Option.map_eq_none_iff.mp answered]
      exact congrArg Except.ok isPage
    exact ⟨_, pairs, Program.serve_await answered (), rfl, isPrefix, progress⟩

theorem allRowWise_advances (limits : Limits) (start : Option PgAllPos) :
    (allRowWise limits history).Advances (pageRow limits) (allEvents db ceiling start)
      (Scan.IsAt db history ceiling start) := by
  intro count scan pair item rest isAt isNext decoded
  refine ⟨isAt.ceiling_eq, ?_⟩
  rw [allRowWise_decode, checkedDecode] at decoded
  split at decoded
  next =>
    unfold allAfter
    rw [List.take_add_one, isNext, Option.toList_some, List.getLast?_concat]
    exact congrArg some (item_eq_ok decoded).1
  next => cases decoded

/-- A scan of all streams yields the events below its cutoff. -/
theorem allWalk_exact (limits : Limits) (history : History) (sound : db.Sound)
    (settled : Settled db ceiling) (start : Option PgAllPos) (moments : List (Moment Session))
    (evolves : ∀ moment ∈ moments, Evolves db moment.db ∧ moment.db.Sound) :
    Exact limits rowBytes (pageRow limits)
      (fun pair => AllEventRow.item history ⟨pair.2.value, pair.1⟩)
      (allEvents db ceiling start) moments
      (allWalk limits history ⟨start, [], ceiling⟩ moments) := by
  have started : Scan.IsAt db history ceiling start 0 ⟨start, [], ceiling⟩ := ⟨rfl, rfl⟩
  have yields := Walk.yields_foldl started rfl
    (fun moment present => allRowWise_fetchesAt limits history sound settled start
      (evolves moment present).1 (evolves moment present).2) (allRowWise_advances limits start)
  rw [allRowWise_entryItem] at yields
  exact exact_of_yields yields

/-- The bound of a position admits the rows behind it. -/
theorem PgAllPos.admits_bound_iff {position : PgAllPos} (checked : row.Checked)
    (same : position.history = history) :
    position.bound.admits row = true ↔ position.Before (row.at history) := by
  subst same
  have small := checked.globalSeq_lt
  unfold PgAllPos.bound PgAllPos.Before
  by_cases fits : position.seq < 2 ^ 63
  · rw [narrow_of_lt fits, Bound.admits, decide_eq_true_eq, EventRow.position,
      Prod.Lex.toLex_lt_toLex]
    simp [EventRow.at]
  · have large : narrow (2 ^ 63) position.seq = none := if_neg fits
    rw [large, Bound.admits, decide_eq_true_eq]
    simp only [EventRow.at, List.lt_irrefl, true_and, false_or]
    omega

/-- A scan of all streams is about the rows below its cutoff and behind its start. -/
theorem lists_allEvents (sound : db.Sound)
    (same : ∀ position, start = some position → position.history = history) :
    Lists db (fun row => row.txid < ceiling ∧
        ∀ position, start = some position → position.Before (row.at history))
      EventRow.Before (allEvents db ceiling start) := by
  refine lists_selectionBy sound (selects_nodup sound ceiling _) ?_
    fun row other => EventRow.position_lt_iff.mp
  intro row present
  have checked := sound.checked row present
  cases start with
  | none => simp [selects]
  | some position => simp [selects, PgAllPos.admits_bound_iff checked (same position rfl)]

/-- A scan of all streams, opened behind a position of the same history. -/
theorem readAllWalk_exact (limits : Limits) (sound : db.Sound) (settled : Settled db ceiling)
    (same : ∀ position, start = some position → position.history = history)
    (moments : List (Moment Session))
    (evolves : ∀ moment ∈ moments, Evolves db moment.db ∧ moment.db.Sound) :
    ∃ walk, readAllWalk limits history start ceiling ⟨db, none⟩ moments = .ok walk ∧
      Exact limits rowBytes (pageRow limits)
        (fun pair => AllEventRow.item history ⟨pair.2.value, pair.1⟩)
        (allEvents db ceiling start) moments walk := by
  refine ⟨_, ?_, allWalk_exact limits history sound settled start moments evolves⟩
  have passed : (start.forM fun position => history.check position.history) = .ok () := by
    cases start with
    | none => rfl
    | some position => simp [Option.forM, History.check, same position rfl]
  unfold readAllWalk readAll
  rw [passed]
  rfl

end Pages

theorem StreamScan.next_eq (limits : Limits) (label : StreamKey) (scan : StreamScan) :
    scan.next limits label =
      refillRows scan.rows
        (fetchStream (.selectPage limits scan.key scan.floor scan.ceiling scan.after)) >>=
        popRow (PageRow.envelope label) id fun event rest =>
          { scan with after := some event.version.toNat, rows := rest } := by
  have popped : scan.pop label = popRow (PageRow.envelope label) id fun event rest =>
      { scan with after := some event.version.toNat, rows := rest } := by
    funext rows
    cases rows <;> rfl
  unfold StreamScan.next
  rw [popped]
  rfl

/-- How a scan of a stream takes its rows. -/
def streamRowWise (limits : Limits) (label : StreamKey) :
    RowWise (streamKind limits label) PersistedEnvelope where
  rows := StreamScan.rows
  fetch scan := fetchStream (.selectPage limits scan.key scan.floor scan.ceiling scan.after)
  decode := PageRow.envelope label
  item := id
  advance scan event rest := { scan with after := some event.version.toNat, rows := rest }
  rows_advance _ _ _ := rfl
  next_eq scan := congrArg ExceptT.run (scan.next_eq limits label)

section Stream

theorem version_of_rowToEnvelope (isEvent : rowToEnvelope row label = .ok event) :
    event.version.toNat = row.version := by
  obtain ⟨version, isVersion, isEvent⟩ := bind_eq_ok.mp isEvent
  obtain ⟨schema, _, isEvent⟩ := bind_eq_ok.mp isEvent
  obtain ⟨eventType, _, isEvent⟩ := bind_eq_ok.mp isEvent
  obtain ⟨payload, _, isEvent⟩ := bind_eq_ok.mp isEvent
  obtain ⟨metadata, _, isEvent⟩ := bind_eq_ok.mp isEvent
  obtain ⟨frame, _, isEvent⟩ := bind_eq_ok.mp isEvent
  obtain ⟨number, isNumber, isNew⟩ := Option.bind_eq_some_iff.mp (okOr_eq_ok.mp isVersion)
  obtain ⟨fits, rfl⟩ := narrow_eq_some.mp isNumber
  have same := (PersistedEnvelope.tryNew_eq_ok (mapError_eq_ok.mp isEvent)).1
  have isValue := congrArg UInt64.toNat (Version.new_eq_some.mp isNew)
  rw [UInt64.toNat_ofNat_of_lt' fits] at isValue
  rw [same]
  exact isValue

/-- Only rows behind those of their streams were added. -/
structure Appended (db after : Database Session) : Prop where
  sound : after.Sound
  keys : db.keys <+: after.keys
  events : db.events <+: after.events
  above : ∀ row ∈ after.events, row ∉ db.events →
    ∀ other ∈ db.events, other.streamId = row.streamId → other.version < row.version

/-- The events of a stream between two versions, in order. -/
abbrev streamEvents (db : Database Session) (key lower upper : Nat) : List (EventRow × KeyRow) :=
  selectionBy EventRow.version (inStream key lower upper none) db

/-- A scan that has yielded the first events of a stream. -/
structure StreamScan.IsAt (db : Database Session) (key lower upper : Nat) (count : Nat)
    (scan : StreamScan) : Prop where
  key_eq : scan.key = key
  floor_eq : scan.floor = lower
  ceiling_eq : scan.ceiling = upper
  after_eq : scan.after =
    ((streamEvents db key lower upper).take count).getLast?.map fun pair => pair.1.version

/-- A version is stored once in its stream. -/
theorem inStream_nodup (sound : db.Sound) (key lower upper : Nat) (place : Option Nat) :
    ((db.events.filter (inStream key lower upper place)).map EventRow.version).Nodup := by
  have distinct : ((db.events.filter (inStream key lower upper place)).map EventRow.place).Nodup :=
    sound.constraints.eventsStreamIdVersionKey.sublist (List.filter_sublist.map _)
  refine (List.nodup_map_iff_inj_on (List.Nodup.of_map _ distinct)).mpr ?_
  intro row present other otherPresent same
  refine List.inj_on_of_nodup_map distinct present otherPresent ?_
  have inKey := (List.mem_filter.mp present).2
  have otherInKey := (List.mem_filter.mp otherPresent).2
  simp only [inStream, Bool.and_eq_true, decide_eq_true_eq] at inKey otherInKey
  exact Prod.ext (inKey.1.1.1.trans otherInKey.1.1.1.symm) same

/-- Behind the events that a scan has yielded lie the others, also later. -/
theorem Appended.streamEvents_behind (appended : Appended db after) (sound : db.Sound)
    (reached : ∃ row ∈ db.events, row.streamId = key ∧ row.version = upper) (count : Nat) :
    selectionBy EventRow.version (inStream key lower upper
        (((streamEvents db key lower upper).take count).getLast?.map fun pair => pair.1.version))
      after = (streamEvents db key lower upper).drop count := by
  obtain ⟨head, present, isKey, isHead⟩ := reached
  have same : selectionBy EventRow.version (inStream key lower upper none) after =
      streamEvents db key lower upper := by
    apply selectionBy_of_grown appended.sound sound.constraints.eventsStreamIdFkey appended.keys
      appended.events
    intro row isRow meets
    simp only [inStream, Bool.and_eq_true, decide_eq_true_eq] at meets
    by_contra added
    have above := appended.above row isRow added head present (isKey.trans meets.1.1.1.symm)
    omega
  rw [← same]
  refine selectionBy_behind appended.sound (inStream_nodup appended.sound _ _ _ none) count ?_
  intro row _
  simp only [inStream, Bool.and_eq_true, decide_eq_true_eq, Option.all_eq_true, Option.all_none,
    and_true, Option.map_eq_some_iff]
  refine and_congr_right fun _ => ?_
  constructor
  · intro all last isLast
    exact all last.1.version ⟨last, isLast, rfl⟩
  · rintro all _ ⟨last, isLast, rfl⟩
    exact all last isLast

theorem streamRowWise_decode (limits : Limits) (label : StreamKey) (pair : EventRow × KeyRow) :
    (streamRowWise limits label).decode (pageRow limits pair) =
      checkedDecode limits rowBytes (fun pair => rowToEnvelope pair.1 label) pair := by
  change (pageRow limits pair).envelope label = _
  unfold pageRow PageRow.of PageRow.envelope checkedDecode rowBytes
  split
  next => rfl
  next => rfl

theorem streamRowWise_entryItem (limits : Limits) (label : StreamKey) :
    (streamRowWise limits label).entryItem (pageRow limits) =
      checkedDecode limits rowBytes fun pair => rowToEnvelope pair.1 label := by
  funext pair
  rw [← streamRowWise_decode]
  exact congrFun Except.map_id _

/-- Pages of a stream hold the next events. -/
theorem streamRowWise_fetchesAt (limits : Limits) (label : StreamKey) (sound : db.Sound)
    (appended : Appended db moment.db) (lower : Nat)
    (reached : ∃ row ∈ db.events, row.streamId = key ∧ row.version = upper) :
    (streamRowWise limits label).FetchesAt (pageRow limits) (streamEvents db key lower upper)
      (StreamScan.IsAt db key lower upper) moment.refusal (StreamStatement.answerAt moment) where
  refused := by
    intro scan error refused
    obtain ⟨failure, failed, rfl⟩ := Option.map_eq_some_iff.mp refused
    have answered : StreamStatement.answerAt moment
        (.selectPage limits scan.key scan.floor scan.ceiling scan.after) = .error failure := by
      unfold StreamStatement.answerAt Moment.answer
      rw [failed]
      rfl
    exact ⟨_, Program.serve_await answered (), rfl⟩
  fetched := by
    intro scan count answered isAt
    have agree (pair : EventRow × KeyRow) : (Candidate.of pair).version = pair.1.version := rfl
    obtain ⟨pairs, isPrefix, progress, isPage⟩ := exists_pageBy appended.sound agree
      (inStream scan.key scan.floor scan.ceiling scan.after) limits
    rw [isAt.key_eq, isAt.floor_eq, isAt.ceiling_eq, isAt.after_eq,
      appended.streamEvents_behind sound reached] at isPrefix progress
    have answered : StreamStatement.answerAt moment
        (.selectPage limits scan.key scan.floor scan.ceiling scan.after) =
          .ok (pairs.map (pageRow limits)) := by
      unfold StreamStatement.answerAt Moment.answer
      rw [Option.map_eq_none_iff.mp answered]
      exact congrArg Except.ok isPage
    exact ⟨_, pairs, Program.serve_await answered (), rfl, isPrefix, progress⟩

theorem streamRowWise_advances (limits : Limits) (label : StreamKey) (key lower upper : Nat) :
    (streamRowWise limits label).Advances (pageRow limits) (streamEvents db key lower upper)
      (StreamScan.IsAt db key lower upper) := by
  intro count scan pair event rest isAt isNext decoded
  refine ⟨isAt.key_eq, isAt.floor_eq, isAt.ceiling_eq, ?_⟩
  rw [streamRowWise_decode, checkedDecode] at decoded
  split at decoded
  next =>
    rw [List.take_add_one, isNext, Option.toList_some, List.getLast?_concat, Option.map_some]
    exact congrArg some (version_of_rowToEnvelope decoded)
  next => cases decoded

/-- A scan of a stream yields the events up to the version at which it was opened. -/
theorem streamWalk_exact (limits : Limits) (label : StreamKey) (sound : db.Sound) (lower : Nat)
    (reached : ∃ row ∈ db.events, row.streamId = key ∧ row.version = upper)
    (moments : List (Moment Session)) (appended : ∀ moment ∈ moments, Appended db moment.db) :
    Exact limits rowBytes (pageRow limits) (fun pair => rowToEnvelope pair.1 label)
      (streamEvents db key lower upper) moments
      (streamWalk limits label ⟨key, none, [], lower, upper⟩ moments) := by
  have started : StreamScan.IsAt db key lower upper 0 ⟨key, none, [], lower, upper⟩ :=
    ⟨rfl, rfl, rfl, rfl⟩
  have yields := Walk.yields_foldl started rfl
    (fun moment present => streamRowWise_fetchesAt limits label sound (appended moment present)
      lower reached) (streamRowWise_advances limits label key lower upper)
  rw [streamRowWise_entryItem] at yields
  exact exact_of_yields yields

variable {id : StreamKey}

/-- A scan of a stream is about the rows from its start on. -/
theorem lists_streamEvents (sound : db.Sound)
    (isHead : headOf db.keys db.events id = some (number, some upper)) (lower : Nat) :
    Lists db (fun row => ⟨row.streamId, id⟩ ∈ db.keys ∧ lower ≤ row.version)
      (fun row other => row.version < other.version) (streamEvents db number lower upper) := by
  obtain ⟨key, found, isPair⟩ := Option.map_eq_some_iff.mp isHead
  obtain ⟨isNumber, isUpper⟩ := Prod.mk.inj isPair
  obtain ⟨present, isValue⟩ := find_value_eq_some found
  refine lists_selectionBy sound (inStream_nodup sound number lower upper none) ?_
    fun _ _ before => before
  intro row committed
  have unique : ⟨row.streamId, id⟩ ∈ db.keys ↔ row.streamId = number := by
    constructor
    · intro also
      have same := List.inj_on_of_nodup_map sound.constraints.keysValueKey also present isValue.symm
      exact (congrArg KeyRow.number same).trans isNumber
    · intro same
      rw [same, ← isNumber, ← isValue]
      exact present
  have below (same : row.streamId = number) : row.version ≤ upper := by
    apply (List.max?_eq_some_iff.mp isUpper).2
    refine List.mem_map_of_mem (List.mem_filter.mpr ⟨committed, ?_⟩)
    rw [same, isNumber]
    exact decide_eq_true rfl
  simp only [inStream, Bool.and_eq_true, decide_eq_true_eq, Option.all_none, and_true, unique]
  constructor
  · rintro ⟨⟨same, enough⟩, _⟩
    exact ⟨same, enough⟩
  · rintro ⟨same, enough⟩
    exact ⟨⟨same, enough⟩, below same⟩

theorem lists_nil (sound : db.Sound) (noHead : (headOf db.keys db.events id).bind Prod.snd = none)
    (lower : Nat) :
    Lists db (fun row => ⟨row.streamId, id⟩ ∈ db.keys ∧ lower ≤ row.version)
      (fun row other => row.version < other.version) [] where
  ordered := .nil
  mem row key := by
    refine iff_of_false List.not_mem_nil ?_
    rintro ⟨⟨committed, _⟩, hasKey, _⟩
    unfold headOf at noHead
    cases found : db.keys.find? fun key => key.value = id with
    | none => exact List.find?_eq_none.mp found _ hasKey (decide_eq_true rfl)
    | some other =>
      obtain ⟨present, isValue⟩ := find_value_eq_some found
      have same := List.inj_on_of_nodup_map sound.constraints.keysValueKey hasKey present
        isValue.symm
      rw [found] at noHead
      have empty := List.map_eq_nil_iff.mp (List.max?_eq_none_iff.mp noHead)
      refine List.filter_eq_nil_iff.mp empty row committed ?_
      rw [← same]
      exact decide_eq_true rfl

/-- A scan is opened with the head of its stream. -/
theorem serve_readStream (id : StreamKey) (start : Version) (db : Database Session) :
    ((readStream id start).run.serve (StreamStatement.answerAt ⟨db, none⟩) ()).2 =
      .ok ((headOf db.keys db.events id).bind fun head =>
        head.2.map fun upper => ⟨head.1, none, [], start.toNat, upper⟩) := by
  have answered : StreamStatement.answerAt ⟨db, none⟩ (.readHead id) =
      .ok (headOf db.keys db.events id) := rfl
  unfold readStream
  generalize headOf db.keys db.events id = head at answered ⊢
  rcases head with _ | ⟨number, _ | upper⟩
  all_goals exact (congrArg Prod.snd (Program.serve_await answered ())).trans rfl

/-- A scan of a stream. -/
theorem readStreamWalk_exact (limits : Limits) (id : StreamKey) (start : Version) (sound : db.Sound)
    (moments : List (Moment Session)) (appended : ∀ moment ∈ moments, Appended db moment.db) :
    ∃ events walk, readStreamWalk limits id start ⟨db, none⟩ moments = .ok walk ∧
      Lists db (fun row => ⟨row.streamId, id⟩ ∈ db.keys ∧ start.toNat ≤ row.version)
        (fun row other => row.version < other.version) events ∧
      Exact limits rowBytes (pageRow limits) (fun pair => rowToEnvelope pair.1 id) events moments
        walk := by
  unfold readStreamWalk
  rw [serve_readStream]
  cases isHead : (headOf db.keys db.events id).bind Prod.snd with
  | none =>
    refine ⟨[], .empty, ?_, lists_nil sound isHead start.toNat, exact_empty⟩
    generalize headOf db.keys db.events id = head at isHead ⊢
    rcases head with _ | ⟨number, _ | upper⟩
    · rfl
    · rfl
    · cases isHead
  | some upper =>
    obtain ⟨⟨number, _⟩, isHead, rfl⟩ := Option.bind_eq_some_iff.mp isHead
    have reached : ∃ row ∈ db.events, row.streamId = number ∧ row.version = upper := by
      obtain ⟨key, _, isPair⟩ := Option.map_eq_some_iff.mp isHead
      obtain ⟨isNumber, isUpper⟩ := Prod.mk.inj isPair
      obtain ⟨row, present, isVersion⟩ := List.mem_map.mp (List.max?_mem isUpper)
      obtain ⟨committed, isStream⟩ := List.mem_filter.mp present
      exact ⟨row, committed, (of_decide_eq_true isStream).trans isNumber, isVersion⟩
    refine ⟨_, _, ?_, lists_streamEvents sound isHead start.toNat,
      streamWalk_exact limits id sound start.toNat reached moments appended⟩
    rw [isHead]
    rfl

end Stream

end Mnesis.Postgres
