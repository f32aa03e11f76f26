import Mnesis.Postgres.Delivery
import Mnesis.Postgres.Streams
import Mnesis.Postgres.Walks

/-!
# What a listing yields

A transaction that completes after a snapshot was captured is not visible in it.  So
what a listing is about, the keys with an event that was committed at its opening, stays
the same, although keys may appear later between the numbers of those.
-/

namespace Mnesis.Postgres

open Foundation Kernel Store

variable {Session : Type} {db middle after : Database Session}

/-- What writers leave as it was when a snapshot was captured. -/
structure Frozen (snapshot : Snapshot) (db after : Database Session) : Prop where
  sound : after.Sound
  keys : db.keys <+: after.keys
  events : db.events <+: after.events
  hides : Hides after fun txid => snapshot.visible txid = false
  final : ∀ row ∈ after.events, snapshot.visible row.txid = true → row ∈ db.events

theorem Snapshot.Captures.frozen (captures : snapshot.Captures db) (sound : db.Sound) :
    Frozen snapshot db db where
  sound := sound
  keys := List.prefix_refl _
  events := List.prefix_refl _
  hides := ⟨captures.unassigned, captures.inProgress⟩
  final _ present _ := present

/-- What a snapshot shows does not change. -/
theorem Frozen.step [DecidableEq Session]
    (frozen : Frozen snapshot db middle) (step : Writes middle label after) :
    Frozen snapshot db after := by
  cases step with
  | session step =>
    refine ⟨frozen.sound.step step, frozen.keys.trans step.grows.keys,
      frozen.events.trans step.grows.events, frozen.hides.step step, ?_⟩
    intro row present isVisible
    rcases frozen.hides.committed frozen.sound step row present with old | hidden
    · exact frozen.final row old isVisible
    · cases isVisible.symm.trans hidden
  | elsewhere later =>
    exact ⟨frozen.sound.reserve later, frozen.keys, frozen.events, frozen.hides.reserve later,
      frozen.final⟩

theorem Snapshot.Captures.frozen_of_run [DecidableEq Session] (captures : snapshot.Captures db)
    (sound : db.Sound) (run : Run Writes db trace after) :
    Frozen snapshot db after :=
  run.invariant (captures.frozen sound) fun frozen => frozen.step

/-- The row of a page for a key. -/
def keyRow (limits : Limits) (key : KeyRow) : KeyPageRow := .of limits (keyBytes key) key

/-- The keys that are listed behind a number, in order. -/
def listedKeys (db : Database Session) (snapshot : Snapshot) (place : Option Nat) : List KeyRow :=
  (db.keys.filter (isListed db.events snapshot place)).insertionSort
    fun key other => key.number ≤ other.number

theorem mem_listedKeys :
    key ∈ listedKeys db snapshot place ↔ key ∈ db.keys ∧
      (∀ number, place = some number → number < key.number) ∧
      ∃ row ∈ db.events, row.streamId = key.number ∧ snapshot.visible row.txid = true := by
  simp only [listedKeys, List.mem_insertionSort, List.mem_filter, isListed, Bool.and_eq_true,
    Option.all_eq_true, List.any_eq_true, decide_eq_true_eq]

theorem listedKeys_increasing (sound : db.Sound) (place : Option Nat) :
    Increasing KeyRow.number (listedKeys db snapshot place) := by
  have distinct : ((db.keys.filter (isListed db.events snapshot place)).map KeyRow.number).Nodup :=
    sound.constraints.keysPkey.sublist (List.filter_sublist.map _)
  exact (Leading.of_prefix (List.prefix_refl _) distinct).increasing

/-- A page of keys holds the first ones, and one at least. -/
theorem exists_keyPage (sound : db.Sound) (limits : Limits) (snapshot : Snapshot)
    (place : Option Nat) :
    ∃ first, first <+: listedKeys db snapshot place ∧
      (first = [] → listedKeys db snapshot place = []) ∧
      keyPage db.keys db.events limits snapshot place = first.map (keyRow limits) := by
  obtain ⟨first, isPrefix, progress, kept⟩ := exists_withinBudget limits.rows.positive Prod.snd
    limits.bytes (fun key : KeyRow => (key.number, keyBytes key)) (listedKeys db snapshot place)
  refine ⟨first, isPrefix, progress, ?_⟩
  have sorted : ((db.keys.filter (isListed db.events snapshot place)).map
      fun key => (key.number, keyBytes key)).insertionSort
        (fun candidate other => candidate.1 ≤ other.1) =
      (listedKeys db snapshot place).map fun key => (key.number, keyBytes key) := by
    rw [listedKeys, List.map_insertionSort _ fun candidate other => candidate.1 ≤ other.1]
    exact fun _ _ _ _ => Iff.rfl
  have found : (first.map fun key => (key.number, keyBytes key)).flatMap (fun candidate =>
      (db.keys.filter fun key => key.number = candidate.1).map fun key => (candidate.2, key)) =
        first.map fun key => (keyBytes key, key) := by
    rw [List.flatMap_map, List.map_eq_flatMap]
    apply List.flatMap_congr
    intro key present
    rw [filter_eq_singleton sound.constraints.keysPkey
      (mem_listedKeys.mp (isPrefix.subset present)).1]
    rfl
  rw [← kept, List.flatMap_map] at found
  have ordered : (first.map fun key => (keyBytes key, key)).Pairwise
      fun item other => item.2.number ≤ other.2.number :=
    List.pairwise_map.mpr ((List.pairwise_insertionSort _ _).sublist isPrefix.sublist)
  simp only [keyPage]
  rw [sorted, found, ordered.insertionSort_eq, List.map_map]
  rfl

/-- A listing is about the same keys at every later moment. -/
theorem Frozen.listed_iff (frozen : Frozen snapshot db after) (sound : db.Sound) :
    (key ∈ after.keys ∧
        ∃ row ∈ after.events, row.streamId = key.number ∧ snapshot.visible row.txid = true) ↔
      key ∈ db.keys ∧
        ∃ row ∈ db.events, row.streamId = key.number ∧ snapshot.visible row.txid = true := by
  constructor
  · rintro ⟨present, row, committed, isStream, isVisible⟩
    have old := frozen.final row committed isVisible
    obtain ⟨other, isOther, sameNumber⟩ :=
      List.mem_map.mp (sound.constraints.eventsStreamIdFkey row old)
    have same : other = key := List.inj_on_of_nodup_map frozen.sound.constraints.keysPkey
      (frozen.keys.subset isOther) present (sameNumber.trans isStream)
    exact ⟨same ▸ isOther, row, old, isStream, isVisible⟩
  · rintro ⟨present, row, committed, isStream, isVisible⟩
    exact ⟨frozen.keys.subset present, row, frozen.events.subset committed, isStream, isVisible⟩

/-- Behind the last key the same keys are left. -/
theorem Frozen.listedKeys_behind (frozen : Frozen snapshot db after) (sound : db.Sound)
    (count : Nat) :
    listedKeys after snapshot
        (((listedKeys db snapshot none).take count).getLast?.map KeyRow.number) =
      (listedKeys db snapshot none).drop count := by
  have increasing : Increasing KeyRow.number (listedKeys db snapshot none) :=
    listedKeys_increasing sound none
  refine increasing_ext (listedKeys_increasing frozen.sound _)
    (increasing.sublist (List.drop_sublist _ _)) fun key => ?_
  rw [drop_eq_behind increasing, mem_behind, mem_listedKeys, mem_listedKeys]
  simp only [reduceCtorEq, false_implies, implies_true, true_and]
  rw [← frozen.listed_iff sound]
  constructor
  · rintro ⟨present, behind, visible⟩
    exact ⟨⟨present, visible⟩, behind⟩
  · rintro ⟨⟨present, visible⟩, behind⟩
    exact ⟨present, behind, visible⟩

theorem KeyScan.next_eq (limits : Limits) (scan : KeyScan) :
    scan.next limits =
      refillRows scan.rows (fetchList (.selectKeys limits scan.snapshot scan.after)) >>=
        popRow KeyPageRow.intoValue KeyRow.value fun key rest =>
          ⟨some key.number, rest, scan.snapshot⟩ := by
  unfold KeyScan.next
  congr 1
  funext rows
  cases rows <;> rfl

/-- How a listing takes its rows. -/
def listRowWise (limits : Limits) : RowWise (listKind limits) KeyRow where
  rows := KeyScan.rows
  fetch scan := fetchList (.selectKeys limits scan.snapshot scan.after)
  decode := KeyPageRow.intoValue
  item := KeyRow.value
  advance scan key rest := ⟨some key.number, rest, scan.snapshot⟩
  rows_advance _ _ _ := rfl
  next_eq scan := congrArg ExceptT.run (scan.next_eq limits)

/-- A listing that has yielded the first keys. -/
structure KeyScan.IsAt (db : Database Session) (snapshot : Snapshot) (count : Nat)
    (scan : KeyScan) : Prop where
  snapshot_eq : scan.snapshot = snapshot
  after_eq : scan.after = ((listedKeys db snapshot none).take count).getLast?.map KeyRow.number

theorem listRowWise_decode (limits : Limits) (key : KeyRow) :
    (listRowWise limits).decode (keyRow limits key) = checkedDecode limits keyBytes .ok key := by
  change (keyRow limits key).intoValue = _
  unfold keyRow KeyPageRow.of checkedDecode
  split
  next => rfl
  next => rfl

theorem listRowWise_entryItem (limits : Limits) :
    (listRowWise limits).entryItem (keyRow limits) =
      checkedDecode limits keyBytes fun key => .ok key.value := by
  funext key
  rw [RowWise.entryItem, listRowWise_decode]
  unfold checkedDecode
  split
  next => rfl
  next => rfl

/-- Pages of a listing hold the next keys. -/
theorem listRowWise_fetchesAt (limits : Limits) (sound : db.Sound)
    (frozen : Frozen snapshot db moment.db) (captured : Snapshot) :
    (listRowWise limits).FetchesAt (keyRow limits) (listedKeys db snapshot none)
      (KeyScan.IsAt db snapshot) moment.refusal (ListStatement.answerAt moment captured) where
  refused := by
    intro scan error refused
    obtain ⟨failure, failed, rfl⟩ := Option.map_eq_some_iff.mp refused
    have answered : ListStatement.answerAt moment captured
        (.selectKeys limits scan.snapshot scan.after) = .error failure := by
      unfold ListStatement.answerAt Moment.answer
      rw [failed]
      rfl
    exact ⟨_, Program.serve_await answered (), rfl⟩
  fetched := by
    intro scan count answered isAt
    obtain ⟨first, isPrefix, progress, isPage⟩ :=
      exists_keyPage frozen.sound limits scan.snapshot scan.after
    rw [isAt.snapshot_eq, isAt.after_eq, frozen.listedKeys_behind sound] at isPrefix progress
    have answered : ListStatement.answerAt moment captured
        (.selectKeys limits scan.snapshot scan.after) = .ok (first.map (keyRow limits)) := by
      unfold ListStatement.answerAt Moment.answer
      rw [Option.map_eq_none_iff.mp answered]
      exact congrArg Except.ok isPage
    exact ⟨_, first, Program.serve_await answered (), rfl, isPrefix, progress⟩

theorem listRowWise_advances (limits : Limits) :
    (listRowWise limits).Advances (keyRow limits) (listedKeys db snapshot none)
      (KeyScan.IsAt db snapshot) := by
  intro count scan key value rest isAt isNext decoded
  refine ⟨isAt.snapshot_eq, ?_⟩
  rw [listRowWise_decode, checkedDecode] at decoded
  split at decoded
  next =>
    cases decoded
    rw [List.take_add_one, isNext, Option.toList_some, List.getLast?_concat, Option.map_some]
    rfl
  next => cases decoded

/-- A listing yields its keys one behind the other. -/
theorem listStreamsWalk_exact (limits : Limits) (sound : db.Sound) (moments : List (Moment Session))
    (frozen : ∀ moment ∈ moments, Frozen snapshot db moment.db) :
    ∃ walk, listStreamsWalk limits snapshot ⟨db, none⟩ moments = .ok walk ∧
      Exact limits keyBytes (keyRow limits) (fun key => .ok key.value)
        (listedKeys db snapshot none) moments walk := by
  have started : KeyScan.IsAt db snapshot 0 ⟨none, [], snapshot⟩ := ⟨rfl, rfl⟩
  have yields := Walk.yields_foldl started rfl
    (fun moment present => listRowWise_fetchesAt limits sound (frozen moment present) snapshot)
    (listRowWise_advances limits)
  rw [listRowWise_entryItem] at yields
  exact ⟨_, rfl, exact_of_yields yields⟩

/-- The listed ids are those of the streams with events. -/
theorem mem_map_listedKeys (captures : snapshot.Captures db) {id : StreamKey} :
    id ∈ (listedKeys db snapshot none).map KeyRow.value ↔ db.stream id ≠ [] := by
  constructor
  · intro listed
    obtain ⟨key, isListed, rfl⟩ := List.mem_map.mp listed
    obtain ⟨present, _, row, committed, isStream, _⟩ := mem_listedKeys.mp isListed
    have inStream : row ∈ db.stream key.value := by
      refine List.mem_filter.mpr ⟨committed, decide_eq_true ?_⟩
      rw [isStream]
      exact present
    exact List.ne_nil_of_mem inStream
  · intro nonempty
    obtain ⟨row, present⟩ := List.exists_mem_of_ne_nil _ nonempty
    obtain ⟨committed, hasKey⟩ := List.mem_filter.mp present
    exact List.mem_map.mpr ⟨⟨row.streamId, id⟩, mem_listedKeys.mpr ⟨of_decide_eq_true hasKey,
      nofun, row, committed, rfl, captures.committed row committed⟩, rfl⟩

/-- What a listing of some ids has done after polls at some moments: it has listed the
first of them, with every poll one more, until it has listed all of them.  It fails with
a statement, or at the first id that is too large. -/
structure ListsIds (limits : Limits) (ids : List StreamKey) (moments : List (Moment Session))
    (walk : KeyWalk) : Prop where
  listed : walk.yielded <+: ids
  fits : ∀ id ∈ walk.yielded, 32 + id.length ≤ limits.bytes
  going : ∀ scan, walk.fate = .going scan → walk.yielded.length = moments.length ∧
    moments.length ≤ ids.length
  ended : walk.fate = .ended → walk.yielded = ids
  failed : ∀ error, walk.fate = .failed error →
    (∃ moment ∈ moments, ∃ failure, moment.failure = some failure ∧ error = .sqlx failure) ∨
      ∃ id, ids[walk.yielded.length]? = some id ∧ limits.bytes < 32 + id.length ∧
        error = .rowLimit (32 + id.length) limits.bytes

theorem listsIds_of_exact
    (exact : Exact limits keyBytes (keyRow limits) (fun key => .ok key.value) keys moments walk) :
    ListsIds limits (keys.map KeyRow.value) moments walk := by
  obtain ⟨fit, decoded⟩ := (List.forall₂_and_left _ _).mp exact.yielded
  have yielded : (keys.map KeyRow.value).take walk.yielded.length = walk.yielded := by
    have same : List.Forall₂ (fun key id => key.value = id) (keys.take walk.yielded.length)
        walk.yielded := decoded.imp fun _ _ decoded => Except.ok.inj decoded
    rw [← List.map_take, ← List.forall₂_eq_eq_eq]
    exact List.forall₂_map_left_iff.mpr same
  refine ⟨yielded ▸ List.take_prefix _ _, ?_, ?_, ?_, ?_⟩
  · rw [← yielded, ← List.map_take]
    exact List.forall_mem_map.mpr fit
  · rw [List.length_map]
    exact exact.going
  · intro ended
    rw [← yielded, (exact.ended ended).1, ← List.length_map KeyRow.value, List.take_length]
  · intro error failed
    refine (exact.failed error failed).imp_right ?_
    rintro ⟨key, isNext, ⟨large, isError⟩ | ⟨_, impossible⟩⟩
    · exact ⟨key.value, by rw [List.getElem?_map, isNext, Option.map_some], large, isError⟩
    · cases impossible

/-- The keys of the streams that have a committed event, in the order of their numbers. -/
structure Database.CommittedKeys (db : Database Session) (keys : List KeyRow) : Prop where
  stored : keys ⊆ db.keys
  ordered : Increasing KeyRow.number keys
  distinct : (keys.map KeyRow.value).Nodup
  committed : ∀ id, id ∈ keys.map KeyRow.value ↔ db.stream id ≠ []

theorem Snapshot.Captures.committedKeys (captures : snapshot.Captures db) (sound : db.Sound) :
    db.CommittedKeys (listedKeys db snapshot none) where
  stored _ present := (mem_listedKeys.mp present).1
  ordered := listedKeys_increasing sound none
  distinct := by
    have sorted : List.Perm (listedKeys db snapshot none)
        (db.keys.filter (isListed db.events snapshot none)) := List.perm_insertionSort _ _
    rw [(sorted.map KeyRow.value).nodup_iff]
    exact sound.constraints.keysValueKey.sublist (List.filter_sublist.map _)
  committed _ := mem_map_listedKeys captures

/-- A listing that is opened while others write lists the ids of the streams with a
committed event at its opening, each once and in the order of their key numbers,
whatever becomes visible later. -/
theorem listing_yields_streams_of_its_opening [DecidableEq Session] (sound : db.Sound)
    (captures : snapshot.Captures db) (limits : Limits) (moments : List (Moment Session))
    (later : ∀ moment ∈ moments, ∃ trace, Run Writes db trace moment.db) :
    ∃ walk keys, listStreamsWalk limits snapshot ⟨db, none⟩ moments = .ok walk ∧
      db.CommittedKeys keys ∧ ListsIds limits (keys.map KeyRow.value) moments walk := by
  have frozen (moment : Moment Session) (present : moment ∈ moments) :
      Frozen snapshot db moment.db :=
    (later moment present).elim fun _ run => captures.frozen_of_run sound run
  obtain ⟨walk, isWalk, exact⟩ := listStreamsWalk_exact limits sound moments frozen
  exact ⟨walk, _, isWalk, captures.committedKeys sound, listsIds_of_exact exact⟩

/-- A transaction in progress with the key of a new stream and its event. -/
def lateTransaction : Transaction := ⟨some 1, [⟨1, [1]⟩], [Reading.emptyEvent 2 1 1]⟩

/-- A stream whose key has the second number, while the first one is not committed. -/
def lateKey : Database Bool where
  nextTxid := 3
  keys := [⟨2, [2]⟩]
  events := [Reading.emptyEvent 1 2 2]
  active session := if session then some lateTransaction else none

theorem lateKey_sound : lateKey.Sound where
  assigned := by decide
  checked := List.forall_mem_singleton.mpr (by constructor <;> decide)
  constraints := ⟨by decide, by decide, by decide, by decide, by decide⟩
  active session tx active := by
    cases session with
    | false => cases active
    | true =>
      cases active
      refine ⟨?_, by decide, List.forall_mem_singleton.mpr (by constructor <;> decide), by decide⟩
      rintro _ ⟨⟩
      decide

theorem captures_lateKey : Snapshot.Captures ⟨1, 3, [1]⟩ lateKey where
  committed := by decide
  inProgress session tx txid active isTxid := by
    cases session with
    | false => cases active
    | true =>
      cases active
      cases isTxid
      decide
  unassigned txid enough := by
    have large : 3 ≤ txid := enough
    simp only [Snapshot.visible, Bool.or_eq_false_iff, Bool.and_eq_false_iff,
      decide_eq_false_iff_not]
    omega

/-- The first number becomes visible when the second one has been listed. -/
theorem late_key_is_not_listed :
    ∃ walk keys, listStreamsWalk singleRows ⟨1, 3, [1]⟩ ⟨lateKey, none⟩
        [⟨lateKey, none⟩, ⟨lateKey.commit true lateTransaction, none⟩] = .ok walk ∧
      lateKey.CommittedKeys keys ∧ ListsIds singleRows (keys.map KeyRow.value)
        [⟨lateKey, none⟩, ⟨lateKey.commit true lateTransaction, none⟩] walk := by
  have commit : Writes lateKey (some true) (lateKey.commit true lateTransaction) :=
    .session (.commit rfl ⟨by decide, by decide, by decide, by decide, by decide⟩)
  refine listing_yields_streams_of_its_opening lateKey_sound captures_lateKey singleRows _ ?_
  exact List.forall_mem_cons.mpr ⟨⟨[], .refl⟩, List.forall_mem_singleton.mpr ⟨_, .single commit⟩⟩

/-- Limits under which a key has room for one byte. -/
def narrowLimits : Limits := ⟨singleRows.rows, 33, by decide, by decide⟩

/-- A stream whose id has two bytes. -/
def wideKey : Database Bool where
  nextTxid := 2
  keys := [⟨1, [1, 2]⟩]
  events := [Reading.emptyEvent 1 1 1]
  active _ := none

/-- An id that is too large for the limits is not listed. -/
theorem wide_key_is_not_listed :
    wideKey.Sound ∧ Snapshot.Captures ⟨2, 2, []⟩ wideKey ∧ wideKey.stream [1, 2] ≠ [] ∧
      listStreamsWalk narrowLimits ⟨2, 2, []⟩ ⟨wideKey, none⟩ [⟨wideKey, none⟩] =
        .ok ⟨[[.oversized 34 33]], [], .failed (.rowLimit 34 33)⟩ := by
  refine ⟨⟨by decide, List.forall_mem_singleton.mpr (by constructor <;> decide),
    ⟨by decide, by decide, by decide, by decide, by decide⟩, nofun⟩,
    ⟨by decide, nofun, fun txid enough => ?_⟩, by decide, rfl⟩
  have large : 2 ≤ txid := enough
  simp only [Snapshot.visible, Bool.or_eq_false_iff, Bool.and_eq_false_iff,
      decide_eq_false_iff_not]
  omega

end Mnesis.Postgres
