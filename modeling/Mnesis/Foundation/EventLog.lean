import Mathlib.Algebra.GroupWithZero.Nat
import Mathlib.Data.List.Basic

/-!
# Event logs

The events of any number of streams in the order in which they were stored.  The
versions of every stream are one, two, three and so on without a gap; the position
of an event is its place among all of them.

An append names the version it builds on.  It adds all its events or none, and
so does a list of appends to different streams.
-/

namespace Mnesis.Foundation

variable {Key Event : Type}

/-- A run of events that is to be added to a stream behind the named version. -/
structure Write (Key Event : Type) where
  target : Key
  expected : Nat
  events : List Event

/-- The entries of a run. -/
def Write.entries (write : Write Key Event) : List (Key × Event) :=
  write.events.map fun event => (write.target, event)

theorem Write.length_entries (write : Write Key Event) :
    write.entries.length = write.events.length :=
  List.length_map _

/-- What a store admits. -/
structure LogLimits (Key Event : Type) where
  admits : Key → Bool
  fits : Event → Bool
  capacity : Nat

variable [DecidableEq Key]

/-- The events of one stream. -/
def eventsOf (entries : List (Key × Event)) (key : Key) : List Event :=
  (entries.filter fun entry => entry.1 = key).map Prod.snd

/-- Events of streams in the order in which they were stored. -/
structure EventLog (Key Event : Type) [DecidableEq Key] (version : Event → Nat) where
  entries : List (Key × Event)
  gapless : ∀ key, (eventsOf entries key).map version = List.range' 1 (eventsOf entries key).length

@[simp] theorem eventsOf_append (entries more : List (Key × Event)) (key : Key) :
    eventsOf (entries ++ more) key = eventsOf entries key ++ eventsOf more key := by
  simp [eventsOf]

@[simp] theorem eventsOf_entries (write : Write Key Event) :
    eventsOf write.entries write.target = write.events := by
  simp [eventsOf, Write.entries, List.filter_map, Function.comp_def]

variable {write : Write Key Event}

theorem eventsOf_entries_of_ne (different : write.target ≠ key) :
    eventsOf write.entries key = [] := by
  simp [eventsOf, Write.entries, List.filter_map, Function.comp_def, different]

variable {writes : List (Write Key Event)}

/-- Runs add nothing to the streams that they do not name. -/
theorem eventsOf_runs_of_notMem (absent : key ∉ writes.map Write.target) :
    eventsOf (writes.flatMap Write.entries) key = [] := by
  induction writes with
  | nil => rfl
  | cons write writes rest =>
    rw [List.map_cons, List.mem_cons, not_or] at absent
    rw [List.flatMap_cons, eventsOf_append, eventsOf_entries_of_ne (Ne.symm absent.1),
      rest absent.2, List.append_nil]

/-- Each of several runs to different streams is what its stream gets. -/
theorem eventsOf_runs (distinct : (writes.map Write.target).Nodup) (present : write ∈ writes) :
    eventsOf (writes.flatMap Write.entries) write.target = write.events := by
  induction writes with
  | nil => cases present
  | cons first writes rest =>
    obtain ⟨fresh, distinct⟩ := List.nodup_cons.mp distinct
    rw [List.flatMap_cons, eventsOf_append]
    rcases List.mem_cons.mp present with same | present
    · subst same
      rw [eventsOf_entries, eventsOf_runs_of_notMem fresh, List.append_nil]
    · have different : first.target ≠ write.target := fun same =>
        fresh (same ▸ List.mem_map_of_mem present)
      rw [eventsOf_entries_of_ne different, List.nil_append, rest distinct present]

/-- The events of different streams are no more than the entries. -/
theorem sum_length_eventsOf_le {keys : List Key} (distinct : keys.Nodup)
    (entries : List (Key × Event)) :
    (keys.map fun key => (eventsOf entries key).length).sum ≤ entries.length := by
  induction keys generalizing entries with
  | nil => exact Nat.zero_le _
  | cons key keys rest =>
    obtain ⟨fresh, distinct⟩ := List.nodup_cons.mp distinct
    -- without the entries of the first stream, the others have the same events
    have others : ∀ other ∈ keys, eventsOf entries other =
        eventsOf (entries.filter fun entry => !decide (entry.1 = key)) other := by
      intro other present
      rw [eventsOf, eventsOf, List.filter_filter]
      congr 1
      apply List.filter_congr
      intro entry _
      by_cases same : entry.1 = other
      · simp [same, ne_of_mem_of_not_mem present fresh]
      · simp [same]
    have counted := rest distinct (entries.filter fun entry => !decide (entry.1 = key))
    have split := List.length_eq_length_filter_add (l := entries) fun entry =>
      decide (entry.1 = key)
    rw [List.map_cons, List.sum_cons, List.map_congr_left fun other present =>
      congrArg List.length (others other present), eventsOf, List.length_map]
    omega

/-- Among rows that are numbered one after the other, those below a bound are the
first ones. -/
theorem takeWhile_numbered {rows : List Event}
    (numbered : rows.map number = List.range' first rows.length) (bound : Nat) :
    rows.takeWhile (fun row => number row < bound) = rows.take (bound - first) := by
  induction rows generalizing first with
  | nil => simp
  | cons row rows rest =>
    rw [List.map_cons, List.length_cons, List.range'_succ, List.cons.injEq] at numbered
    obtain ⟨isFirst, numbered⟩ := numbered
    by_cases below : first < bound
    · have step : bound - first = (bound - (first + 1)) + 1 := by omega
      rw [List.takeWhile_cons_of_pos (by simp [isFirst, below]), rest numbered, step,
        List.take_succ_cons]
    · have zero : bound - first = 0 := by omega
      rw [List.takeWhile_cons_of_neg (by simp [isFirst, below]), zero, List.take_zero]

/-- Among rows that are numbered one after the other, those above a bound are the
last ones. -/
theorem filter_numbered {rows : List Event}
    (numbered : rows.map number = List.range' first rows.length) (bound : Nat) :
    rows.filter (fun row => bound < number row) = rows.drop (bound + 1 - first) := by
  induction rows generalizing first with
  | nil => simp
  | cons row rows rest =>
    rw [List.map_cons, List.length_cons, List.range'_succ, List.cons.injEq] at numbered
    obtain ⟨isFirst, numbered⟩ := numbered
    by_cases above : bound < first
    · have zero : bound + 1 - first = 0 := by omega
      have noneBehind : bound + 1 - (first + 1) = 0 := by omega
      rw [List.filter_cons_of_pos (by simp [isFirst, above]), rest numbered, zero, noneBehind,
        List.drop_zero, List.drop_zero]
    · have step : bound + 1 - first = bound + 1 - (first + 1) + 1 := by omega
      rw [List.filter_cons_of_neg (by simp [isFirst, above]), rest numbered, step,
        List.drop_succ_cons]

/-- A run of rows that are numbered one after the other is numbered so. -/
theorem numbered_of_prefix_drop {rows : List Event}
    (numbered : rows.map number = List.range' first rows.length) (isRun : run <+: rows.drop start) :
    run.map number = List.range' (first + start) run.length := by
  obtain ⟨rest, split⟩ := isRun
  have numberedRest : (run ++ rest).map number =
      List.range' (first + start) (run ++ rest).length := by
    rw [split, List.map_drop, numbered, List.drop_range', List.length_drop, Nat.mul_one]
  rw [List.map_append, List.length_append, ← List.range'_append_1] at numberedRest
  exact (List.append_inj numberedRest (by simp)).1

theorem mem_eventsOf {key : Key} : event ∈ eventsOf entries key ↔ (key, event) ∈ entries := by
  simp [eventsOf]

namespace EventLog

variable {version : Event → Nat} {limits : LogLimits Key Event}

/-- No events. -/
def empty (version : Event → Nat) : EventLog Key Event version where
  entries := []
  gapless _ := rfl

/-- The events of one stream. -/
def stream (log : EventLog Key Event version) (key : Key) : List Event :=
  eventsOf log.entries key

/-- How many events there are. -/
def count (log : EventLog Key Event version) : Nat := log.entries.length

theorem length_stream_le (log : EventLog Key Event version) (key : Key) :
    (log.stream key).length ≤ log.count := by
  rw [stream, eventsOf, List.length_map]
  exact List.length_filter_le _ _

variable {log : EventLog Key Event version}

/-- Behind more entries a stream still starts with the same events. -/
theorem stream_prefix {later : EventLog Key Event version}
    (more : log.entries <+: later.entries) (key : Key) :
    log.stream key <+: later.stream key :=
  (more.filter _).map _

/-- A log is determined by its entries. -/
theorem ext (same : log.entries = other.entries) :
    log = other := by
  cases log
  cases other
  cases same
  rfl

theorem numbered (log : EventLog Key Event version) (key : Key) :
    (log.stream key).map version = List.range' 1 (log.stream key).length :=
  log.gapless key

/-- The versions of a stream are its places. -/
theorem version_of_getElem? (present : (log.stream key)[index]? = some event) :
    version event = index + 1 := by
  have numbered := congrArg (·[index]?) (log.numbered key)
  obtain ⟨inside, _⟩ := List.getElem?_eq_some_iff.mp present
  simp only [List.getElem?_map] at numbered
  rw [present, Option.map_some, List.getElem?_range' inside] at numbered
  have := Option.some.inj numbered
  omega

/-- No event of a stream has a version beyond its length. -/
theorem version_le_length (present : event ∈ log.stream key) :
    version event ≤ (log.stream key).length := by
  obtain ⟨index, isEvent⟩ := List.mem_iff_getElem?.mp present
  obtain ⟨inside, _⟩ := List.getElem?_eq_some_iff.mp isEvent
  rw [version_of_getElem? isEvent]
  exact inside

/-- In the log, the events of a stream stand in the order of their versions. -/
theorem version_lt_of_lt {other : Nat} (firstAt : log.entries[place]? = some (key, first))
    (secondAt : log.entries[other]? = some (key, second)) (before : place < other) :
    version first < version second := by
  have sorted : ((log.entries.filter fun entry => entry.1 = key).map
      fun entry => version entry.2).Pairwise (· < ·) := by
    have numbered := log.numbered key
    rw [stream, eventsOf, List.map_map] at numbered
    exact numbered ▸ List.pairwise_lt_range' 1 Nat.one_pos
  rw [List.pairwise_map, List.pairwise_filter, List.pairwise_iff_getElem] at sorted
  obtain ⟨inside, firstIs⟩ := List.getElem?_eq_some_iff.mp firstAt
  obtain ⟨otherInside, secondIs⟩ := List.getElem?_eq_some_iff.mp secondAt
  have ordered := sorted place other inside otherInside before
  rw [firstIs, secondIs] at ordered
  exact ordered (decide_eq_true rfl) (decide_eq_true rfl)

theorem version_lt_iff {other : Nat} (firstAt : log.entries[place]? = some (key, first))
    (secondAt : log.entries[other]? = some (key, second)) :
    version first < version second ↔ place < other := by
  refine ⟨fun lower => ?_, version_lt_of_lt firstAt secondAt⟩
  rcases Nat.lt_trichotomy place other with before | same | behind
  · exact before
  · subst same
    cases firstAt.symm.trans secondAt
    exact absurd lower (Nat.lt_irrefl _)
  · exact absurd lower (Nat.lt_asymm (version_lt_of_lt secondAt firstAt behind))

/-- A run continues a stream: it builds on its last version, and its versions
follow one another. -/
def Continues (version : Event → Nat) (length : Nat) (write : Write Key Event) : Prop :=
  write.expected = length ∧ write.events.map version = List.range' (length + 1) write.events.length

instance (length : Nat) (write : Write Key Event) :
    Decidable (Continues version length write) :=
  inferInstanceAs (Decidable (_ ∧ _))

/-- The values of a run are admitted. -/
def Admitted (limits : LogLimits Key Event) (write : Write Key Event) : Prop :=
  limits.admits write.target = true ∧ ∀ event ∈ write.events, limits.fits event = true

instance (write : Write Key Event) : Decidable (Admitted limits write) :=
  inferInstanceAs (Decidable (_ ∧ _))

/-- Add a run. -/
def append (limits : LogLimits Key Event) (log : EventLog Key Event version)
    (write : Write Key Event) : Option (EventLog Key Event version) :=
  if accepted : Admitted limits write ∧
      Continues version (log.stream write.target).length write ∧
      log.count + write.events.length ≤ limits.capacity then
    some {
      entries := log.entries ++ write.entries
      gapless := by
        intro key
        obtain ⟨_, ⟨_, numbered⟩, _⟩ := accepted
        rw [eventsOf_append, List.map_append, log.gapless, List.length_append]
        by_cases same : write.target = key
        · subst same
          rw [eventsOf_entries, numbered, ← List.range'_append_1, Nat.add_comm 1]
          rfl
        · rw [eventsOf_entries_of_ne same, List.map_nil, List.append_nil, List.length_nil,
            Nat.add_zero] }
  else
    none

/-- Add runs to different streams, all of them or none. -/
def appendAll (limits : LogLimits Key Event) (log : EventLog Key Event version)
    (writes : List (Write Key Event)) : Option (EventLog Key Event version) :=
  if (writes.map Write.target).Nodup then writes.foldlM (append limits) log else none

variable {after : EventLog Key Event version}

/-- An append succeeds exactly when its run is admitted, continues its stream and
leaves room; it then adds the entries of the run. -/
theorem append_eq_some :
    append limits log write = some after ↔
      Admitted limits write ∧
      Continues version (log.stream write.target).length write ∧
      log.count + write.events.length ≤ limits.capacity ∧
      after.entries = log.entries ++ write.entries := by
  unfold append
  split
  next accepted =>
    obtain ⟨admitted, continues, room⟩ := accepted
    rw [Option.some_inj]
    constructor
    · rintro rfl
      exact ⟨admitted, continues, room, rfl⟩
    · rintro ⟨_, _, _, added⟩
      exact ext added.symm
  next refused =>
    constructor
    · intro impossible
      cases impossible
    · rintro ⟨admitted, continues, room, _⟩
      exact absurd ⟨admitted, continues, room⟩ refused

/-- A run that is admitted, continues its stream and leaves room can be added. -/
theorem exists_append (admitted : Admitted limits write)
    (continues : Continues version (log.stream write.target).length write)
    (room : log.count + write.events.length ≤ limits.capacity) :
    ∃ after, append limits log write = some after :=
  ⟨_, dif_pos ⟨admitted, continues, room⟩⟩

theorem count_of_entries (same : after.entries = log.entries ++ added) :
    after.count = log.count + added.length := by
  rw [count, same, List.length_append, count]

/-- A run is added at the end of its stream. -/
theorem stream_target (added : after.entries = log.entries ++ write.entries) :
    after.stream write.target = log.stream write.target ++ write.events := by
  rw [stream, added, eventsOf_append, eventsOf_entries, stream]

/-- A run leaves the other streams as they are. -/
theorem stream_of_ne
    (added : after.entries = log.entries ++ write.entries) (different : write.target ≠ key) :
    after.stream key = log.stream key := by
  rw [stream, added, eventsOf_append, eventsOf_entries_of_ne different, List.append_nil, stream]

section Runs

/-- Runs can be added together: each of them would be admitted alone, and all of
them leave room. -/
structure Acceptable (limits : LogLimits Key Event) (log : EventLog Key Event version)
    (writes : List (Write Key Event)) : Prop where
  admitted : ∀ write ∈ writes, Admitted limits write
  continues : ∀ write ∈ writes, Continues version (log.stream write.target).length write
  room : log.count + (writes.flatMap Write.entries).length ≤ limits.capacity

/-- Behind a run to another stream, the remaining runs are as acceptable as they
were together with it. -/
theorem acceptable_cons (distinct : ((write :: writes).map Write.target).Nodup)
    (appended : append limits log write = some middle) :
    Acceptable limits log (write :: writes) ↔ Acceptable limits middle writes := by
  obtain ⟨admitted, continues, _, added⟩ := append_eq_some.mp appended
  rw [List.map_cons, List.nodup_cons] at distinct
  have sameStream : ∀ other ∈ writes,
      middle.stream other.target = log.stream other.target := fun other present =>
    stream_of_ne added fun same => distinct.1 (same ▸ List.mem_map_of_mem present)
  have sameRoom : middle.count + (writes.flatMap Write.entries).length =
      log.count + ((write :: writes).flatMap Write.entries).length := by
    rw [count_of_entries added, List.flatMap_cons, List.length_append, Nat.add_assoc]
  constructor
  · rintro ⟨admittedAll, continuesAll, room⟩
    rw [List.forall_mem_cons] at admittedAll continuesAll
    refine ⟨admittedAll.2, fun other present => ?_, sameRoom ▸ room⟩
    rw [sameStream other present]
    exact continuesAll.2 other present
  · rintro ⟨admittedRest, continuesRest, room⟩
    refine ⟨List.forall_mem_cons.mpr ⟨admitted, admittedRest⟩,
      List.forall_mem_cons.mpr ⟨continues, fun other present => ?_⟩, sameRoom ▸ room⟩
    rw [← sameStream other present]
    exact continuesRest other present

/-- Runs to different streams that were added one after the other were
acceptable together. -/
theorem acceptable_of_foldlM (within : log.count ≤ limits.capacity)
    (distinct : (writes.map Write.target).Nodup)
    (appended : writes.foldlM (append limits) log = some after) :
    Acceptable limits log writes ∧ after.entries = log.entries ++ writes.flatMap Write.entries := by
  induction writes generalizing log with
  | nil =>
    cases appended
    exact ⟨⟨by simp, by simp, within⟩, (List.append_nil _).symm⟩
  | cons write writes rest =>
    rw [List.foldlM_cons, Option.bind_eq_bind, Option.bind_eq_some_iff] at appended
    obtain ⟨middle, appendedFirst, appended⟩ := appended
    obtain ⟨_, _, room, added⟩ := append_eq_some.mp appendedFirst
    rw [← Write.length_entries, ← count_of_entries added] at room
    obtain ⟨acceptable, addedRest⟩ := rest room (List.nodup_cons.mp distinct).2 appended
    refine ⟨(acceptable_cons distinct appendedFirst).mpr acceptable, ?_⟩
    rw [addedRest, added, List.flatMap_cons, List.append_assoc]

/-- Acceptable runs to different streams can be added one after the other. -/
theorem Acceptable.exists_foldlM (acceptable : Acceptable limits log writes)
    (distinct : (writes.map Write.target).Nodup) :
    ∃ after, writes.foldlM (append limits) log = some after := by
  induction writes generalizing log with
  | nil => exact ⟨log, rfl⟩
  | cons write writes rest =>
    have firstRoom : log.count + write.events.length ≤ limits.capacity := by
      have room := acceptable.room
      rw [List.flatMap_cons, List.length_append, Write.length_entries] at room
      omega
    obtain ⟨middle, appendedFirst⟩ :=
      exists_append (acceptable.admitted write (List.mem_cons_self ..))
        (acceptable.continues write (List.mem_cons_self ..)) firstRoom
    rw [List.foldlM_cons, appendedFirst]
    exact rest ((acceptable_cons distinct appendedFirst).mp acceptable)
      (List.nodup_cons.mp distinct).2

/-- Adding one run. -/
theorem foldlM_append_singleton (log : EventLog Key Event version) (write : Write Key Event) :
    [write].foldlM (append limits) log = append limits log write :=
  bind_pure _

end Runs

/-- What may be asked of a log. -/
inductive Call (Key Event : Type)
  | append (write : Write Key Event)
  | appendAll (writes : List (Write Key Event))

/-- The log that a call leaves, with the position of the last event it added. -/
def commit (limits : LogLimits Key Event) (log : EventLog Key Event version) :
    Call Key Event → Option (EventLog Key Event version × Option Nat)
  | .append write => (append limits log write).map fun after => (after, some after.count)
  | .appendAll [] => some (log, none)
  | .appendAll (write :: writes) =>
    (appendAll limits log (write :: writes)).map fun after => (after, some after.count)

/-- Answer a call; a refused call leaves the log as it is. -/
def answer (limits : LogLimits Key Event) (log : EventLog Key Event version)
    (call : Call Key Event) : Option (Option Nat) × EventLog Key Event version :=
  match commit limits log call with
  | some (after, position) => (some position, after)
  | none => (none, log)

/-- A refused call leaves the log as it is. -/
theorem answer_of_refused (refused : (log.answer limits call).1 = none) :
    (log.answer limits call).2 = log := by
  unfold answer at refused ⊢
  split at refused
  next => cases refused
  next => rfl

/-- Runs are added behind the entries of a log. -/
theorem prefix_of_foldlM (appended : writes.foldlM (append limits) log = some after) :
    log.entries <+: after.entries := by
  induction writes generalizing log with
  | nil =>
    cases appended
    exact List.prefix_refl _
  | cons write writes rest =>
    rw [List.foldlM_cons, Option.bind_eq_bind, Option.bind_eq_some_iff] at appended
    obtain ⟨middle, first, appended⟩ := appended
    apply List.IsPrefix.trans _ (rest appended)
    rw [(append_eq_some.mp first).2.2.2]
    exact List.prefix_append ..

/-- A call leaves the entries of a log at their places. -/
theorem prefix_answer (log : EventLog Key Event version) (call : Call Key Event) :
    log.entries <+: (log.answer limits call).2.entries := by
  unfold answer
  split
  next after position committed =>
    unfold commit at committed
    split at committed
    next write =>
      obtain ⟨middle, appended, built⟩ := Option.map_eq_some_iff.mp committed
      cases built
      rw [← foldlM_append_singleton] at appended
      exact prefix_of_foldlM appended
    next =>
      cases committed
      exact List.prefix_refl _
    next write writes =>
      obtain ⟨middle, appended, built⟩ := Option.map_eq_some_iff.mp committed
      cases built
      unfold appendAll at appended
      split at appended
      next => exact prefix_of_foldlM appended
      next => cases appended
  next => exact List.prefix_refl _

/-- Everything in a log is within the limits. -/
structure Bounded (limits : LogLimits Key Event) (log : EventLog Key Event version) : Prop where
  count_le : log.count ≤ limits.capacity
  admitted : ∀ entry ∈ log.entries, limits.admits entry.1 = true ∧ limits.fits entry.2 = true

theorem bounded_empty : Bounded limits (empty version) where
  count_le := Nat.zero_le _
  admitted := by simp [empty]

/-- Acceptable runs keep a log within the limits. -/
theorem Bounded.extend (bounded : Bounded limits log) (acceptable : Acceptable limits log writes)
    (added : after.entries = log.entries ++ writes.flatMap Write.entries) :
    Bounded limits after := by
  constructor
  · rw [count_of_entries added]
    exact acceptable.room
  · intro entry present
    rw [added, List.mem_append, List.mem_flatMap] at present
    rcases present with earlier | ⟨write, isWrite, present⟩
    · exact bounded.admitted entry earlier
    · obtain ⟨event, isEvent, rfl⟩ := List.mem_map.mp present
      obtain ⟨targetAdmitted, eventsFit⟩ := acceptable.admitted write isWrite
      exact ⟨targetAdmitted, eventsFit event isEvent⟩

/-- An append keeps a log within the limits. -/
theorem Bounded.append
    (bounded : Bounded limits log) (appended : EventLog.append limits log write = some after) :
    Bounded limits after := by
  rw [← foldlM_append_singleton] at appended
  have distinct : ([write].map Write.target).Nodup := List.pairwise_singleton _ _
  obtain ⟨acceptable, added⟩ := acceptable_of_foldlM bounded.count_le distinct appended
  exact bounded.extend acceptable added

/-- The runs of a call. -/
def Call.runs : Call Key Event → List (Write Key Event)
  | .append write => [write]
  | .appendAll writes => writes

/-- How many events a call may add. -/
def Call.size (call : Call Key Event) : Nat := (call.runs.flatMap Write.entries).length

theorem count_of_foldlM (appended : writes.foldlM (append limits) log = some after) :
    after.count = log.count + (writes.flatMap Write.entries).length := by
  induction writes generalizing log with
  | nil =>
    cases appended
    rfl
  | cons write writes rest =>
    rw [List.foldlM_cons, Option.bind_eq_bind, Option.bind_eq_some_iff] at appended
    obtain ⟨middle, first, appended⟩ := appended
    rw [rest appended, count_of_entries (append_eq_some.mp first).2.2.2, List.flatMap_cons,
      List.length_append, Nat.add_assoc]

theorem count_answer_le (log : EventLog Key Event version) (call : Call Key Event) :
    (log.answer limits call).2.count ≤ log.count + call.size := by
  unfold answer
  split
  next after position committed =>
    cases call with
    | append write =>
      obtain ⟨middle, appended, built⟩ := Option.map_eq_some_iff.mp committed
      cases built
      rw [← foldlM_append_singleton] at appended
      exact Nat.le_of_eq (count_of_foldlM appended)
    | appendAll writes =>
      cases writes with
      | nil =>
        cases committed
        exact Nat.le_add_right ..
      | cons write writes =>
        obtain ⟨middle, appended, built⟩ := Option.map_eq_some_iff.mp committed
        cases built
        unfold appendAll at appended
        split at appended
        next => exact Nat.le_of_eq (count_of_foldlM appended)
        next => cases appended
  next => exact Nat.le_add_right ..

section Alike

/-- Under two limits that admit the same runs and leave room for them, the same runs
are added. -/
theorem foldlM_alike (admitted : ∀ write ∈ writes, Admitted limits write ↔ Admitted other write)
    (room : log.count + (writes.flatMap Write.entries).length ≤
      min limits.capacity other.capacity) :
    writes.foldlM (append limits) log = writes.foldlM (append other) log := by
  induction writes generalizing log with
  | nil => rfl
  | cons write writes rest =>
    rw [List.forall_mem_cons] at admitted
    rw [List.flatMap_cons, List.length_append, Write.length_entries] at room
    have first : append limits log write = append other log write := by
      apply Option.ext
      intro after
      have fits : log.count + write.events.length ≤ limits.capacity := by omega
      have otherFits : log.count + write.events.length ≤ other.capacity := by omega
      rw [append_eq_some, append_eq_some, admitted.1]
      simp only [fits, otherFits]
    rw [List.foldlM_cons, List.foldlM_cons, first]
    cases added : append other log write with
    | none => rfl
    | some middle =>
      apply rest admitted.2
      rw [count_of_entries (append_eq_some.mp added).2.2.2, Write.length_entries]
      omega

theorem answer_alike (admitted : ∀ write ∈ call.runs, Admitted limits write ↔ Admitted other write)
    (room : log.count + call.size ≤ min limits.capacity other.capacity) :
    log.answer limits call = log.answer other call := by
  have same := foldlM_alike admitted room
  cases call with
  | append write =>
    rw [Call.runs, foldlM_append_singleton, foldlM_append_singleton] at same
    simp only [answer, commit, same]
  | appendAll writes =>
    cases writes with
    | nil => rfl
    | cons write writes =>
      rw [Call.runs] at same
      simp only [answer, commit, appendAll, same]

end Alike

end EventLog

end Mnesis.Foundation
