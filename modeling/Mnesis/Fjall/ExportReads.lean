import Mnesis.Fjall.Export

/-!
# A cursor of a session goes through its snapshot

The snapshot of a session is not touched by later calls, and it is there until the
session expires.  A cursor of the session yields its items one by one, whatever the
batches are, and then ends; it fails when it expires, when the worker is lost, where a
row cannot be read, and where the sizes of a batch overflow.
-/

namespace Mnesis.Fjall

open Foundation Kernel Store Wire
open InMemory (ExportError)

variable {Scan Cursor Item : Type}

/-- How a kind of scans goes through the rows of a snapshot: which rows a cursor has,
and which ones remain behind a scan. -/
structure SessionScan.Resumes (kind : SessionScan Scan Cursor Item) (snapshot : Partitions)
    (has : Cursor → List (SizedRow FjallError Item) → Prop)
    (remaining : Scan → List (SizedRow FjallError Item) → Prop) : Prop where
  opened : ∀ {scan rows}, remaining scan rows →
    ∃ cursor, kind.openAt scan snapshot = .ok cursor ∧ has cursor rows
  ended : ∀ {cursor}, has cursor [] → (kind.nextRow cursor).1 = none
  row : ∀ {cursor row rows}, has cursor (row :: rows) →
    (kind.nextRow cursor).1 = some row ∧ has (kind.nextRow cursor).2 rows
  advanced : ∀ {scan item size rows after}, remaining scan ((.ok item, size) :: rows) →
    kind.advance item scan = (true, after) → remaining after rows
  exhausted : ∀ {scan item size rows after}, remaining scan ((.ok item, size) :: rows) →
    kind.advance item scan = (false, after) → rows = []

/-- A row of the storage as a row of a session. -/
def sessionRow (row : SizedRow FjallError Item) : SizedRow SessionError Item :=
  (row.1.mapError fun error => .store (.storage error), row.2)

theorem sessionRow_eq_ok :
    sessionRow row = (.ok item, size) ↔ row = (.ok item, size) := by
  rw [sessionRow, Prod.mk.injEq, mapError_eq_ok, Prod.ext_iff]

theorem map_sessionRow (items : List (Item × Nat)) (failure : Option FjallError) :
    (sizedRows items failure).map sessionRow =
      sizedRows items (failure.map fun error => .store (.storage error)) := by
  cases failure <;> simp [sizedRows, sessionRow, sizedItem, Except.mapError, Function.comp_def]

section Fetch

variable {kind : SessionScan Scan Cursor Item}
variable {has : Cursor → List (SizedRow FjallError Item) → Prop}
variable {remaining : Scan → List (SizedRow FjallError Item) → Prop}

/-- The rows ahead of a cursor are those that remain of its scan. -/
def InStep (has : Cursor → List (SizedRow FjallError Item) → Prop)
    (remaining : Scan → List (SizedRow FjallError Item) → Prop)
    (state : Cursor × Scan) (rows : List (SizedRow SessionError Item)) : Prop :=
  ∃ stored, rows = stored.map sessionRow ∧ has state.1 stored ∧ remaining state.2 stored

/-- The rows that remain of a scan. -/
def RowsRemain (config : BlockingConfig) (remaining : Scan → List (SizedRow FjallError Item) → Prop)
    (scan : Scan) (upcoming : List (SessionRow Item)) : Prop :=
  ∃ stored, remaining scan stored ∧
    upcoming = config.sessionLimits.delivered config.sessionLimits.fresh (stored.map sessionRow)

/-- A scan that is opened again goes on with the next rows. -/
theorem SessionScan.Resumes.follows (resumes : kind.Resumes snapshot has remaining) :
    kind.rows.Follows (InStep has remaining) fun _ => True where
  ended isAhead := by
    obtain ⟨stored, isRows, isHas, _⟩ := isAhead
    obtain rfl := List.map_eq_nil_iff.mp isRows.symm
    simp [SessionScan.rows, resumes.ended isHas]
  row isAhead := by
    obtain ⟨stored, isRows, isHas, _⟩ := isAhead
    obtain ⟨first, rest, rfl, rfl, rfl⟩ := List.map_eq_cons_iff.mp isRows.symm
    simp [SessionScan.rows, resumes.row isHas, sessionRow]
  asked _ := trivial
  advanced {_ item _ _ after} isAhead isAfter := by
    obtain ⟨stored, isRows, isHas, isRemaining⟩ := isAhead
    obtain ⟨first, rest, rfl, isFirst, rfl⟩ := List.map_eq_cons_iff.mp isRows.symm
    obtain rfl := sessionRow_eq_ok.mp isFirst
    simp only [SessionScan.rows, Prod.mk.injEq] at isAfter
    obtain ⟨isMore, rfl⟩ := isAfter
    exact ⟨rest, rfl, (resumes.row isHas).2, resumes.advanced isRemaining (Prod.ext isMore rfl)⟩
  exhausted {_ item _ _ after} isAhead isAfter := by
    obtain ⟨stored, isRows, _, isRemaining⟩ := isAhead
    obtain ⟨first, rest, rfl, isFirst, rfl⟩ := List.map_eq_cons_iff.mp isRows.symm
    obtain rfl := sessionRow_eq_ok.mp isFirst
    simp only [SessionScan.rows, Prod.mk.injEq] at isAfter
    obtain rfl := resumes.exhausted isRemaining (Prod.ext isAfter.1 rfl)
    exact ⟨rfl, trivial⟩

theorem SessionScan.Resumes.fetchSession (resumes : kind.Resumes snapshot has remaining)
    (remain : RowsRemain config remaining scan upcoming) :
    ∃ batch, Fjall.fetchSession kind config scan snapshot = .ok batch ∧
      Batch.Precedes (RowsRemain config remaining) batch upcoming ∧
      (batch.rows = [] → batch.scan = none) := by
  obtain ⟨stored, isRemaining, rfl⟩ := remain
  obtain ⟨cursor, isOpened, isHas⟩ := resumes.opened isRemaining
  have continues : ∀ {state : Cursor × Scan} {rows}, InStep has remaining state rows →
      RowsRemain config remaining state.2
        (config.sessionLimits.delivered config.sessionLimits.fresh rows) := by
    rintro state _ ⟨stored, rfl, _, isRemaining⟩
    exact ⟨stored, isRemaining, rfl⟩
  have isAhead : InStep has remaining (cursor, scan) (stored.map sessionRow) :=
    ⟨stored, rfl, isHas, isRemaining⟩
  refine ⟨_, ?_, resumes.follows.batch continues isAhead⟩
  rw [Fjall.fetchSession, isOpened]
  rfl

end Fetch

section Polls

variable {remains : Scan → List (SessionRow Item) → Prop} {explained : SessionError → Prop}
/-- A batch that was fetched has the next rows, or it says why it has none. -/
def Fetched (remains : Scan → List (SessionRow Item) → Prop) (explained : SessionError → Prop)
    (upcoming : List (SessionRow Item)) (batch : SessionBatch Scan Item) : Prop :=
  Batch.Precedes remains batch upcoming ∧ (batch.rows = [] → batch.scan = none) ∨
    ∃ error, batch = ⟨none, [.error error]⟩ ∧ explained error

/-- What a request brings. -/
def SessionRequest.Brings (remains : Scan → List (SessionRow Item) → Prop)
    (explained : SessionError → Prop)
    (upcoming : List (SessionRow Item)) : SessionRequest Scan Item → Prop
  | .reserving scan => remains scan upcoming
  | .queued scan => remains scan upcoming
  | .running scan => remains scan upcoming
  | .answered result => Fetched remains explained upcoming (SessionStream.settled result)

/-- Which rows a stream is going to yield. -/
structure SessionStream.Stands (remains : Scan → List (SessionRow Item) → Prop)
    (explained : SessionError → Prop) (upcoming : List (SessionRow Item))
    (stream : SessionStream Scan Item) : Prop where
  idle : stream.pending = none → Batch.Precedes remains stream.batch upcoming
  waiting : ∀ request, stream.pending = some request →
    SessionRequest.Brings remains explained upcoming request

/-- What a poll of a stream finds. -/
def Unfolded.Finds (remains : Scan → List (SessionRow Item) → Prop)
    (explained : SessionError → Prop)
    (upcoming : List (SessionRow Item)) : Unfolded Scan Item → Prop
  | .pending stream => stream.Stands remains explained upcoming
  | .ended => upcoming = []
  | .row (.ok item) stream => ∃ later, upcoming = .ok item :: later ∧
      stream.Stands remains explained later
  | .row (.error error) _ => (∃ later, upcoming = .error error :: later) ∨ explained error

theorem SessionStream.stands_waiting
    (brings : SessionRequest.Brings remains explained upcoming request)
    (batch : SessionBatch Scan Item) :
    (⟨batch, some request⟩ : SessionStream Scan Item).Stands remains explained upcoming where
  idle impossible := by cases impossible
  waiting _ isRequest := by
    cases isRequest
    exact brings

theorem finds_popFront (precedes : Batch.Precedes remains batch upcoming)
    (progress : batch.rows = [] → batch.scan = none) :
    (SessionStream.popFront batch).Finds remains explained upcoming := by
  obtain ⟨scan, rows⟩ := batch
  cases rows with
  | nil => exact precedes.exhausted (progress rfl)
  | cons row rows =>
    obtain ⟨later, rfl, behind⟩ := precedes.pop rfl
    cases row with
    | error error => exact .inl ⟨later, rfl⟩
    | ok item => exact ⟨later, rfl, fun _ => behind, nofun⟩

theorem finds_pollRequest (brings : SessionRequest.Brings remains explained upcoming request)
    (closed : reservation = .closed → explained (.store .workerQueueClosed)) :
    (SessionStream.pollRequest reservation request).Finds remains explained upcoming := by
  cases request with
  | reserving scan =>
    cases reservation with
    | waiting => exact SessionStream.stands_waiting brings _
    | granted =>
      have queued : SessionRequest.Brings remains explained upcoming (.queued scan) := brings
      exact SessionStream.stands_waiting queued _
    | closed => exact .inr (closed rfl)
  | queued scan => exact SessionStream.stands_waiting brings _
  | running scan => exact SessionStream.stands_waiting brings _
  | answered result =>
    rcases brings with ⟨precedes, progress⟩ | ⟨error, isBatch, isExplained⟩
    · exact finds_popFront precedes progress
    · change (SessionStream.popFront (SessionStream.settled result)).Finds _ _ _
      rw [isBatch]
      exact .inr isExplained

theorem SessionStream.Stands.pollNext {stream : SessionStream Scan Item}
    (stands : stream.Stands remains explained upcoming)
    (closed : reservation = .closed → explained (.store .workerQueueClosed)) :
    (stream.pollNext reservation).Finds remains explained upcoming := by
  obtain ⟨⟨scan, rows⟩, pending⟩ := stream
  cases pending with
  | some request => exact finds_pollRequest (stands.waiting request rfl) closed
  | none =>
    have precedes := stands.idle rfl
    cases rows with
    | cons row rows => exact finds_popFront precedes nofun
    | nil =>
      cases scan with
      | none => exact precedes.exhausted rfl
      | some scan =>
        have brings : SessionRequest.Brings remains explained upcoming (.reserving scan) :=
          precedes.remains_of_nil rfl rfl
        exact finds_pollRequest brings closed

theorem SessionStream.Stands.imp {stream : SessionStream Scan Item}
    (stands : stream.Stands remains explained upcoming)
    (later : ∀ error, explained error → explainedLater error) :
    stream.Stands remains explainedLater upcoming where
  idle := stands.idle
  waiting request isRequest := by
    have brings := stands.waiting request isRequest
    cases request with
    | answered result =>
      refine brings.imp_right ?_
      rintro ⟨error, isBatch, isExplained⟩
      exact ⟨error, isBatch, later error isExplained⟩
    | _ => exact brings

end Polls

namespace Views

/-- The snapshot of a session is there until the session expires, and no other session
gets its id. -/
structure Keeps (lease : Lease) (snapshot : Partitions) (now : Nat) (views : Views) : Prop where
  active : views.active[lease.id]? = some ⟨snapshot, lease.deadline⟩ ∨
    lease.deadline ≤ now ∧ views.active[lease.id]? = none
  fresh : ∀ next, views.nextId = some next → lease.id < next

variable {views after : Views}

theorem openView_eq_ok
    (opened : views.openView clockLimit lifetime now partitions = .ok (lease, after)) :
    views.nextId = some lease.id ∧
      after = ⟨views.active.insert lease.id ⟨partitions, lease.deadline⟩,
        checkedAdd lease.id 1⟩ := by
  obtain ⟨id, isId, opened⟩ := bind_eq_ok.mp opened
  obtain ⟨deadline, _, opened⟩ := bind_eq_ok.mp opened
  cases opened
  exact ⟨okOr_eq_ok.mp isId, rfl⟩

theorem lt_of_checkedAdd {id : UInt64} (isNext : checkedAdd id 1 = some next) : id < next := by
  have sum := checkedAdd_eq_some.mp isNext
  rw [UInt64.lt_iff_toNat_lt, sum]
  exact Nat.lt_succ_self _

theorem keeps_of_openView
    (opened : views.openView clockLimit lifetime now snapshot = .ok (lease, after)) :
    after.Keeps lease snapshot now := by
  obtain ⟨_, rfl⟩ := openView_eq_ok opened
  exact ⟨.inl (by simp), fun _ => lt_of_checkedAdd⟩

section

variable (keeps : views.Keeps lease snapshot now)
include keeps

theorem Keeps.elapse (time : Nat) : views.Keeps lease snapshot (now + time) where
  active := keeps.active.imp_right fun expired =>
    ⟨Nat.le_trans expired.1 (Nat.le_add_right _ _), expired.2⟩
  fresh := keeps.fresh

theorem Keeps.expire : (views.expire now).Keeps lease snapshot now where
  active := by
    rw [Views.expire, Std.ExtTreeMap.getElem?_filter, Option.pfilter_eq_filter]
    rcases keeps.active with active | ⟨expired, absent⟩
    · rw [active]
      by_cases expired : lease.deadline ≤ now
      · exact .inr ⟨expired, by simpa using expired⟩
      · exact .inl (by simpa using Nat.not_le.mp expired)
    · exact .inr ⟨expired, by rw [absent]; rfl⟩
  fresh := keeps.fresh

theorem Keeps.of_getElem? (same : after.active[lease.id]? = views.active[lease.id]?)
    (fresh : ∀ next, after.nextId = some next → lease.id < next) :
    after.Keeps lease snapshot now where
  active := by
    rw [same]
    exact keeps.active
  fresh := fresh

theorem Keeps.closeView {id : UInt64} (other : id ≠ lease.id) :
    (views.closeView id).Keeps lease snapshot now := by
  refine keeps.of_getElem? ?_ keeps.fresh
  rw [Views.closeView, Std.ExtTreeMap.getElem?_erase,
    if_neg fun same => other (Std.compare_eq_iff_eq.mp same)]

theorem Keeps.openView
    (opened : views.openView clockLimit lifetime now partitions = .ok (another, after)) :
    after.Keeps lease snapshot now := by
  obtain ⟨isNext, rfl⟩ := openView_eq_ok opened
  have later := keeps.fresh another.id isNext
  refine keeps.of_getElem? ?_ fun next isNext => UInt64.lt_trans later (lt_of_checkedAdd isNext)
  rw [Std.ExtTreeMap.getElem?_insert, if_neg]
  intro same
  rw [Std.compare_eq_iff_eq.mp same] at later
  exact UInt64.lt_irrefl _ later

theorem Keeps.get :
    lease.deadline ≤ now ∧ views.get now lease.id = .error .expired ∨
      now < lease.deadline ∧ views.get now lease.id = .ok snapshot := by
  by_cases expired : lease.deadline ≤ now
  · left
    rcases keeps.active with active | ⟨_, absent⟩
    · exact ⟨expired, by simp [Views.get, active, expired]⟩
    · exact ⟨expired, by simp [Views.get, absent]⟩
  · have active := keeps.active.resolve_right fun absent => expired absent.1
    exact .inr ⟨Nat.not_le.mp expired, by simp [Views.get, active, expired]⟩

end

end Views

variable {host : ExportHost}

theorem ExportHost.keeps_step {clockLimit : Nat} (keeps : host.views.Keeps lease snapshot host.now)
    (event : HostEvent) :
    (host.step clockLimit lease event).views.Keeps lease snapshot
        (host.step clockLimit lease event).now ∧
      host.now ≤ (host.step clockLimit lease event).now := by
  cases event with
  | commit call => exact ⟨keeps, Nat.le_refl _⟩
  | elapse time => exact ⟨keeps.elapse time, Nat.le_add_right _ _⟩
  | openView lifetime =>
    rw [ExportHost.step]
    split
    next opened => exact ⟨keeps.openView opened, Nat.le_refl _⟩
    next => exact ⟨keeps, Nat.le_refl _⟩
  | closeView id =>
    rw [ExportHost.step]
    split
    next => exact ⟨keeps, Nat.le_refl _⟩
    next other => exact ⟨keeps.closeView other, Nat.le_refl _⟩
  | expire => exact ⟨keeps.expire, Nat.le_refl _⟩

theorem ExportHost.keeps_run (keeps : host.views.Keeps lease snapshot host.now)
    (events : List HostEvent) :
    (host.run clockLimit lease events).views.Keeps lease snapshot
      (host.run clockLimit lease events).now := by
  induction events generalizing host with
  | nil => exact keeps
  | cons event events later => exact later (keeps_step keeps event).1

section Answers

variable {remains : Scan → List (SessionRow Item) → Prop} {explained : SessionError → Prop}
variable {expected : List (SessionRow Item)} {answers : List (Option (SessionRow Item))}

/-- What a cursor has answered: some of the items, perhaps a failure, and then nothing
any more.  Its stream, as long as there is one, is going to yield the rest. -/
structure Answered (remains : Scan → List (SessionRow Item) → Prop)
    (explained : SessionError → Prop) (expected : List (SessionRow Item))
    (inner : Option (SessionStream Scan Item)) (answers : List (Option (SessionRow Item)))
    (taken : List Item) (upcoming : List (SessionRow Item)) (failure : Option SessionError)
    (ended : Nat) : Prop where
  split : expected = taken.map .ok ++ upcoming
  given : answers = taken.map (fun item => some (.ok item)) ++
    failure.toList.map (fun error => some (.error error)) ++ List.replicate ended none
  going : ∀ stream, inner = some stream → failure = none ∧ ended = 0 ∧
    stream.Stands remains explained upcoming
  finished : inner = none → failure = none → upcoming = []
  failed : ∀ error, failure = some error →
    (∃ later, upcoming = .error error :: later) ∨ explained error

variable {inner : Option (SessionStream Scan Item)} {stream after : SessionStream Scan Item}
variable {taken : List Item} {upcoming : List (SessionRow Item)} {failure : Option SessionError}
theorem Answered.imp {explainedLater : SessionError → Prop}
    (answered : Answered remains explained expected inner answers taken upcoming failure ended)
    (later : ∀ error, explained error → explainedLater error) :
    Answered remains explainedLater expected inner answers taken upcoming failure ended where
  split := answered.split
  given := answered.given
  going stream isStream := by
    obtain ⟨noFailure, notEnded, stands⟩ := answered.going stream isStream
    exact ⟨noFailure, notEnded, stands.imp later⟩
  finished := answered.finished
  failed error isFailure := (answered.failed error isFailure).imp_right (later error)

theorem Answered.more
    (answered : Answered remains explained expected none answers taken upcoming failure ended) :
    Answered remains explained expected none (answers ++ [none]) taken upcoming failure
      (ended + 1) where
  split := answered.split
  given := by
    rw [answered.given, List.replicate_succ', List.append_assoc]
  going := nofun
  finished := answered.finished
  failed := answered.failed

section Going

variable (answered : Answered remains explained expected (some stream) answers taken upcoming
  failure ended)
include answered

theorem Answered.wait (stands : after.Stands remains explained upcoming) :
    Answered remains explained expected (some after) answers taken upcoming failure ended where
  split := answered.split
  given := answered.given
  going _ isAfter := by
    obtain ⟨noFailure, notEnded, _⟩ := answered.going stream rfl
    cases isAfter
    exact ⟨noFailure, notEnded, stands⟩
  finished := nofun
  failed := answered.failed

theorem Answered.item {item : Item}
    (isNext : upcoming = .ok item :: later) (stands : after.Stands remains explained later) :
    Answered remains explained expected (some after) (answers ++ [some (.ok item)])
      (taken ++ [item]) later none 0 where
  split := by simp [answered.split, isNext]
  given := by
    obtain ⟨rfl, rfl, _⟩ := answered.going stream rfl
    simp [answered.given]
  going _ isAfter := by
    cases isAfter
    exact ⟨rfl, rfl, stands⟩
  finished := nofun
  failed := nofun

theorem Answered.finish (isNext : upcoming = []) :
    Answered remains explained expected (none : Option (SessionStream Scan Item))
      (answers ++ [none]) taken upcoming none 1 where
  split := answered.split
  given := by
    obtain ⟨rfl, rfl, _⟩ := answered.going stream rfl
    simp [answered.given]
  going := nofun
  finished _ _ := isNext
  failed := nofun

theorem Answered.fail (failed : (∃ later, upcoming = .error error :: later) ∨ explained error) :
    Answered remains explained expected (none : Option (SessionStream Scan Item))
      (answers ++ [some (.error error)]) taken upcoming (some error) 0 where
  split := answered.split
  given := by
    obtain ⟨rfl, rfl, _⟩ := answered.going stream rfl
    simp [answered.given]
  going := nofun
  finished := nofun
  failed _ isError := by
    cases isError
    exact failed

end Going

end Answers

/-- The failure with which a cursor hears that the worker is lost. -/
def ExportEvent.Loses : ExportEvent → StoreError → Prop
  | .lose lost, error => error = lost
  | .poll .closed, error => error = .workerQueueClosed
  | _, _ => False

/-- Why a cursor may fail: its session has expired, or the worker was lost. -/
def Explained (lost : StoreError → Prop) (lease : Lease) (now : Nat)
    (error : SessionError) : Prop :=
  error = .expired ∧ lease.deadline ≤ now ∨ ∃ failure, error = .store failure ∧ lost failure

namespace ExportWorld

/-- What a cursor has answered, and that the snapshot of its session is there. -/
structure Sound (remains : Scan → List (SessionRow Item) → Prop) (lost : StoreError → Prop)
    (lease : Lease) (snapshot : Partitions) (expected : List (SessionRow Item))
    (world : ExportWorld Scan Item) : Prop where
  answered : ∃ taken upcoming failure ended,
    Answered remains (Explained lost lease world.host.now) expected world.cursor.inner
      world.answers taken upcoming failure ended
  deadline : world.cursor.deadline = lease.deadline
  keeps : world.host.views.Keeps lease snapshot world.host.now

variable {kind : SessionScan Scan Cursor Item} {config : BlockingConfig} {clockLimit : Nat}
variable {lease : Lease} {snapshot : Partitions} {lost : StoreError → Prop}
variable {has : Cursor → List (SizedRow FjallError Item) → Prop}
variable {remaining : Scan → List (SizedRow FjallError Item) → Prop}
variable {expected : List (SessionRow Item)} {world : ExportWorld Scan Item}

/-- A poll keeps a cursor sound. -/
theorem Sound.polled {remains : Scan → List (SessionRow Item) → Prop}
    (sound : world.Sound remains lost lease snapshot expected)
    (closed : reservation = .closed → lost .workerQueueClosed) :
    (world.polled reservation).Sound remains lost lease snapshot expected := by
  obtain ⟨host, ⟨inner, deadline⟩, answers⟩ := world
  obtain ⟨⟨taken, upcoming, failure, ended, answered⟩, isDeadline, keeps⟩ := sound
  obtain rfl : deadline = lease.deadline := isDeadline
  cases inner with
  | none => exact ⟨⟨_, _, _, _, answered.more⟩, rfl, keeps⟩
  | some stream =>
    have stands := (answered.going stream rfl).2.2
    have explained : reservation = .closed →
        Explained lost lease host.now (.store .workerQueueClosed) :=
      fun isClosed => .inr ⟨_, rfl, closed isClosed⟩
    have finds := stands.pollNext explained
    by_cases expired : lease.deadline ≤ host.now
    · have isPolled :
          FjallExportCursor.pollNext host.now reservation ⟨some stream, lease.deadline⟩ =
          (.ready (some (.error .expired)), ⟨none, lease.deadline⟩) := if_pos expired
      rw [ExportWorld.polled, isPolled]
      exact ⟨⟨_, _, _, _, answered.fail (.inr (.inl ⟨rfl, expired⟩))⟩, rfl, keeps⟩
    · simp only [ExportWorld.polled, FjallExportCursor.pollNext, if_neg expired]
      rcases found : stream.pollNext reservation with after | _ | ⟨error | item, after⟩
      all_goals rw [found] at finds
      · exact ⟨⟨_, _, _, _, answered.wait finds⟩, rfl, keeps⟩
      · exact ⟨⟨_, _, _, _, answered.finish finds⟩, rfl, keeps⟩
      · exact ⟨⟨_, _, _, _, answered.fail finds⟩, rfl, keeps⟩
      · obtain ⟨later, isNext, standsAfter⟩ := finds
        exact ⟨⟨_, _, _, _, answered.item isNext standsAfter⟩, rfl, keeps⟩

section

variable (resumes : kind.Resumes snapshot has remaining)
include resumes

theorem brings_work (keeps : host.views.Keeps lease snapshot host.now)
    (brings : SessionRequest.Brings (RowsRemain config remaining) (Explained lost lease host.now)
      upcoming request)
    (loses : ∀ error, event.Loses error → lost error) :
    SessionRequest.Brings (RowsRemain config remaining) (Explained lost lease host.now) upcoming
      (SessionRequest.work (lease.serve kind config host) event request) := by
  cases event with
  | take => cases request <;> exact brings
  | finish =>
    cases request with
    | running scan =>
      rcases keeps.get with ⟨expired, absent⟩ | ⟨_, present⟩
      · refine .inr ⟨.expired, ?_, .inl ⟨rfl, expired⟩⟩
        rw [Lease.serve, absent]
        rfl
      · obtain ⟨batch, isBatch, fetched⟩ := resumes.fetchSession brings
        refine .inl ?_
        rw [Lease.serve, present, ok_bind, isBatch]
        exact fetched
    | _ => exact brings
  | lose error =>
    have failed : Fetched (RowsRemain config remaining) (Explained lost lease host.now) upcoming
        (SessionStream.settled (.error error)) :=
      .inr ⟨.store error, rfl, .inr ⟨error, rfl, loses error rfl⟩⟩
    cases request with
    | queued scan => exact failed
    | running scan => exact failed
    | _ => exact brings
  | _ => cases request <;> exact brings

theorem Sound.worked
    (sound : world.Sound (RowsRemain config remaining) lost lease snapshot expected)
    (loses : ∀ error, event.Loses error → lost error) :
    (world.worked (lease.serve kind config world.host) event).Sound
      (RowsRemain config remaining) lost lease snapshot expected := by
  obtain ⟨host, ⟨inner, deadline⟩, answers⟩ := world
  obtain ⟨⟨taken, upcoming, failure, ended, answered⟩, isDeadline, keeps⟩ := sound
  refine ⟨⟨taken, upcoming, failure, ended, ?_⟩, isDeadline, keeps⟩
  cases inner with
  | none => exact answered
  | some stream =>
    obtain ⟨_, _, stands⟩ := answered.going stream rfl
    refine answered.wait ⟨fun idle => ?_, fun request isRequest => ?_⟩
    · exact stands.idle (Option.map_eq_none_iff.mp idle)
    · obtain ⟨before, isBefore, rfl⟩ := Option.map_eq_some_iff.mp isRequest
      exact brings_work resumes keeps (stands.waiting before isBefore) loses

theorem Sound.step (sound : world.Sound (RowsRemain config remaining) lost lease snapshot expected)
    (loses : ∀ error, event.Loses error → lost error) :
    (world.step kind config clockLimit lease event).Sound (RowsRemain config remaining) lost lease
      snapshot expected := by
  cases event with
  | host event =>
    obtain ⟨keeps, later⟩ := ExportHost.keeps_step sound.keeps event
    obtain ⟨taken, upcoming, failure, ended, answered⟩ := sound.answered
    refine ⟨⟨taken, upcoming, failure, ended, answered.imp fun error => ?_⟩, sound.deadline, keeps⟩
    exact Or.imp_left fun expired => ⟨expired.1, Nat.le_trans expired.2 later⟩
  | poll reservation =>
    refine sound.polled fun isClosed => loses _ ?_
    subst isClosed
    exact rfl
  | take => exact sound.worked resumes loses
  | finish => exact sound.worked resumes loses
  | lose error => exact sound.worked resumes loses

theorem Sound.run (sound : world.Sound (RowsRemain config remaining) lost lease snapshot expected)
    {events : List ExportEvent}
    (loses : ∀ event ∈ events, ∀ error, event.Loses error → lost error) :
    (world.run kind config clockLimit lease events).Sound (RowsRemain config remaining) lost lease
      snapshot expected := by
  induction events generalizing world with
  | nil => exact sound
  | cons event events later =>
    obtain ⟨losesNow, losesLater⟩ := List.forall_mem_cons.mp loses
    exact later (sound.step resumes losesNow) losesLater

end

theorem length_answers_le_step (world : ExportWorld Scan Item) (event : ExportEvent) :
    world.answers.length ≤ (world.step kind config clockLimit lease event).answers.length := by
  cases event with
  | poll reservation =>
    simp only [ExportWorld.step, ExportWorld.polled]
    split <;> simp
  | _ => exact Nat.le_refl _

theorem length_answers_le_run (world : ExportWorld Scan Item) (events : List ExportEvent) :
    world.answers.length ≤ (world.run kind config clockLimit lease events).answers.length := by
  induction events generalizing world with
  | nil => exact Nat.le_refl _
  | cons event events later =>
    exact Nat.le_trans (length_answers_le_step world event) (later _)

theorem length_polled (isStream : world.cursor.inner = some stream)
    (ready : ∀ after, stream.pollNext reservation ≠ .pending after) :
    (world.polled reservation).answers.length = world.answers.length + 1 := by
  simp only [ExportWorld.polled, FjallExportCursor.pollNext, isStream]
  by_cases expired : world.cursor.deadline ≤ world.host.now
  · simp only [if_pos expired, List.length_append, List.length_singleton]
  · simp only [if_neg expired]
    rcases found : stream.pollNext reservation with after | _ | ⟨error | item, after⟩
    · exact absurd found (ready after)
    all_goals simp

theorem popFront_ne_pending (batch : SessionBatch Scan Item) (after : SessionStream Scan Item) :
    SessionStream.popFront batch ≠ .pending after := by
  rw [SessionStream.popFront]
  split <;> nofun

/-- The events by which the worker answers a cursor. -/
def round : List ExportEvent := [.poll .granted, .take, .finish, .poll .granted]

theorem length_answers_lt_served (isStream : world.cursor.inner = some ⟨batch, some request⟩)
    (atWorker : ∃ scan, request = .queued scan ∨ request = .running scan) :
    world.answers.length < (world.run kind config clockLimit lease
      [.take, .finish, .poll .granted]).answers.length := by
  obtain ⟨host, ⟨_, deadline⟩, answers⟩ := world
  subst isStream
  have answered : ∀ result, (ExportWorld.polled
      ⟨host, ⟨some ⟨batch, some (.answered result)⟩, deadline⟩, answers⟩ .granted).answers.length =
        answers.length + 1 :=
    fun result => length_polled rfl (popFront_ne_pending (SessionStream.settled result))
  obtain ⟨scan, rfl | rfl⟩ := atWorker
  · exact Nat.lt_of_lt_of_eq (Nat.lt_succ_self _) (answered _).symm
  · exact Nat.lt_of_lt_of_eq (Nat.lt_succ_self _) (answered _).symm

/-- Every round of polls and moves yields an answer. -/
theorem length_answers_lt_round (world : ExportWorld Scan Item) :
    world.answers.length < (world.run kind config clockLimit lease round).answers.length := by
  have atOnce : (world.polled .granted).answers.length = world.answers.length + 1 →
      world.answers.length < (world.run kind config clockLimit lease round).answers.length := by
    intro isAnswered
    refine Nat.lt_of_lt_of_le ?_ (length_answers_le_run _ [.take, .finish, .poll .granted])
    exact Nat.lt_of_lt_of_eq (Nat.lt_succ_self _) isAnswered.symm
  have served : ∀ {request : SessionRequest Scan Item},
      (world.polled .granted).cursor.inner = some ⟨⟨none, []⟩, some request⟩ →
      (∃ scan, request = .queued scan ∨ request = .running scan) →
      world.answers.length < (world.run kind config clockLimit lease round).answers.length := by
    intro request isStream atWorker
    refine Nat.lt_of_le_of_lt ?_ (length_answers_lt_served isStream atWorker)
    exact @length_answers_le_step _ _ _ kind config clockLimit lease world (.poll .granted)
  obtain ⟨host, ⟨inner, deadline⟩, answers⟩ := world
  cases inner with
  | none => exact atOnce (List.length_append ..)
  | some stream =>
    by_cases expired : deadline ≤ host.now
    · refine atOnce ?_
      simp [ExportWorld.polled, FjallExportCursor.pollNext, expired]
    · have waits : ∀ {after}, stream.pollNext .granted = .pending after →
          (ExportWorld.polled ⟨host, ⟨some stream, deadline⟩, answers⟩
            .granted).cursor.inner = some after := by
        intro after isPending
        simp [ExportWorld.polled, FjallExportCursor.pollNext, expired, isPending]
      obtain ⟨⟨scan, rows⟩, pending⟩ := stream
      cases pending with
      | some request =>
        cases request with
        | reserving scan => exact served (waits rfl) ⟨scan, .inl rfl⟩
        | queued scan => exact served (waits rfl) ⟨scan, .inl rfl⟩
        | running scan => exact served (waits rfl) ⟨scan, .inr rfl⟩
        | answered result =>
          exact atOnce (length_polled rfl (popFront_ne_pending (SessionStream.settled result)))
      | none =>
        cases rows with
        | cons row rows =>
          exact atOnce (length_polled rfl (popFront_ne_pending ⟨scan, row :: rows⟩))
        | nil =>
          cases scan with
          | none => exact atOnce (length_polled rfl nofun)
          | some scan => exact served (waits rfl) ⟨scan, .inl rfl⟩

/-- What a cursor over some items, behind which perhaps a row cannot be read, has answered
after some events. -/
structure Exports (config : BlockingConfig) (lease : Lease) (events : List ExportEvent)
    (items : List (Item × Nat)) (fault : Option IoError) (world : ExportWorld Scan Item) :
    Prop where
  /-- It has yielded the items in their order, and it has ended behind all of them or
  behind a failure. -/
  answers : ∃ count failure ended,
    world.answers = ((items.map Prod.fst).take count).map (fun item => some (.ok item)) ++
      failure.toList.map (fun error => some (.error error)) ++ List.replicate ended none ∧
    (failure = none → ended ≠ 0 → items.length ≤ count ∧ fault = none) ∧
    -- it fails when it expires, when the worker is lost, when the sizes of the rows of one
    -- batch do not fit into a word, and behind the items with the row that cannot be read
    ∀ error, failure = some error →
      error = .expired ∧ lease.deadline ≤ world.host.now ∨
      (∃ failure, error = .store failure ∧ ∃ event ∈ events, event.Loses failure) ∨
      error = .store (.storage .scanLengthOverflow) ∧
        ¬ config.sessionLimits.Fits config.sessionLimits.fresh
          (items.map (@sizedItem SessionError Item)) ∨
      ∃ unread, fault = some unread ∧ error = .store (.storage (.io unread)) ∧
        items.length ≤ count
  /-- It answers once more when it is polled and served. -/
  progress : ∀ {Cursor : Type} (kind : SessionScan Scan Cursor Item) (clockLimit : Nat),
    world.answers.length < (world.run kind config clockLimit lease round).answers.length

/-- A new cursor of a session yields the items that remain of its scan. -/
theorem exports_of_cursor (resumes : kind.Resumes snapshot has remaining)
    (keeps : host.views.Keeps lease snapshot host.now)
    (isRemaining : remaining scan (sizedRows items (fault.map .io)))
    {cursor : FjallExportCursor Scan Item}
    (isCursor : lease.cursor time admission scan = .ok cursor) (events : List ExportEvent) :
    ((ExportWorld.mk host cursor []).run kind config clockLimit lease events).Exports config lease
      events items fault := by
  obtain ⟨_, _, isCursor⟩ := bind_eq_ok.mp isCursor
  obtain ⟨_, _, isCursor⟩ := bind_eq_ok.mp isCursor
  cases isCursor
  have started : Sound (RowsRemain config remaining)
      (fun error => ∃ event ∈ events, event.Loses error) lease snapshot
      (config.sessionLimits.delivered config.sessionLimits.fresh
        ((sizedRows items (fault.map .io)).map sessionRow))
      ⟨host, ⟨some ⟨⟨some scan, []⟩, none⟩, lease.deadline⟩, []⟩ := by
    refine ⟨⟨[], _, none, 0, rfl, rfl, ?_, nofun, nofun⟩, rfl, keeps⟩
    rintro _ ⟨⟩
    refine ⟨rfl, rfl, fun _ => Batch.precedes_scan ⟨_, isRemaining, rfl⟩, nofun⟩
  have sound := @Sound.run _ _ _ _ _ clockLimit _ _ _ _ _ _ _ resumes started events
    fun event present error loses => ⟨event, present, loses⟩
  obtain ⟨taken, upcoming, failure, ended, answered⟩ := sound.answered
  have split := answered.split
  rw [map_sessionRow] at split
  obtain ⟨isPrefix, all, stopped⟩ := BatchLimits.items_of_delivered split
  refine ⟨⟨taken.length, failure, ended, ?_, fun noFailure isEnded => ?_, fun error failed => ?_⟩,
    fun kind clockLimit => length_answers_lt_round _⟩
  · rw [← List.prefix_iff_eq_take.mp isPrefix]
    exact answered.given
  · -- without a stream and without a failure all items have been yielded
    have gone : (ExportWorld.run kind config clockLimit lease ⟨host,
        ⟨some ⟨⟨some scan, []⟩, none⟩, lease.deadline⟩, []⟩ events).cursor.inner = none := by
      by_contra going
      obtain ⟨stream, isStream⟩ := Option.ne_none_iff_exists'.mp going
      exact isEnded (answered.going stream isStream).2.1
    obtain ⟨rfl, noFault⟩ := all (answered.finished gone noFailure)
    rw [List.length_map]
    refine ⟨Nat.le_refl _, ?_⟩
    simpa using noFault
  · rcases answered.failed error failed with ⟨later, isNext⟩ | expired | loses
    · refine .inr (.inr ((stopped error later isNext).imp_right ?_))
      rintro ⟨isFault, rfl⟩
      rw [Option.map_map, Option.map_eq_some_iff] at isFault
      obtain ⟨unread, isUnread, rfl⟩ := isFault
      exact ⟨unread, isUnread, rfl, by rw [List.length_map]⟩
    · exact .inl expired
    · exact .inr (.inl loses)

end ExportWorld

end Mnesis.Fjall
