import Mnesis.Postgres.Writers
import Mnesis.Store.Contract

/-!
# Streams

Every row that sessions commit is that of an event of a call, under the key of the stream
that the call names, whatever rows are stored when they begin.  If none are, the committed
events of each stream have the versions one, two, three and so on at every moment, and
their positions increase with their versions.
-/

namespace Mnesis.Postgres

open Foundation Foundation.Program Kernel Store Database

variable {Session : Type}

/-- The committed events of a stream. -/
def Database.stream (db : Database Session) (id : StreamKey) : List EventRow :=
  db.events.filter fun row => ⟨row.streamId, id⟩ ∈ db.keys

theorem Database.Sound.stream_eq {db : Database Session} (sound : db.Sound) {id : StreamKey}
    (present : ⟨number, id⟩ ∈ db.keys) :
    db.stream id = numbering.rowsOf db.events number := by
  apply List.filter_congr
  intro row _
  rw [decide_eq_decide]
  constructor
  · intro also
    have same := List.inj_on_of_nodup_map sound.constraints.keysValueKey also present rfl
    exact congrArg KeyRow.number same
  · rintro rfl
    exact present

namespace Database.Ordered

variable {db : Database Session}

theorem stream_gapless (ordered : db.Ordered) (id : StreamKey) :
    (db.stream id).map EventRow.version = List.range' 1 (db.stream id).length := by
  by_cases exists_key : ∃ number, (⟨number, id⟩ : KeyRow) ∈ db.keys
  · obtain ⟨number, present⟩ := exists_key
    rw [ordered.sound.stream_eq present]
    exact ordered.gapless number
  · have empty : db.stream id = [] := by
      apply List.filter_eq_nil_iff.mpr
      intro row _ present
      exact exists_key ⟨row.streamId, of_decide_eq_true present⟩
    rw [empty]
    rfl

theorem before_of_version_lt (ordered : db.Ordered) :
    ∀ row ∈ db.events, ∀ other ∈ db.events, row.streamId = other.streamId →
      row.version < other.version → row.Before other := by
  apply List.Pairwise.forall_of_forall_of_flip
  · intro row _ _ impossible
    exact absurd impossible (Nat.lt_irrefl _)
  · exact ordered.ordered.imp fun before same _ => before same
  -- the other way round the versions decrease
  · exact ordered.gapless.pairwise.imp fun increases same lt =>
      absurd (increases same.symm) (Nat.lt_asymm lt)

theorem stream_before (ordered : db.Ordered) (id : StreamKey) :
    ∀ row ∈ db.stream id, ∀ other ∈ db.stream id, row.version < other.version →
      row.Before other := by
  intro row present other otherPresent lt
  obtain ⟨present, hasKey⟩ := List.mem_filter.mp present
  rw [ordered.sound.stream_eq (of_decide_eq_true hasKey)] at otherPresent
  obtain ⟨otherPresent, same⟩ := Numbering.mem_rowsOf.mp otherPresent
  exact ordered.before_of_version_lt row present other otherPresent same.symm lt

end Database.Ordered

variable [DecidableEq Session] {db after : Database Session}
variable {wanted : StreamKey → PendingEnvelope → Prop}

/-- What is known of a session. -/
def Control.Held (session : Session) (wanted : StreamKey → PendingEnvelope → Prop)
    (db : Database Session) : Control → Prop
  | .idle => True
  | .serving pause => pause.Guarded (contract session wanted) () db ∧
      pause.Holds (contract session wanted) (fun _ _ _ => True) () db
  | .orphaned statement => Allowed session wanted statement db

variable {control : Control}

theorem Control.Held.interfere (held : control.Held session wanted db)
    (interferes : Interferes session db after) :
    control.Held session wanted after := by
  cases control with
  | idle => trivial
  | serving pause =>
    refine ⟨?_, held.2.stable (fun _ _ => trivial) interferes⟩
    cases pause with
    | finished outcome => trivial
    | waiting statement next => exact Allowed.follow held.1 interferes.follows
  | orphaned statement => exact Allowed.follow held interferes.follows

/-- The code of every call keeps its contract. -/
theorem Call.safe {call : Call}
    (areWanted : ∀ {id envelope}, call.Accepts id envelope → wanted id envelope)
    (db : Database Session) :
    Safe (contract session wanted) (fun _ _ _ => True) call.code () db := by
  cases call with
  | append limits history id expectedVersion envelopes =>
    have accepted (valid : validateSizes id limits envelopes.toList = .ok ()) :
        ∀ envelope ∈ envelopes.toList, wanted id envelope := fun envelope present =>
      areWanted ⟨List.mem_map_of_mem present, pendingBytes_le_of_validateSizes valid _ present⟩
    exact (safe_bind _ _ _ _).mpr (Safe.mono
      (ensures_append accepted history expectedVersion db) fun _ _ _ _ => trivial)
  | atomicAppendMany limits history writes =>
    have accepted (valid : ∀ write ∈ writes,
        validateSizes write.target limits write.batch.toList = .ok ()) :
        ∀ write ∈ writes, ∀ row ∈ write.batch.toList, wanted write.target row :=
      fun write isWrite row present => areWanted
        ⟨List.mem_flatMap.mpr ⟨write, isWrite, List.mem_map_of_mem present⟩,
          pendingBytes_le_of_validateSizes (valid write isWrite) _ present⟩
    exact (safe_bind _ _ _ _).mpr (Safe.mono
      (ensures_atomicAppendMany accepted history db) fun _ _ _ _ => trivial)

namespace System

theorem held_running (safe : Safe (contract session wanted) (fun _ _ _ => True) code () db) :
    (running code).Held session wanted db := by
  obtain ⟨guarded, holds⟩ := safe.advance
  refine ⟨guarded, ?_⟩
  cases isPause : (code.advance ()).2 with
  | finished outcome => trivial
  | waiting statement next => rwa [isPause] at holds

/-- What holds in every state, while all calls accept wanted events only. -/
structure Invariant (wanted : StreamKey → PendingEnvelope → Prop) (stored : List EventRow)
    (s : System Session) : Prop where
  appending : s.db.Appending
  rows : Originated wanted stored s.db
  held : ∀ session, (s.controls session).Held session wanted s.db

theorem invariant_initial : (initial : System Session).Invariant wanted [] where
  appending := ordered_empty.toAppending
  rows := ⟨nofun, nofun⟩
  held _ := trivial

namespace Invariant

variable {s t : System Session}

section

variable (invariant : s.Invariant wanted stored)
include invariant

/-- A session goes on while the others are only interfered with. -/
theorem become (appending : after.Appending) (rows : Originated wanted stored after)
    (others : ∀ {other}, other ≠ session → Interferes other s.db after)
    (held : control.Held session wanted after) :
    (s.become after session control).Invariant wanted stored where
  appending := appending
  rows := rows
  held other := by
    change Control.Held other wanted after (Function.update s.controls session control other)
    by_cases same : other = session
    · subst same
      rwa [Function.update_self]
    · rw [Function.update_of_ne same]
      exact (invariant.held other).interfere (others same)

theorem stay (held : control.Held session wanted s.db) :
    (s.become s.db session control).Invariant wanted stored :=
  invariant.become invariant.appending invariant.rows (fun _ => .refl _ _) held

theorem execute (allowed : Allowed session wanted statement s.db)
    (executes : Executes session statement s.db reply after)
    (held : control.Held session wanted after) :
    (s.become after session control).Invariant wanted stored :=
  invariant.become (executes.appending invariant.appending allowed)
    (invariant.rows.execute executes allowed) (executes.interferes invariant.appending) held

theorem answer
    (waiting : s.controls session = .serving (.waiting statement next)) (answer : statement.Answer)
    (allowed : (contract session wanted).answer statement s.db answer after) :
    (running (next answer)).Held session wanted after := by
  have held := invariant.held session
  rw [waiting] at held
  exact held_running (held.2 (.refl session s.db) allowed)

theorem allowed (waiting : s.controls session = .serving (.waiting statement next)) :
    Allowed session wanted statement s.db := by
  have held := invariant.held session
  rw [waiting] at held
  exact held.1

/-- Every step keeps the invariant of the sessions. -/
theorem step (step : Step s label t)
    (accepts : ∀ session call, label = .call session call →
      ∀ {id envelope}, call.Accepts id envelope → wanted id envelope) :
    t.Invariant wanted stored := by
  have appending := invariant.appending
  cases step with
  | @call _ session call idle =>
    exact invariant.stay (held_running (call.safe (accepts session call rfl) s.db))
  | answered waiting executes =>
    refine invariant.execute (invariant.allowed waiting) executes
      (invariant.answer waiting _ ⟨appending, ?_⟩)
    rintro _ ⟨⟩
    exact executes
  | unacknowledged waiting executes =>
    refine invariant.execute (invariant.allowed waiting) executes
      (invariant.answer waiting _ ⟨appending, ?_⟩)
    rintro _ ⟨⟩
  | failed error waiting =>
    refine invariant.stay (invariant.answer waiting _ ⟨appending, ?_⟩)
    rintro _ ⟨⟩
  | returned finished => exact invariant.stay trivial
  | abandoned waiting => exact invariant.stay (invariant.allowed waiting)
  | @late _ session _ _ _ orphaned executes =>
    have held := invariant.held session
    rw [orphaned] at held
    exact invariant.execute held executes trivial
  | lost orphaned => exact invariant.stay trivial
  | aborted active =>
    exact ⟨appending.abort, invariant.rows.abort, fun other =>
      (invariant.held other).interfere (.abort other)⟩
  | elsewhere later =>
    exact ⟨appending.reserve later, ⟨invariant.rows.committed, invariant.rows.active⟩, fun other =>
      (invariant.held other).interfere ⟨later, List.prefix_refl _, .refl _, .inl rfl⟩⟩

theorem run (run : Run Step s trace t)
    (accepts : ∀ session call, .call session call ∈ trace →
      ∀ {id envelope}, call.Accepts id envelope → wanted id envelope) :
    t.Invariant wanted stored := by
  induction run with
  | refl => exact invariant
  | snoc _ step reached =>
    have earlier := reached fun session call present =>
      accepts session call (List.mem_append_left _ present)
    refine earlier.step step fun session call isCall => accepts session call ?_
    rw [isCall]
    exact List.mem_append_right _ List.mem_cons_self

end

theorem ordered (ordered : s.db.Ordered) (step : Step s label t)
    (after : t.Invariant wanted stored) :
    t.db.Ordered := by
  cases step with
  | answered waiting executes => exact executes.ordered ordered after.appending
  | unacknowledged waiting executes => exact executes.ordered ordered after.appending
  | late orphaned executes => exact executes.ordered ordered after.appending
  | _ => exact ⟨after.appending, ordered.gapless, ordered.ordered⟩

end Invariant

theorem ordered_of_run {s : System Session} (run : Run Step initial trace s) : s.db.Ordered := by
  have both : s.Invariant (fun _ _ => True) [] ∧ s.db.Ordered := by
    induction run with
    | refl => exact ⟨invariant_initial, ordered_empty⟩
    | snoc _ step reached =>
      have after := reached.1.step step fun _ _ _ _ _ _ => trivial
      exact ⟨after, Invariant.ordered reached.2 step after⟩
  exact both.2

/-- At every moment the committed events of each stream have the versions up to
their number, and of two of them the one with the lower version has the lower
position. -/
theorem committed_streams_are_gapless_and_ordered {trace : List (Label Session)}
    {s : System Session} (run : Run Step initial trace s) (id : StreamKey) :
    (s.db.stream id).map EventRow.version = List.range' 1 (s.db.stream id).length ∧
      ∀ row ∈ s.db.stream id, ∀ other ∈ s.db.stream id, row.version < other.version →
        row.Before other := by
  have ordered := ordered_of_run run
  exact ⟨ordered.stream_gapless id, ordered.stream_before id⟩

/-- Two events for a new stream. -/
def opening : Call :=
  .append singleRows someHistory [1] none ⟨(freshRun [1]).head, [secondEvent]⟩

/-- Two sessions read the same head and write the same versions.  One of them commits
while the other one still has its key to find, and the other one fails. -/
theorem racing_appends_are_gapless_and_ordered :
    ∃ trace, ∃ s : System Bool, Run Step initial trace s ∧
      (s.db.stream [1]).map EventRow.version = [1, 2] ∧
      (s.db.stream [1]).map EventRow.version = List.range' 1 (s.db.stream [1]).length ∧
      ∀ row ∈ s.db.stream [1], ∀ other ∈ s.db.stream [1], row.version < other.version →
        row.Before other := by
  have run : Run Step (initial : System Bool) [.call false opening] _ := .single (.call opening rfl)
  have run := run.extend (.call true opening) (.call opening rfl)
  have run := run.extend (.answered false) (.answered rfl (.begin rfl))
  have run := run.extend (.answered true) (.answered rfl (.begin rfl))
  have run := run.extend (.answered false) (.answered rfl (.readHead [1] rfl))
  have run := run.extend (.answered true) (.answered rfl (.readHead [1] rfl))
  -- the first session writes its rows
  have run := run.extend (.answered false)
    (.answered rfl (.insertKey 1 [1] (.now rfl rfl (Nat.le_refl 1)) rfl))
  have checked : (eventRow 1 1 1 (freshRun [1]).head).Checked := by constructor <;> decide +kernel
  have run := run.extend (.answered false)
    (.answered rfl (.insertEvent (.already rfl rfl) rfl rfl checked (by rintro _ ⟨⟩)))
  have checked : (eventRow 1 2 1 secondEvent).Checked := by constructor <;> decide +kernel
  have run := run.extend (.answered false)
    (.answered rfl (.insertEvent (.already rfl rfl) rfl rfl checked (by decide +kernel)))
  have run := run.extend (.answered false) (.answered rfl .setConstraints)
  have run := run.extend (.answered false) (.answered rfl (.durabilitySetting none))
  have run := run.extend (.answered false)
    (.answered rfl (.commit rfl ⟨by decide +kernel, by decide +kernel,
      by decide +kernel, by decide +kernel, by decide +kernel⟩))
  -- the second one finds the key, and its first row is refused
  have run := run.extend (.answered true) (.answered rfl (.keyExists [1] rfl (by decide +kernel)))
  have run := run.extend (.answered true) (.answered rfl (.readKey [1] rfl))
  have run := run.extend (.failed true) (.failed (.database "23505" (some "mnesis") (some "events")
      (some "events_stream_id_version_key")) rfl)
  have run := run.extend (.aborted true) (.aborted rfl)
  exact ⟨_, _, run, by decide +kernel, committed_streams_are_gapless_and_ordered run [1]⟩

end System

end Mnesis.Postgres
