import Mnesis.Postgres.Scans

/-!
# What is delivered

The events that were delivered to a reader are the first ones among the committed
events: in order, each of them once, and with every event that is before one of them.
No later commit changes that.
-/

namespace Mnesis.Postgres

open Foundation Foundation.Program Kernel Store

variable {Session : Type} {db after : Database Session}

/-- The events that were delivered: the first ones of all that are committed, and
below cutoffs. -/
structure Covered (history : History) (db : Database Session) (delivered : List AllItem)
    (rows : List EventRow) : Prop where
  positions : delivered.map Prod.fst = rows.map fun row => row.at history
  items : ∀ item ∈ delivered, ∃ row ∈ db.events, IsItem history db row item
  leading : Leading EventRow.position (· ∈ db.events) rows
  settled : ∀ row ∈ rows, ∃ ceiling, row.txid < ceiling ∧ Settled db ceiling

namespace Covered

theorem nil : Covered history db [] [] where
  positions := rfl
  items := by simp
  leading := .nil
  settled := by simp

section

variable (covered : Covered history db delivered rows)
include covered

/-- What was delivered stays covered. -/
theorem evolve (evolves : Evolves db after) : Covered history after delivered rows where
  positions := covered.positions
  items item present := by
    obtain ⟨row, committed, isItem⟩ := covered.items item present
    exact ⟨row, evolves.events.subset committed, isItem.evolve evolves⟩
  leading := by
    apply covered.leading.congr
    · exact fun row present => evolves.events.subset (covered.leading.members row present)
    · intro row committed later present before
      obtain ⟨ceiling, below, settled⟩ := covered.settled later present
      exact evolves.final settled row committed (Nat.lt_of_le_of_lt (EventRow.txid_le before) below)
  settled row present := by
    obtain ⟨ceiling, below, settled⟩ := covered.settled row present
    exact ⟨ceiling, below, evolves.settled settled⟩

theorem nodup : (delivered.map Prod.fst).Nodup := by
  rw [covered.positions]
  apply List.pairwise_map.mpr
  apply covered.leading.increasing.imp
  intro row other before same
  rw [← EventRow.at_before_iff, same, EventRow.at_before_iff] at before
  exact lt_irrefl _ before

theorem last_eq :
    delivered.getLast?.map Prod.fst = rows.getLast?.map fun row => row.at history := by
  rw [← List.getLast?_map, covered.positions, List.getLast?_map]

/-- Eligible events are behind those that were delivered. -/
theorem behind (sound : db.Sound)
    (eligible : Eligible db ceiling ((delivered.getLast?.map Prod.fst).map PgAllPos.bound) event) :
    ∀ row ∈ rows, row.position < event.position := by
  rw [covered.last_eq] at eligible
  rcases List.eq_nil_or_concat' rows with rfl | ⟨front, last, rfl⟩
  · simp
  · have committed := covered.leading.members last (by simp)
    have admits := eligible.behind (last.at history).bound (by simp)
    have lastBefore := (EventRow.admits_bound_at (sound.checked last committed) history).mp admits
    obtain ⟨-, -, across⟩ := List.pairwise_append.mp covered.leading.increasing
    intro row present
    rcases List.mem_append.mp present with inFront | isLast
    · exact lt_trans (across row inFront last (List.mem_singleton_self last)) lastBefore
    · cases List.mem_singleton.mp isLast
      exact lastBefore

/-- No event is between the last one delivered and the next. -/
theorem complete (sound : db.Sound)
    (first : Leading EventRow.position (Eligible db ceiling
      ((delivered.getLast?.map Prod.fst).map PgAllPos.bound)) [event]) :
    ∀ row, row ∈ db.events → row.position < event.position → row ∈ rows := by
  intro row committed before
  have below : row.txid < ceiling :=
    Nat.lt_of_le_of_lt (EventRow.txid_le before) (first.members event (by simp)).below
  -- a row behind the last delivered one would be the first
  by_contra missing
  have eligible :
      Eligible db ceiling ((delivered.getLast?.map Prod.fst).map PgAllPos.bound) row := by
    refine ⟨committed, below, ?_⟩
    rw [covered.last_eq]
    intro bound isBound
    rcases List.eq_nil_or_concat' rows with rfl | ⟨front, last, rfl⟩
    · cases isBound
    · have isLast : (last.at history).bound = bound := by simpa using isBound
      subst isLast
      have lastCommitted := covered.leading.members last (by simp)
      rw [EventRow.admits_bound_at (sound.checked last lastCommitted)]
      rcases lt_trichotomy last.position row.position with after | same | before
      · exact after
      · have isLast := List.inj_on_of_nodup_map sound.constraints.position_nodup lastCommitted
          committed same
        exact absurd (isLast ▸ by simp) missing
      · exact absurd (covered.leading.closed row committed last (by simp) before) missing
  have isEvent := first.closed row eligible event (by simp) before
  cases List.mem_singleton.mp isEvent
  exact lt_irrefl _ before

/-- The next event extends what is covered. -/
theorem deliver (sound : db.Sound)
    (settled : Settled db ceiling) (isItem : IsItem history db event item)
    (first : Leading EventRow.position (Eligible db ceiling
      ((delivered.getLast?.map Prod.fst).map PgAllPos.bound)) [event]) :
    Covered history db (delivered ++ [item]) (rows ++ [event]) := by
  have eligible := first.members event (List.mem_singleton_self event)
  refine ⟨?_, ?_, ?_, ?_⟩
  · rw [List.map_append, List.map_append, covered.positions, List.map_singleton,
      List.map_singleton, isItem.position]
  · exact List.forall_mem_append.mpr ⟨covered.items,
      List.forall_mem_singleton.mpr ⟨event, eligible.committed, isItem⟩⟩
  · exact covered.leading.snoc eligible.committed (covered.behind sound eligible)
      (covered.complete sound first)
  · exact List.forall_mem_append.mpr ⟨covered.settled,
      List.forall_mem_singleton.mpr ⟨ceiling, eligible.below, settled⟩⟩

end

end Covered

/-- What is known of a reader. -/
def Reader.Held (history : History) (db : Database Session) (last : Option PgAllPos) :
    Reader → Prop
  | .idle => True
  | .scanning _ scan => ScanAt db last scan
  | .running _ pause =>
    pause.Holds readContract (fun result _ db => result.Holds history last db) () db

theorem Reader.Held.evolve {reader : Reader}
    (held : reader.Held history db last) (evolves : Evolves db after) :
    reader.Held history after last := by
  cases reader with
  | idle => trivial
  | scanning limits scan => exact ScanAt.evolve held evolves
  | running limits pause => exact Pause.Holds.stable (fun holds => holds.evolve) held evolves

namespace Reading

/-- What holds in every state. -/
structure Invariant (history : History) (s : Reading Session) : Prop where
  sound : s.db.Sound
  covered : ∃ rows, Covered history s.db s.delivered rows
  held : s.reader.Held history s.db s.last

theorem invariant_initial : Invariant history (initial : Reading Session) where
  sound := Database.sound_empty
  covered := ⟨[], .nil⟩
  held := trivial

variable {s : Reading Session}

theorem held_run
    (safe : Safe readContract (fun result _ db => result.Holds history s.last db) code () s.db)
    (limits : Limits) :
    (s.run limits code).reader.Held history s.db s.last := by
  obtain ⟨_, holds⟩ := safe.advance
  have entered : (code.advance ()).2.enter readContract.issue s.db = s.db := by
    cases (code.advance ()).2 <;> rfl
  rw [entered] at holds
  exact holds

theorem Invariant.withDb (invariant : s.Invariant history)
    (sound : after.Sound) (evolves : Evolves s.db after) :
    Invariant history { s with db := after } where
  sound := sound
  covered := by
    obtain ⟨rows, covered⟩ := invariant.covered
    exact ⟨rows, covered.evolve evolves⟩
  held := invariant.held.evolve evolves

theorem Invariant.withReader (invariant : s.Invariant history)
    {reader : Reader} (held : reader.Held history s.db s.last) :
    Invariant history { s with reader := reader } where
  sound := invariant.sound
  covered := invariant.covered
  held := held

theorem safe_readAll (history : History) (start : Option PgAllPos) (db : Database Session) :
    Safe readContract (fun result _ db => ReadResult.Holds history start db result)
      (ReadResult.opened <$> (readAll history start).run) () db := by
  refine (safe_bind _ _ _ _).mpr (Safe.mono (succeeds_readAll history start) ?_)
  rintro result ⟨⟩ db holds
  cases result with
  | error error => trivial
  | ok scan => exact holds scan rfl

theorem safe_next (history : History)
    (scanAt : ScanAt db start scan) (sound : db.Sound) (limits : Limits) :
    Safe readContract (fun result _ db => ReadResult.Holds history start db result)
      (ReadResult.polled <$> (scan.next limits history).run) () db := by
  refine (safe_bind _ _ _ _).mpr (Safe.mono (succeeds_next scanAt sound limits history) ?_)
  rintro result ⟨⟩ db holds
  cases result with
  | error error => trivial
  | ok yielded => exact holds yielded rfl

variable [DecidableEq Session]

/-- Every step keeps the invariant of a reader. -/
theorem Invariant.step (invariant : s.Invariant history) (step : Step history s label t) :
    t.Invariant history := by
  have sound := invariant.sound
  have held := invariant.held
  cases step with
  | writer step => exact invariant.withDb (sound.step step) (.step sound step)
  | elsewhere later => exact invariant.withDb (sound.reserve later) (.reserve later)
  | request limits idle =>
    exact invariant.withReader (held_run (safe_readAll history s.last s.db) limits)
  | answered waiting reads =>
    rw [waiting] at held
    refine invariant.withReader (held_run (held (.refl s.db) ⟨rfl, sound, ?_⟩) _)
    rintro _ ⟨⟩
    exact reads
  | failed error waiting =>
    rw [waiting] at held
    refine invariant.withReader (held_run (held (.refl s.db) ⟨rfl, sound, ?_⟩) _)
    rintro _ ⟨⟩
  | opened finished =>
    rw [finished] at held
    exact invariant.withReader held
  | poll scanning =>
    rw [scanning] at held
    exact invariant.withReader (held_run (safe_next history held sound _) _)
  | @delivered _ limits item scan finished =>
    rw [finished] at held
    obtain ⟨scanAt, event, isItem, first⟩ := held
    obtain ⟨rows, covered⟩ := invariant.covered
    refine ⟨sound, ⟨rows ++ [event], covered.deliver sound scanAt.settled isItem first⟩, ?_⟩
    simpa [last, Reader.Held] using scanAt
  | ended finished => exact invariant.withReader trivial
  | dropped => exact invariant.withReader trivial

theorem evolves_of_run (invariant : s.Invariant history) (run : Run (Step history) s trace t) :
    Evolves s.db t.db := by
  have both : t.Invariant history ∧ Evolves s.db t.db := by
    induction run with
    | refl => exact ⟨invariant, .refl _⟩
    | snoc _ step reached =>
      obtain ⟨invariant, evolves⟩ := reached
      refine ⟨invariant.step step, ?_⟩
      cases step with
      | writer step => exact evolves.trans (.step invariant.sound step)
      | elsewhere later => exact evolves.trans (.reserve later)
      | _ => exact evolves
  exact both.2

/-- Positions that were delivered increase strictly.  Every one of them is that of a
committed event, and every committed event was delivered at most once.  An event that
is before one of them was delivered as well, whenever it is committed. -/
theorem delivered_positions_skip_nothing {trace onward : List (Label Session)}
    (run : Run (Step history) initial trace s)
    (later : Run (Step history) s onward t) :
    (s.delivered.map Prod.fst).Pairwise PgAllPos.Before ∧
      (∀ item ∈ s.delivered, ∃ row ∈ s.db.events, IsItem history s.db row item) ∧
      (∀ row ∈ s.db.events, (s.delivered.map Prod.fst).count (row.at history) ≤ 1) ∧
      ∀ position ∈ s.delivered.map Prod.fst, ∀ row ∈ t.db.events,
        (row.at history).Before position → row.at history ∈ s.delivered.map Prod.fst := by
  have invariant := run.invariant invariant_initial fun holds => Invariant.step holds
  obtain ⟨rows, covered⟩ := invariant.covered
  have finally_covered := covered.evolve (evolves_of_run invariant later)
  have increasing : (s.delivered.map Prod.fst).Pairwise PgAllPos.Before := by
    rw [covered.positions]
    exact List.pairwise_map.mpr
      (covered.leading.increasing.imp fun before => EventRow.at_before_iff.mpr before)
  refine ⟨increasing, covered.items, ?_, ?_⟩
  · intro row _
    exact List.nodup_iff_count_le_one.mp covered.nodup _
  · intro position present row committed before
    rw [covered.positions] at present ⊢
    obtain ⟨event, isEvent, rfl⟩ := List.mem_map.mp present
    exact List.mem_map_of_mem (finally_covered.leading.closed row committed event isEvent
      (EventRow.at_before_iff.mp before))

/-- An event without content. -/
def emptyEvent (globalSeq txid streamId : Nat) : EventRow :=
  ⟨globalSeq, 1, txid, [], 1, [], none, streamId⟩

/-- The transaction with the larger id commits first, and a scan that is opened then
yields nothing.  Another one yields both events, in pages of one row. -/
theorem late_commit_is_not_skipped :
    ∃ trace, ∃ s : Reading Bool, Run (Step someHistory) initial trace s ∧
      s.delivered.map Prod.fst = [⟨someHistory, 1, 2⟩, ⟨someHistory, 2, 1⟩] ∧
      (s.delivered.map Prod.fst).Pairwise PgAllPos.Before ∧
      (∀ item ∈ s.delivered, ∃ row ∈ s.db.events, IsItem someHistory s.db row item) ∧
      (∀ row ∈ s.db.events, (s.delivered.map Prod.fst).count (row.at someHistory) ≤ 1) ∧
      ∀ position ∈ s.delivered.map Prod.fst, ∀ row ∈ s.db.events,
        (row.at someHistory).Before position → row.at someHistory ∈ s.delivered.map Prod.fst := by
  have run : Run (Step someHistory) (initial : Reading Bool) [.writer false] _ :=
    .single (.writer (.begin rfl))
  have run := run.extend (.writer true) (.writer (.begin rfl))
  have run := run.extend (.writer false) (.writer (.identify rfl rfl (Nat.le_refl 1)))
  have run := run.extend (.writer true) (.writer (.identify rfl rfl (Nat.le_refl 2)))
  have run := run.extend (.writer true) (.writer (.addKey ⟨1, [1]⟩ rfl rfl))
  have checked : (emptyEvent 1 2 1).Checked := by constructor <;> decide
  have run := run.extend (.writer true) (.writer (.addEvent rfl rfl checked (by rintro _ ⟨⟩)))
  have run := run.extend (.writer true) (.writer (.commit rfl
    ⟨by decide, by decide, by decide, by decide, by decide⟩))
  -- the other transaction is still in progress, and its id is the cutoff
  have run := run.snoc (.request singleRows rfl)
  have run := run.snoc (.answered rfl (.snapshotXmin (show Settled _ 1 from ⟨by decide, by
    rintro (_ | _) _ _ ⟨⟩ ⟨⟩
    exact Nat.le_refl 1⟩)))
  have run := run.snoc (.opened rfl)
  have run := run.snoc (.poll rfl)
  have run := run.snoc (.answered rfl (.selectPage _ _ _))
  have run := run.snoc (.ended rfl)
  have run := run.extend (.writer false) (.writer (.addKey ⟨2, [2]⟩ rfl rfl))
  have checked : (emptyEvent 2 1 2).Checked := by constructor <;> decide
  have run := run.extend (.writer false) (.writer (.addEvent rfl rfl checked (by rintro _ ⟨⟩)))
  have run := run.extend (.writer false) (.writer (.commit rfl
    ⟨by decide, by decide, by decide, by decide, by decide⟩))
  have run := run.snoc (.request singleRows rfl)
  have run := run.snoc (.answered rfl (.snapshotXmin (show Settled _ 3 from ⟨by decide, by
    rintro (_ | _) _ _ ⟨⟩⟩)))
  have run := run.snoc (.opened rfl)
  have run := run.snoc (.poll rfl)
  have run := run.snoc (.answered rfl (.selectPage _ _ _))
  have run := run.snoc (.delivered rfl)
  have run := run.snoc (.poll rfl)
  have run := run.snoc (.answered rfl (.selectPage _ _ _))
  have run := run.snoc (.delivered rfl)
  exact ⟨_, _, run, rfl, delivered_positions_skip_nothing run .refl⟩

end Reading

end Mnesis.Postgres
