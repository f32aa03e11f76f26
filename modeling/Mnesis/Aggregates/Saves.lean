import Mnesis.Aggregates.Effects

/-!
# Loads and saves under interference

Each piece of repository code is verified against the contract of its
environment: it keeps a faithful root faithful, issues appends of what it
encoded and commits snapshots of the stream.  A save ends with its append in
effect and the root behind it, or with the root it started from.
-/

namespace Mnesis.Aggregates

open Foundation Kernel Store

/-- What a call must hold of its arguments. -/
def Admissible : Call S → View S → Prop
  | .append events _ envelopes, view =>
    Decodes S envelopes.toList events ∧ view.issued = none
  | .commit _ position state, view =>
    position.toNat ≤ view.world.events.length ∧
      state = stateAfter S view.world.events position.toNat
  | .readStream _, _ => True
  | .hydrate _, _ => True

/-- The contract between repository code and its environment. -/
def contract (S : EventStore) : Contract S.Root (Call S) Call.Answer (View S) where
  guard call root view := Faithful view.world.events root ∧ Admissible call view
  issue := issue
  rely := Later
  answer call view answer delivered := Answers call view answer ∧ delivered = view
  rely_trans := Later.trans

/-- The append of a save took effect and its root stands behind it. -/
structure Saved (before : S.Root) (events : List S.A.Event) (root : S.Root) (view : View S) :
    Prop where
  effect : ∃ index attempt, view.issued = some index ∧
    view.world.attempts[index]? = some attempt ∧ attempt.fate = .landed ∧
    attempt.batch.events = events ∧ attempt.batch.expected = before.version
  number : depth root.version = depth before.version + events.length
  faithful : Faithful view.world.events root

/-- What a failed save has done: nothing, an append that was refused, or one of
which only the adapter knows more. -/
inductive Unsaved (view : View S) : S.Error → Prop
  | unsent (idle : view.issued = none) : Unsaved view error
  | conflict {streamId : Bytes} {expected actual : Option Version} {index : Nat}
      {attempt : Attempt S} (issued : view.issued = some index)
      (isAttempt : view.world.attempts[index]? = some attempt) (refused : attempt.fate = .refused) :
      Unsaved view (.conflict streamId expected actual)
  | unknown : Unsaved view (.adapter error)

/-- How a save ends. -/
def SaveEnds (before : S.Root) (events : List S.A.Event) :
    Except S.Error S.Position → S.Root → View S → Prop
  | .ok _, root, view => Saved before events root view
  | .error error, root, view =>
    root = before ∧ Faithful view.world.events root ∧ Unsaved view error

/-- What code starts from: a faithful root and no append. -/
structure Standing (root : S.Root) (view : View S) : Prop where
  valid : view.world.Valid
  unsent : view.issued = none
  faithful : Faithful view.world.events root

/-- How a load ends.  It does not touch the root `held` that the caller has. -/
structure LoadEnds (held : S.Root) (result : Except S.Error S.Root) (root : S.Root)
    (view : View S) : Prop where
  same : root = held
  standing : Standing held view
  loaded : ∀ loaded, result = .ok loaded → Faithful view.world.events loaded

theorem Standing.later (standing : Standing root before) (later : Later before after) :
    Standing root after where
  valid := later.valid
  unsent := later.issued.trans standing.unsent
  faithful := standing.faithful.later later

section Load

variable {view : View S}

theorem safe_replayFrom (standing : Standing held view) (faithful : Faithful view.world.events root)
    (follows : start.toNat = depth root.version + 1) :
    Program.Safe (contract S) (LoadEnds held) (S.replayFrom root start) held view := by
  refine ⟨⟨standing.faithful, trivial⟩, ?_⟩
  rintro _ later answer during ⟨answered, rfl⟩
  refine ⟨rfl, standing.later during, ?_⟩
  intro loaded isLoaded
  cases answered with
  | read moment earlier =>
    rw [Repository.replayAnswer, bind_eq_ok] at isLoaded
    obtain ⟨replayed, isReplayed, same⟩ := isLoaded
    cases same
    exact ((faithful.later during).replay during.valid.recorded earlier follows isReplayed).1
  | readFailed rows error partly =>
    rw [Repository.replayAnswer, bind_eq_ok] at isLoaded
    obtain ⟨_, _, impossible⟩ := isLoaded
    cases impossible

theorem safe_load (standing : Standing held view) :
    Program.Safe (contract S) (LoadEnds held) S.load held view :=
  safe_replayFrom standing (faithful_new _) rfl

end Load

section Save

variable {view : View S}

theorem exists_issued (during : Later (issue (.append events expected envelopes) view) later) :
    ∃ attempt, later.issued = some view.world.attempts.length ∧
      later.world.attempts[view.world.attempts.length]? = some attempt ∧
      attempt.batch = ⟨events, expected, envelopes⟩ := by
  obtain ⟨attempt, isAttempt, sameBatch, _, _⟩ :=
    during.attempts (getElem?_concat_eq_some.mpr (.inr ⟨rfl, rfl⟩))
  exact ⟨attempt, during.issued, isAttempt, sameBatch⟩

/-- Adopting the events of an append that took effect ends a save. -/
theorem saved_of_landed (valid : view.world.Valid) (faithful : Faithful view.world.events before)
    (issued : view.issued = some index) (isAttempt : view.world.attempts[index]? = some attempt)
    (landed : attempt.fate = .landed) (isEvents : attempt.batch.events = events.toList)
    (isExpected : attempt.batch.expected = before.version)
    (adopted : before.commitPersisted events = .ok root) :
    Saved before events.toList root view := by
  obtain ⟨current, version, usable, number, rfl⟩ := AggregateRoot.commitPersisted_eq_ok.mp adopted
  have took := (valid.grounded isAttempt).landed.mp landed
  refine ⟨⟨index, attempt, issued, isAttempt, landed, isEvents, isExpected⟩, number, ?_⟩
  apply valid.faithful_of_effect took faithful isExpected usable
  · rw [isEvents]
  · rw [isEvents]
    exact number

/-- A save ends with its append in effect, or with the root it began with. -/
theorem safe_saveEvents (lawful : S.Lawful) (standing : Standing before view)
    (schemas : EventStore.Schemas) (events : Events S.A.Event N) :
    Program.Safe (contract S)
      (fun result root later => later.world.Valid ∧ SaveEnds before events.toList result root later)
      (S.saveEvents schemas events) before view := by
  unfold EventStore.saveEvents
  rw [Program.safe_get_bind]
  cases prepared : S.prepareBatch schemas before events with
  | error error =>
    exact ⟨standing.valid, rfl, standing.faithful, .unsent standing.unsent⟩
  | ok batch =>
    obtain ⟨⟨version, committed⟩, _, decodes⟩ := prepareBatch_eq_ok lawful prepared
    refine ⟨⟨standing.faithful, decodes, standing.unsent⟩, ?_⟩
    rintro _ later answer during ⟨answered, rfl⟩
    have faithful : Faithful later.world.events before :=
      standing.faithful.mono (events_grow during.effects)
    cases answered with
    | appended position issued isAttempt landed =>
      obtain ⟨own, isOwn, isOwnAttempt, sameBatch⟩ := exists_issued during
      rw [issued, Option.some_inj] at isOwn
      rw [isOwn, isOwnAttempt, Option.some_inj] at isAttempt
      subst isAttempt
      obtain ⟨⟨current, usable⟩, number⟩ := AggregateRoot.commitVersion_eq_ok.mp committed
      have adopted := AggregateRoot.commitPersisted_eq_ok.mpr
        ⟨current, version, usable, number, rfl⟩
      have saved := saved_of_landed during.valid faithful (isOwn ▸ issued) isOwnAttempt landed
        (congrArg Batch.events sameBatch) (congrArg Batch.expected sameBatch) adopted
      rw [adopted]
      exact ⟨during.valid, saved⟩
    | conflict streamId reported actual issued isAttempt refused =>
      exact ⟨during.valid, rfl, faithful, .conflict issued isAttempt refused⟩
    | appendFailed error => exact ⟨during.valid, rfl, faithful, .unknown⟩

end Save

theorem Saved.later (saved : Saved before events root view) (later : Later view after) :
    Saved before events root after := by
  obtain ⟨index, attempt, issued, isAttempt, landed, isEvents, isExpected⟩ := saved.effect
  obtain ⟨attempt', isAttempt', sameBatch, sameFate, _⟩ := later.attempts isAttempt
  refine ⟨⟨index, attempt', later.issued.trans issued, isAttempt', ?_, ?_, ?_⟩, saved.number,
    saved.faithful.later later⟩
  · rw [sameFate (by rw [landed]; decide), landed]
  · rw [sameBatch, isEvents]
  · rw [sameBatch, isExpected]

theorem Unsaved.later (unsaved : Unsaved view error) (later : Later view after) :
    Unsaved after error := by
  cases unsaved with
  | unsent idle => exact .unsent (later.issued.trans idle)
  | conflict issued isAttempt refused =>
    obtain ⟨attempt', isAttempt', _, sameFate, _⟩ := later.attempts isAttempt
    refine .conflict (later.issued.trans issued) isAttempt' ?_
    rw [sameFate (by rw [refused]; decide), refused]
  | unknown => exact .unknown

theorem SaveEnds.later (ends : SaveEnds before events result root view) (later : Later view after) :
    SaveEnds before events result root after := by
  cases result with
  | ok position => exact Saved.later ends later
  | error error => exact ⟨ends.1, ends.2.1.later later, ends.2.2.later later⟩

theorem SaveEnds.faithful (ends : SaveEnds before events result root view) :
    Faithful view.world.events root := by
  cases result with
  | ok position => exact Saved.faithful ends
  | error error => exact ends.2.1

theorem LoadEnds.later (ends : LoadEnds held result root view) (later : Later view after) :
    LoadEnds held result root after where
  same := ends.same
  standing := ends.standing.later later
  loaded loaded isLoaded := (ends.loaded loaded isLoaded).later later

section Snapshots

variable {view : View S} (D : Snapshotting)

/-- A stored snapshot is a faithful root, to be replayed from the next version. -/
theorem safe_tryLoadFromSnapshot (standing : Standing held view) :
    Program.Safe (contract S)
      (fun result root later => root = held ∧ Standing held later ∧
        ∀ restored start, result = some (restored, start) →
          Faithful later.world.events restored ∧
            ∀ next, start = some next → next.toNat = depth restored.version + 1)
      (D.tryLoadFromSnapshot : Code S _) held view := by
  refine ⟨⟨standing.faithful, trivial⟩, ?_⟩
  rintro _ later answer during ⟨answered, rfl⟩
  have standing' := standing.later during
  cases answered with
  | hydrateFailed error => exact ⟨rfl, standing', fun _ _ impossible => nomatch impossible⟩
  | absent => exact ⟨rfl, standing', fun _ _ impossible => nomatch impossible⟩
  | stale storedSchema => exact ⟨rfl, standing', fun _ _ impossible => nomatch impossible⟩
  | found committed =>
    refine ⟨rfl, standing', ?_⟩
    rintro _ _ ⟨⟩
    obtain ⟨within, state⟩ := during.valid.snapshots _ committed
    refine ⟨⟨within, congrArg some state⟩, ?_⟩
    intro next isNext
    exact Version.next_eq_some.mp isNext

theorem safe_trySaveSnapshot (valid : view.world.Valid)
    (heldFaithful : Faithful view.world.events held) (faithful : Faithful view.world.events root)
    (isVersion : root.version = some version) :
    Program.Safe (contract S) (fun _ after later => after = held ∧ Later view later)
      (D.trySaveSnapshot root version) held view := by
  unfold Snapshotting.trySaveSnapshot
  cases isState : root.state with
  | error error => exact ⟨rfl, .refl valid⟩
  | ok state =>
    have isState := AggregateRoot.state_eq_ok.mp isState
    have reached : depth root.version = version.toNat := by rw [isVersion]; rfl
    have within := faithful.within
    have same := faithful.state
    rw [reached] at within same
    rw [isState, Option.some_inj] at same
    refine ⟨⟨heldFaithful, within, same⟩, ?_⟩
    rintro _ later answer during ⟨answered, rfl⟩
    exact ⟨rfl, (later_committed valid within same).trans during⟩

theorem safe_snapshotOfRead (valid : view.world.Valid)
    (heldFaithful : Faithful view.world.events held) (faithful : Faithful view.world.events root) :
    Program.Safe (contract S) (fun _ after later => after = held ∧ Later view later)
      (D.snapshotOfRead root) held view := by
  unfold Snapshotting.snapshotOfRead
  split
  next version _ isVersion => exact safe_trySaveSnapshot D valid heldFaithful faithful isVersion
  next => exact ⟨rfl, .refl valid⟩

/-- A load from a snapshot is safe under interference. -/
theorem safe_snapshotting_load (standing : Standing held view) :
    Program.Safe (contract S) (LoadEnds held) D.load held view := by
  unfold Snapshotting.load
  rw [Program.safe_bind]
  apply (safe_tryLoadFromSnapshot D standing).mono
  rintro result root later ⟨rfl, standing', restores⟩
  split
  next restored next =>
    obtain ⟨faithful, follows⟩ := restores _ _ rfl
    exact safe_replayFrom standing' faithful (follows next rfl)
  next restored =>
    refine ⟨rfl, standing', ?_⟩
    rintro _ ⟨⟩
    exact (restores _ _ rfl).1
  next =>
    rw [Program.safe_bind]
    apply (safe_load standing').mono
    intro loaded root later ends
    cases loaded with
    | error error => exact ends
    | ok loaded =>
      rw [Program.safe_bind]
      have faithful := ends.loaded loaded rfl
      rw [ends.same]
      apply (safe_snapshotOfRead D ends.standing.valid ends.standing.faithful faithful).mono
      rintro _ _ last ⟨rfl, later⟩
      exact { ends.later later with same := rfl }

theorem safe_snapshotOfSave (valid : view.world.Valid) (faithful : Faithful view.world.events held)
    (oldVersion : Option Version) (events : Events S.A.Event N) :
    Program.Safe (contract S) (fun _ after later => after = held ∧ Later view later)
      (D.snapshotOfSave oldVersion events) held view := by
  unfold Snapshotting.snapshotOfSave
  rw [Program.safe_get_bind]
  cases isVersion : held.version with
  | none => exact ⟨rfl, .refl valid⟩
  | some version =>
    dsimp only
    split
    · exact safe_trySaveSnapshot D valid faithful faithful isVersion
    · exact ⟨rfl, .refl valid⟩

theorem safe_snapshotting_save (lawful : S.Lawful) (standing : Standing held view)
    (events : Events S.A.Event N) :
    Program.Safe (contract S)
      (fun result root later => later.world.Valid ∧ SaveEnds held events.toList result root later)
      (D.save events) held view := by
  unfold Snapshotting.save
  rw [Program.safe_get_bind, Program.safe_bind]
  apply (safe_saveEvents lawful standing _ events).mono
  rintro result root later ⟨valid, ends⟩
  cases result with
  | error error => exact ⟨valid, ends⟩
  | ok position =>
    rw [Program.safe_bind]
    apply (safe_snapshotOfSave D valid ends.faithful held.version events).mono
    rintro _ _ last ⟨rfl, during⟩
    exact ⟨during.valid, ends.later during⟩

end Snapshots

section Repositories

variable {view : View S} (repo : Repo)

theorem safe_repo_load (standing : Standing held view) :
    Program.Safe (contract S) (LoadEnds held) repo.load held view := by
  cases repo with
  | eventStore => exact safe_load standing
  | snapshotting D => exact safe_snapshotting_load D standing

theorem safe_repo_save (lawful : S.Lawful) (standing : Standing held view)
    (events : Events S.A.Event N) :
    Program.Safe (contract S)
      (fun result root later => later.world.Valid ∧ SaveEnds held events.toList result root later)
      (repo.save events) held view := by
  cases repo with
  | eventStore => exact safe_saveEvents lawful standing _ events
  | snapshotting D => exact safe_snapshotting_save D lawful standing events

end Repositories

end Mnesis.Aggregates
