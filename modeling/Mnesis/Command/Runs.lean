import Mnesis.Command.Calls

/-!
# The invariant of every run

Soundness and custody hold for every engine in every reachable state, and every
suspended call is known to end in a meaningful answer.  One lemma for each step
of the system; the run lemma follows by induction.
-/

namespace Mnesis.Command

open Foundation Kernel Store

variable {P : Processor}

theorem Sound.of_later {after : View P} (sound : Sound view) (later : Later view after)
    (log : ∃ log : List P.Record, Represents after.history log)
    (grounded : ∀ attempt ∈ after.attempts, Grounded after.history attempt) :
    Sound after := by
  refine ⟨log, grounded, ?_⟩
  rw [List.pairwise_iff_getElem]
  intro early late earlyInside lateInside inOrder different
  obtain ⟨before, isBefore, advances⟩ :=
    later.advances early _ (List.getElem?_eq_getElem earlyInside)
  obtain ⟨beforeLate, isBeforeLate, advancesLate⟩ :=
    later.advances late _ (List.getElem?_eq_getElem lateInside)
  obtain ⟨earlyWas, rfl⟩ := List.getElem?_eq_some_iff.mp isBefore
  obtain ⟨lateWas, rfl⟩ := List.getElem?_eq_some_iff.mp isBeforeLate
  rw [advances.requests, advancesLate.requests] at different
  rw [advances.spent_iff]
  have ordered := List.pairwise_iff_getElem.mp sound.ordered
  exact (ordered early late earlyWas lateWas inOrder different).mono later.history

theorem Sound.grow {view : View P} (sound : Sound view)
    (isPrefix : view.history <+: longer) (log : ∃ log : List P.Record, Represents longer log) :
    Later view { view with history := longer } ∧ Sound { view with history := longer } := by
  have later : Later view { view with history := longer } :=
    ⟨isPrefix, rfl, fun _ attempt present => ⟨attempt, present, .refl attempt⟩, rfl⟩
  refine ⟨later, sound.of_later later log ?_⟩
  intro attempt present
  obtain ⟨prior, record, row, grounding⟩ := sound.grounded attempt present
  exact ⟨prior, record, row, grounding.grow isPrefix⟩

theorem Sound.decide (sound : Sound view) (issued : view.attempts[index]? = some attempt)
    (inFlight : attempt.fate = .inFlight) (grounded : Grounded view.history { attempt with fate }) :
    Later view { view with attempts := view.attempts.set index { attempt with fate } } ∧
      Sound { view with attempts := view.attempts.set index { attempt with fate } } := by
  obtain ⟨inside, isAttempt⟩ := List.getElem?_eq_some_iff.mp issued
  have later : Later view
      { view with attempts := view.attempts.set index { attempt with fate } } := by
    refine ⟨List.prefix_rfl, List.length_set, ?_, rfl⟩
    intro other present atOther
    by_cases same : index = other
    · subst same
      rw [List.getElem?_set_self inside, Option.some_inj] at atOther
      rw [← atOther]
      exact ⟨attempt, issued, rfl, rfl, rfl, fun decided => absurd inFlight decided⟩
    · rw [List.getElem?_set_ne same] at atOther
      exact ⟨present, atOther, .refl present⟩
  refine ⟨later, sound.of_later later sound.log ?_⟩
  intro other present
  rcases List.mem_or_eq_of_mem_set present with old | new
  · exact sound.grounded other old
  · rw [new]
    exact grounded

/-- The view of a seat on a stream. -/
def Seat.view (seat : Seat P) (history : List PendingEnvelope) : View P :=
  ⟨history, seat.attempts, seat.notes⟩

/-- What holds of an engine between two steps. -/
structure Seated (history : List PendingEnvelope) (seat : Seat P) : Prop where
  sound : Sound (seat.view history)
  custody : Custody seat.control.held (seat.view history)
  paused : ∀ {call held pause}, seat.control = .serving call held pause →
    pause.Holds (contract P) (Served call) held (seat.view history)

theorem Seated.later (seated : Seated history seat)
    (later : Later (seat.view history) ⟨longer, attempts, seat.notes⟩)
    (sound : Sound ⟨longer, attempts, seat.notes⟩) :
    Seated longer { seat with attempts } where
  sound := sound
  custody := seated.custody.later later
  paused := by
    intro call held pause serving
    refine Pause.Holds.stable ?_ (seated.paused serving) ⟨later, sound⟩
    intro reply before after served during
    exact Served.later served during.1 during.2

@[simp] theorem issue_history (call : StoreCall P.Record) (view : View P) :
    (issue call view).history = view.history := by
  cases call <;> rfl

@[simp] theorem enter_history (pause : CallPause P) (view : View P) :
    (pause.enter issue view).history = view.history := by
  cases pause with
  | finished reply => rfl
  | waiting call next => exact issue_history call view

theorem Answers.history (answers : Answers call view answer delivered) :
    delivered.history = view.history := by
  cases answers <;> rfl

theorem Seated.of_pause (guarded : pause.Guarded (contract P) held view)
    (holds : pause.Holds (contract P) (Served call) held (pause.enter issue view)) :
    Seated view.history
      ⟨.serving call held pause, (pause.enter issue view).attempts,
        (pause.enter issue view).notes⟩ := by
  have sameView : (⟨view.history, (pause.enter issue view).attempts,
      (pause.enter issue view).notes⟩ : View P) = pause.enter issue view := by
    rw [← enter_history pause view]
  have both : Sound (pause.enter issue view) ∧ Custody held (pause.enter issue view) := by
    cases pause with
    | finished reply => exact ⟨Served.sound holds, Served.custody holds⟩
    | waiting op next => exact guarded
  constructor
  · rw [Seat.view, sameView]
    exact both.1
  · rw [Seat.view, sameView]
    exact both.2
  · intro servedCall servedHeld servedPause serving
    cases serving
    rw [Seat.view, sameView]
    exact holds

variable {E : Type} [DecidableEq E]

/-- What holds of the whole system between two steps. -/
structure Invariant (system : System P E) : Prop where
  log : ∃ log : List P.Record, Represents system.history log
  seated : ∀ engine, Seated system.history (system.engines engine)

omit [DecidableEq E] in
theorem invariant_initial : Invariant (System.initial P E) where
  log := ⟨[], .nil⟩
  seated _ := {
    sound := ⟨⟨[], .nil⟩, by simp [Seat.view, System.initial], .nil⟩
    custody := by simp [Custody, Seat.view, System.initial]
    paused := by
      intro call held pause serving
      cases serving }

namespace Invariant

variable {system : System P E}

section

variable (invariant : Invariant system)
include invariant

theorem place {control : Control P}
    (seated : Seated system.history ⟨control, view.attempts, view.notes⟩) :
    Invariant (system.place engine control view) := by
  refine ⟨invariant.log, ?_⟩
  intro other
  by_cases same : other = engine
  · subst same
    simpa [System.place] using seated
  · simpa [System.place, same] using invariant.seated other

theorem proceed (sameHistory : view.history = system.history)
    (safe : Program.Safe (contract P) (Served call) code held view) :
    Invariant (system.proceed engine call held code view) := by
  obtain ⟨guarded, holds⟩ := safe.advance
  have seated := Seated.of_pause guarded holds
  rw [sameHistory] at seated
  exact invariant.place seated

theorem rest {control : Control P} (sameHeld : control.held = (system.engines engine).control.held)
    (resting : ∀ {call held pause}, control ≠ .serving call held pause) :
    Invariant (system.place engine control (system.view engine)) := by
  have seated := invariant.seated engine
  exact invariant.place {
    sound := seated.sound
    custody := by
      rw [sameHeld]
      exact seated.custody
    paused := fun serving => absurd serving resting }

/-- An append in flight at the end of the stream takes effect. -/
theorem land (issued : (system.engines engine).attempts[index]? = some attempt)
    (inFlight : attempt.fate = .inFlight)
    (atEnd : depth attempt.base = system.history.length) :
    Invariant {
      history := system.history ++ attempt.batch.toList
      engines := Function.update system.engines engine
        { system.engines engine with
          attempts := (system.engines engine).attempts.set index
            { attempt with fate := .landed } } : System P E } := by
  have seated := invariant.seated engine
  obtain ⟨log, record, row, grounding⟩ :=
    seated.sound.grounded attempt (List.mem_of_getElem? issued)
  have isRow : attempt.batch.toList = [row] := by
    rw [grounding.batch]
    rfl
  have represents : Represents system.history log := by
    have whole := grounding.represents
    rw [atEnd] at whole
    simpa [Seat.view] using whole
  have longer : Represents (system.history ++ [row]) (log ++ [record]) :=
    represents.snoc grounding.decoded grounding.extending
  have isPrefix : system.history <+: system.history ++ [row] := List.prefix_append _ _
  rw [isRow]
  refine ⟨⟨_, longer⟩, ?_⟩
  intro other
  by_cases same : other = engine
  · subst same
    obtain ⟨later, sound⟩ := seated.sound.grow isPrefix ⟨_, longer⟩
    have landed : Grounded (system.history ++ [row]) { attempt with fate := .landed } :=
      ⟨log, record, row, { grounding.grow isPrefix with
        landed := fun _ => by
          rw [atEnd]
          exact List.getElem?_concat_length
        refused := by simp }⟩
    obtain ⟨laterStill, soundStill⟩ := sound.decide issued inFlight landed
    simpa [Seat.view] using seated.later (later.trans laterStill) soundStill
  · obtain ⟨later, sound⟩ := (invariant.seated other).sound.grow isPrefix ⟨_, longer⟩
    simpa [same, Seat.view] using (invariant.seated other).later later sound

/-- An append that misses the end is refused. -/
theorem refuse (issued : (system.engines engine).attempts[index]? = some attempt)
    (inFlight : attempt.fate = .inFlight)
    (notAtEnd : depth attempt.base ≠ system.history.length) :
    Invariant { system with
      engines := Function.update system.engines engine
        { system.engines engine with
          attempts := (system.engines engine).attempts.set index
            { attempt with fate := .refused } } } := by
  have seated := invariant.seated engine
  obtain ⟨log, record, row, grounding⟩ :=
    seated.sound.grounded attempt (List.mem_of_getElem? issued)
  have refused : Grounded system.history { attempt with fate := .refused } :=
    ⟨log, record, row, { grounding with
      landed := by simp
      refused := fun _ => Nat.lt_of_le_of_ne grounding.inside notAtEnd }⟩
  refine ⟨invariant.log, ?_⟩
  intro other
  by_cases same : other = engine
  · subst same
    obtain ⟨later, sound⟩ := seated.sound.decide issued inFlight refused
    simpa [Seat.view] using seated.later later sound
  · simpa [same] using invariant.seated other

end

end Invariant

theorem held_of_resume {id : Bytes} (resumed : resume id limits runtime shutdown = .ok held) :
    held = shutdown.uncertain := by
  simp only [resume, launch, bind_eq_ok, rejectIf_eq_ok, pure_eq_ok, Except.ok.injEq] at resumed
  obtain ⟨_, _, _, _, _, _, _, _, _, _, same⟩ := resumed
  exact same.symm

/-- Every step keeps all engines sound. -/
theorem Invariant.step {before after : System P E}
    (invariant : Invariant before) (taken : Step stream before label after) :
    Invariant after := by
  cases taken with
  | @call engine held call idle =>
    have seated := invariant.seated engine
    have custody := seated.custody
    rw [idle] at custody
    refine invariant.proceed rfl (serve_safe call (seated.sound.congr rfl rfl)
      (custody.congr rfl rfl) ?_)
    intro request started
    exact .inl started
  | @answer engine call held storeCall next answer delivered waiting answers =>
    have seated := invariant.seated engine
    exact invariant.proceed answers.history (seated.paused waiting ⟨.refl _, seated.sound⟩ answers)
  | reply finished =>
    refine invariant.rest ?_ (by simp)
    rw [finished]
    rfl
  | @land engine index attempt issued inFlight =>
    unfold System.settleAttempt
    split
    next atEnd => exact invariant.land issued inFlight atEnd
    next notAtEnd => exact invariant.refuse issued inFlight notAtEnd
  | abort waiting =>
    refine invariant.rest ?_ (by simp)
    rw [waiting]
    rfl
  | stop idle =>
    refine invariant.rest ?_ (by simp)
    rw [idle]
    rfl
  | resume id limits runtime ended resumed =>
    refine invariant.rest ?_ (by simp)
    rw [ended]
    exact held_of_resume resumed

theorem Reachable.invariant {system : System P E} (reachable : Reachable stream trace system) :
    Invariant system :=
  Run.invariant invariant_initial Invariant.step reachable

end Mnesis.Command
