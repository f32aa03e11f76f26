import Mnesis.Command.Guarantees

/-!
# Failed calls

What becomes of a request that an engine holds when a call starts and the call
then fails or times out.  The engine keeps holding it, or has loaded a history
that is past it, unless a denied append is followed by a load that delivers nothing:
`write` gives the request up before `reload` has shown what became of it.
-/

namespace Mnesis.Command

open Foundation Kernel Store

variable {E : Type} [DecidableEq E] {system : System P E}

/-- The error of an answer. -/
def Reply.error? : Reply P → Option (Error P)
  | .submit (.error error) => some error
  | .read (.error error) => some error
  | .original (.error error) => some error
  | .retry (.error error) => some error
  | _ => none

theorem Served.kept (served : Served call reply held view) (failed : reply.error? = some error) :
    Kept held view := by
  match call, reply, served with
  | .submit _, .submit (.error error), served => exact Answered.kept served error rfl
  | .read, .read (.error error), served => exact ReadAnswered.kept served error rfl
  | .original _, .original (.error _), served => exact Recovered.kept served
  | .retry _, .retry (.error error), served => exact Retried.kept served error rfl

/-- A history that the call loaded is past the request held at its start. -/
def Notes.resolved (notes : Notes P) : Bool :=
  match notes.heldAtStart with
  | none => true
  | some request =>
    notes.loads.any fun rows => depth request.expected < rows.length

/-- A load that comes after a conflict, with the request held at the start of
the call still unresolved, delivers a history. -/
def reloadDelivers (system : System P E) : Label P E → Bool
  | .answer engine .readStream none
  | .answer engine .readStream (some ⟨_, some _⟩) =>
    !(system.engines engine).notes.conflicted || (system.engines engine).notes.resolved
  | _ => true

/-- Steps in which such loads deliver. -/
def DeliveringStep (stream : Bytes) (before : System P E) (label : Label P E)
    (after : System P E) : Prop :=
  Step stream before label after ∧ reloadDelivers before label = true

/-- A load after a conflict failed only with nothing unresolved. -/
def Notes.Steady (notes : Notes P) : Prop :=
  notes.reloadFailed = true → notes.resolved = true

theorem Notes.steady_start (held : Option P.Request) : (Notes.start held).Steady := by
  intro failed
  cases failed

theorem Notes.Steady.enter (steady : view.notes.Steady) (pause : CallPause P) :
    (pause.enter issue view).notes.Steady := by
  cases pause with
  | finished reply => exact steady
  | waiting call next =>
    cases call with
    | readStream => exact steady
    | append records base batch => exact steady

theorem Notes.Steady.loaded {notes : Notes P} (steady : notes.Steady)
    (rows : List PendingEnvelope) :
    (notes.loaded rows).Steady := by
  intro failed
  have resolved := steady failed
  unfold Notes.resolved Notes.loaded at *
  cases started : notes.heldAtStart with
  | none => rfl
  | some request =>
    rw [started] at resolved
    simp only [List.any_append, Bool.or_eq_true]
    exact .inl resolved

theorem Notes.Steady.loadFailed {notes : Notes P} (steady : notes.Steady)
    (delivers : (!notes.conflicted || notes.resolved) = true) :
    notes.loadFailed.Steady := by
  intro failed
  simp only [Notes.loadFailed, Bool.or_eq_true] at failed
  rcases failed with failed | conflicted
  · exact steady failed
  · rw [conflicted, Bool.not_true, Bool.false_or] at delivers
    exact delivers

omit [DecidableEq E] in
theorem Notes.Steady.answer {engine : E} {answer : call.Answer P.AdapterError}
    (steady : (system.view engine).notes.Steady)
    (answers : Answers call (system.view engine) answer delivered)
    (delivers : reloadDelivers system (.answer engine call answer) = true) :
    delivered.notes.Steady := by
  cases answers with
  | loadElapsed => exact steady.loadFailed delivers
  | loadFailed rows error partly => exact steady.loadFailed delivers
  | loaded rows moment recent => exact steady.loaded rows
  | appendElapsed | appendFailed _ | appended _ | conflict _ _ _ _ => exact steady

/-- The notes of every engine are steady. -/
def Steady (system : System P E) : Prop :=
  ∀ engine, (system.engines engine).notes.Steady

theorem Steady.place {control : Control P} (steady : Steady system) (placed : view.notes.Steady) :
    Steady (system.place engine control view) := by
  intro other
  by_cases same : other = engine
  · subst same
    simpa only [System.place, Function.update_self] using placed
  · simpa only [System.place, Function.update_of_ne same] using steady other

theorem Steady.settleAttempt (steady : Steady system) :
    Steady (system.settleAttempt engine index attempt) := by
  intro other
  unfold System.settleAttempt
  by_cases same : other = engine
  · subst same
    split <;> simpa only [Function.update_self] using steady other
  · split <;> simpa only [Function.update_of_ne same] using steady other

theorem Steady.step {label : Label P E} (steady : Steady before)
    (taken : DeliveringStep stream before label after) :
    Steady after := by
  obtain ⟨taken, delivers⟩ := taken
  cases taken with
  | call call idle => exact steady.place (.enter (Notes.steady_start _) _)
  | answer waiting answers =>
    exact steady.place (.enter (.answer (steady _) answers delivers) _)
  | reply finished => exact steady.place (steady _)
  | land issued inFlight => exact steady.settleAttempt
  | abort waiting => exact steady.place (steady _)
  | stop idle => exact steady.place (steady _)
  | resume id limits runtime ended resumed => exact steady.place (steady _)

/-- In every run in which the loads after a conflict deliver, a call that answers
with an error, a failure or a timeout among them, leaves the request held at its
start with the engine, or has loaded a history that is past it. -/
theorem failed_call_keeps_held (run : Run (DeliveringStep stream) (System.initial P E) trace system)
    {engine : E} {call : Call P} {reply : Reply P} {error : Error P} {request : P.Request}
    {after : System P E} (taken : Step stream system (.reply engine call reply) after)
    (failed : reply.error? = some error)
    (started : (system.engines engine).notes.heldAtStart = some request) :
    (after.engines engine).control = .idle (some request) ∨
      ∃ rows ∈ (system.engines engine).notes.loads,
        depth request.expected < rows.length := by
  have reachable : Reachable stream trace system := run.mono And.left
  have steady : Steady system := run.invariant (fun _ => Notes.steady_start _) Steady.step
  obtain ⟨held, served, rfl⟩ := served_of_reply reachable.invariant taken
  rcases served.kept failed request started with kept | past | reloadFailed
  · refine .inl ?_
    simp only [System.place, Function.update_self, kept]
  · exact .inr past
  · refine .inr ?_
    have resolved := steady engine reloadFailed
    rw [Notes.resolved, started] at resolved
    simpa using resolved

/-- A read that times out leaves the unresolved request with its engine. -/
theorem timed_out_read_keeps_held :
    ∃ trace system after,
      Run (DeliveringStep []) (System.initial tally Bool) trace system ∧
      Step [] system (.reply true .read (.read (.error .timeout))) after ∧
      (system.engines true).notes.heldAtStart = some firstCount ∧
      ((after.engines true).control = .idle (some firstCount) ∨
        ∃ rows ∈ (system.engines true).notes.loads,
          depth firstCount.expected < rows.length) := by
  have played : ∃ trace system,
      (System.initial tally Bool).playAll [] reloadDelivers
        (uncertainScript true firstCount ++
          [(true, .call .read), (true, .deliver .elapse)]) = some (trace, system) ∧
      (system.engines true).control =
        .serving .read (some firstCount) (.finished (.read (.error .timeout))) ∧
      (system.engines true).notes.heldAtStart = some firstCount :=
    ⟨_, _, rfl, rfl, rfl⟩
  obtain ⟨trace, system, played, finished, started⟩ := played
  exact ⟨trace, system, _, run_of_playAll played, .reply finished, started,
    failed_call_keeps_held (run_of_playAll played) (.reply finished) rfl started⟩

/-- The append of a held request is sent again and denied, because the first one
has taken effect meanwhile; the load after that times out.  The engine answers
with a timeout, holds nothing, and every history it loaded was empty. -/
theorem timed_out_submit_drops_held :
    ∃ trace system after,
      Reachable [] trace system ∧
      Step [] system (.reply true (.submit firstCount) (.submit (.error .timeout))) after ∧
      (system.engines true).notes.heldAtStart = some firstCount ∧
      (after.engines true).control = .idle none ∧
      ∀ rows ∈ (system.engines true).notes.loads,
        rows.length ≤ depth firstCount.expected := by
  have played : ∃ trace system,
      playTally (uncertainScript true firstCount ++
        [(true, .call (.submit firstCount)), (true, .deliver (.load 0)),
          (true, .land 0), (true, .land 1), (true, .deliver (.deny [] none none)),
          (true, .deliver .elapse)]) = some (trace, system) ∧
      (system.engines true).control =
        .serving (.submit firstCount) none (.finished (.submit (.error .timeout))) ∧
      (system.engines true).notes.heldAtStart = some firstCount ∧
      (system.engines true).notes.loads = [[]] :=
    ⟨_, _, rfl, rfl, rfl, rfl⟩
  obtain ⟨trace, system, played, finished, started, loads⟩ := played
  refine ⟨trace, system, _, reachable_of_playTally played, .reply finished, started, ?_, ?_⟩
  · simp only [System.place, Function.update_self]
  · intro rows loaded
    rw [loads, List.mem_singleton] at loaded
    rw [loaded]
    exact Nat.zero_le _

end Mnesis.Command
