/-!
# Suspendable programs and their safety under interference

A program computes on a private state and suspends at operations that its
environment answers.  While it is suspended the shared world may change, and it may
be abandoned, keeping only the private state it had at that point.

`Program.Safe` is the matching weakest precondition.  It asks the program to
establish a guard at every operation it issues, and to be safe again for every
answer the contract allows in every world that may have been produced meanwhile.
-/

namespace Mnesis.Foundation

/-- A program over private state `σ` that suspends at operations `Op` with
answers of type `Ans`. -/
inductive Program (σ Op : Type) (Ans : Op → Type) (α : Type)
  | done (value : α)
  | read (next : σ → Program σ Op Ans α)
  | write (state : σ) (next : Program σ Op Ans α)
  | await (op : Op) (next : Ans op → Program σ Op Ans α)

/-- Where a program has stopped: at its result, or at an operation whose
answer it needs. -/
inductive Pause (σ Op : Type) (Ans : Op → Type) (α : Type)
  | finished (value : α)
  | waiting (op : Op) (next : Ans op → Program σ Op Ans α)

namespace Program

variable {σ Op : Type} {Ans : Op → Type} {α β : Type}

/-- Sequential composition. -/
def bind :
    Program σ Op Ans α →
    (α → Program σ Op Ans β) → Program σ Op Ans β
  | .done value, continuation => continuation value
  | .read next, continuation => .read fun state => (next state).bind continuation
  | .write state next, continuation => .write state (next.bind continuation)
  | .await op next, continuation =>
    .await op fun answer => (next answer).bind continuation

instance : Monad (Program σ Op Ans) where
  pure := .done
  bind := bind

/-- Read the private state. -/
def get : Program σ Op Ans σ := .read .done

/-- Replace the private state. -/
def set (state : σ) : Program σ Op Ans Unit := .write state (.done ())

/-- Run up to the next suspension. -/
def advance : Program σ Op Ans α → σ → σ × Pause σ Op Ans α
  | .done value, state => (state, .finished value)
  | .read next, state => (next state).advance state
  | .write state next, _ => next.advance state
  | .await op next, state => (state, .waiting op next)

/-- Run to the end with given answers.  The operations are listed with their
answers. -/
def serve (answer : (op : Op) → Ans op) : Program σ Op Ans α → σ → List (Sigma Ans) × α
  | .done value, _ => ([], value)
  | .read next, state => (next state).serve answer state
  | .write state next, _ => next.serve answer state
  | .await op next, state =>
    let (served, value) := (next (answer op)).serve answer state
    (⟨op, answer op⟩ :: served, value)

theorem serve_await {answer : (op : Op) → Ans op} {op : Op} {reply : Ans op}
    {next : Ans op → Program σ Op Ans α} (answered : answer op = reply) (state : σ) :
    (await op next).serve answer state =
      (⟨op, reply⟩ :: ((next reply).serve answer state).1,
        ((next reply).serve answer state).2) := by
  subst answered
  rfl

/-- The first part and then the rest, with the same answers. -/
theorem serve_bind (program : Program Unit Op Ans α) (continuation : α → Program Unit Op Ans β) :
    (program >>= continuation).serve answer () =
      ((program.serve answer ()).1 ++
          ((continuation (program.serve answer ()).2).serve answer ()).1,
        ((continuation (program.serve answer ()).2).serve answer ()).2) := by
  change (program.bind continuation).serve answer () = _
  induction program with
  | done value => rfl
  | read next composed => exact composed ()
  | write state next composed => exact composed
  | await op next composed =>
    have rest := composed (answer op)
    simp only [bind, serve, rest, List.cons_append]

section Served

variable {ε : Type}
theorem serve_run_bind_of_ok (isServed : program.run.serve answer () = (served, .ok value))
    (continuation : α → ExceptT ε (Program Unit Op Ans) β) :
    (program >>= continuation).run.serve answer () =
      (served ++ ((continuation value).run.serve answer ()).1,
        ((continuation value).run.serve answer ()).2) := by
  refine (serve_bind program.run (ExceptT.bindCont continuation)).trans ?_
  rw [isServed]
  rfl

theorem serve_run_bind_of_error (isServed : program.run.serve answer () = (served, .error error))
    (continuation : α → ExceptT ε (Program Unit Op Ans) β) :
    (program >>= continuation).run.serve answer () = (served, .error error) := by
  refine (serve_bind program.run (ExceptT.bindCont continuation)).trans ?_
  rw [isServed]
  exact congrArg (·, _) (List.append_nil served)

end Served

end Program

/-- What a program owes its environment and what it may assume about it.

`guard` is established when an operation is issued and `issue` is its immediate
effect on the world.  `rely` bounds what may happen during a suspension, and
`answer` says which answers may be given in a world, with the world after the
answer has been delivered. -/
structure Contract (σ Op : Type) (Ans : Op → Type) (World : Type) where
  guard : Op → σ → World → Prop
  issue : Op → World → World
  rely : World → World → Prop
  answer : (op : Op) → World → Ans op → World → Prop
  rely_trans : ∀ {first second third : World},
    rely first second → rely second third → rely first third

variable {σ Op : Type} {Ans : Op → Type} {World α β : Type}
variable {post : α → σ → World → Prop}

/-- Weakest precondition of a program under a contract. -/
def Program.Safe (contract : Contract σ Op Ans World) (post : α → σ → World → Prop) :
    Program σ Op Ans α → σ → World → Prop
  | .done value, state, world => post value state world
  | .read next, state, world => (next state).Safe contract post state world
  | .write state next, _, world => next.Safe contract post state world
  | .await op next, state, world =>
    contract.guard op state world ∧
      ∀ {later delivered answer},
        contract.rely (contract.issue op world) later →
        contract.answer op later answer delivered →
        (next answer).Safe contract post state delivered

/-- What is known of a paused program in the current world. -/
def Pause.Holds (contract : Contract σ Op Ans World) (post : α → σ → World → Prop) :
    Pause σ Op Ans α → σ → World → Prop
  | .finished value, state, world => post value state world
  | .waiting op next, state, world =>
    ∀ {later delivered answer},
      contract.rely world later →
      contract.answer op later answer delivered →
      (next answer).Safe contract post state delivered

/-- Effect on the world of reaching a pause: its operation is issued. -/
def Pause.enter (issue : Op → World → World) :
    Pause σ Op Ans α → World → World
  | .finished _, world => world
  | .waiting op _, world => issue op world

/-- The guard of the operation a pause issues, if it issues one. -/
def Pause.Guarded (contract : Contract σ Op Ans World) :
    Pause σ Op Ans α → σ → World → Prop
  | .finished _, _, _ => True
  | .waiting op _, state, world => contract.guard op state world

namespace Program

/-- The weakest precondition of a sequence is that of its first part for the
weakest precondition of the rest. -/
@[simp] theorem safe_bind (program : Program σ Op Ans α)
    (continuation : α → Program σ Op Ans β) (state : σ) (world : World) :
    Safe contract after (program >>= continuation) state world ↔
      Safe contract
        (fun value => Safe contract after (continuation value))
        program state world := by
  change Safe contract after (program.bind continuation) state world ↔ _
  induction program generalizing state world with
  | done value => rfl
  | read next composed => exact composed state state world
  | write newState next composed => exact composed newState world
  | await op next composed =>
    simp only [bind, Safe]
    refine and_congr Iff.rfl ?_
    constructor
    · intro safe later delivered answer during answered
      exact (composed answer state delivered).mp (safe during answered)
    · intro safe later delivered answer during answered
      exact (composed answer state delivered).mpr (safe during answered)

theorem safe_get_bind (continuation : σ → Program σ Op Ans β) (state : σ) (world : World) :
    Safe contract after (get >>= continuation) state world ↔
      Safe contract after (continuation state) state world :=
  Iff.rfl

theorem safe_set_bind (changed : σ)
    (continuation : Unit → Program σ Op Ans β) (state : σ) (world : World) :
    Safe contract after (set changed >>= continuation) state world ↔
      Safe contract after (continuation ()) changed world :=
  Iff.rfl

/-- A weaker postcondition is easier to establish. -/
theorem Safe.mono (safe : Safe contract post program state world)
    (weaken : ∀ value state world, post value state world → weaker value state world) :
    Safe contract weaker program state world := by
  induction program generalizing state world with
  | done value => exact weaken value state world safe
  | read next weakened => exact weakened state safe
  | write newState next weakened => exact weakened safe
  | await op next weakened =>
    obtain ⟨guarded, continues⟩ := safe
    refine ⟨guarded, ?_⟩
    intro later delivered answer during answered
    exact weakened answer (continues during answered)

/-- A safe program reaches a pause whose guard holds and which is known to
continue safely once its operation has been issued. -/
theorem Safe.advance (safe : Safe contract post program state world) :
    (program.advance state).2.Guarded contract (program.advance state).1 world ∧
      (program.advance state).2.Holds contract post (program.advance state).1
        ((program.advance state).2.enter contract.issue world) := by
  induction program generalizing state world with
  | done value => exact ⟨trivial, safe⟩
  | read next advanced => exact advanced state safe
  | write newState next advanced => exact advanced safe
  | await op next _ =>
    obtain ⟨guarded, continues⟩ := safe
    exact ⟨guarded, fun during answered => continues during answered⟩

/-! ### Programs that may fail -/

section Failing

variable {ε : Type} {failing : Except ε β → σ → World → Prop}

@[simp] theorem safe_run_pure (value : β) (state : σ) (world : World) :
    Safe contract failing (ExceptT.run (pure value)) state world ↔
      failing (.ok value) state world :=
  Iff.rfl

@[simp] theorem safe_run_throw (error : ε) (state : σ) (world : World) :
    Safe contract failing (ExceptT.run (throw error)) state world ↔
      failing (.error error) state world :=
  Iff.rfl

@[simp] theorem safe_run_ofExcept (result : Except ε β) (state : σ) (world : World) :
    Safe contract failing (ExceptT.run (MonadExcept.ofExcept result)) state world ↔
      failing result state world := by
  cases result <;> rfl

/-- A failure of the first part skips the rest. -/
theorem safe_run_bind (program : ExceptT ε (Program σ Op Ans) α)
    (continuation : α → ExceptT ε (Program σ Op Ans) β) (state : σ) (world : World) :
    Safe contract failing (program >>= continuation).run state world ↔
      Safe contract
        (fun
          | .ok value => Safe contract failing (continuation value).run
          | .error error => failing (.error error))
        program.run state world := by
  change Safe contract failing (program.run >>= ExceptT.bindCont continuation) state world ↔ _
  rw [safe_bind]
  refine iff_of_eq (congrArg (fun post => Safe contract post program.run state world) ?_)
  funext result
  cases result <;> rfl

/-- A program that cannot fail, inside one that can. -/
theorem safe_run_lift (program : Program σ Op Ans β) (state : σ) (world : World) :
    Safe contract failing (ExceptT.lift program : ExceptT ε (Program σ Op Ans) β).run state world ↔
      Safe contract (fun value => failing (.ok value)) program state world := by
  change Safe contract failing (program >>= fun value => pure (Except.ok value)) state world ↔ _
  rw [safe_bind]
  rfl

/-- A program whose success has a postcondition, and whose failures promise
nothing. -/
def Succeeds (contract : Contract σ Op Ans World) (post : β → σ → World → Prop)
    (program : ExceptT ε (Program σ Op Ans) β) (state : σ) (world : World) : Prop :=
  Safe contract
    (fun result state world => ∀ value, result = .ok value → post value state world)
    program.run state world

variable {wanted : β → σ → World → Prop}

theorem succeeds_pure (holds : wanted value state world) :
    Succeeds contract wanted (pure value : ExceptT ε (Program σ Op Ans) β) state world := by
  rintro _ ⟨⟩
  exact holds

theorem succeeds_throw (error : ε) :
    Succeeds contract wanted (throw error : ExceptT ε (Program σ Op Ans) β) state world := by
  rintro _ ⟨⟩

theorem succeeds_ofExcept (holds : ∀ value, result = .ok value → wanted value state world) :
    Succeeds contract wanted
      (MonadExcept.ofExcept result : ExceptT ε (Program σ Op Ans) β) state world := by
  cases result with
  | error error => exact succeeds_throw error
  | ok value => exact succeeds_pure (holds value rfl)

theorem Succeeds.bind
    (first : Succeeds contract
      (fun value => Succeeds contract wanted (continuation value)) program state world) :
    Succeeds contract wanted (program >>= continuation) state world := by
  refine (safe_run_bind program continuation state world).mpr (first.mono ?_)
  intro result state world holds
  cases result with
  | error error => exact fun _ isValue => nomatch isValue
  | ok value => exact holds value rfl

/-- A failure in another type. -/
theorem Succeeds.adapt (convert : ε → ε')
    (succeeds : Succeeds contract wanted program state world) :
    Succeeds contract wanted (ExceptT.adapt convert program) state world := by
  change Safe contract _ (program.run >>= fun result => pure (result.mapError convert)) state world
  refine (safe_bind _ _ state world).mpr (succeeds.mono ?_)
  intro result state world holds value isValue
  cases result with
  | error error => cases isValue
  | ok other =>
    cases isValue
    exact holds _ rfl

theorem Succeeds.mono (succeeds : Succeeds contract wanted program state world)
    (weaken : ∀ value state world, wanted value state world → weaker value state world) :
    Succeeds contract weaker program state world :=
  Safe.mono succeeds fun _ state world holds value isValue =>
    weaken value state world (holds value isValue)

end Failing

end Program

/-- What is known of a pause survives interference, provided its postcondition
does. -/
theorem Pause.Holds.stable {pause : Pause σ Op Ans α}
    (postStable : ∀ {value world later},
      post value state world → contract.rely world later →
      post value state later) (holds : pause.Holds contract post state world)
    (during : contract.rely world later) :
    pause.Holds contract post state later := by
  cases pause with
  | finished value => exact postStable holds during
  | waiting op next =>
    intro latest delivered answer further answered
    exact holds (contract.rely_trans during further) answered

end Mnesis.Foundation
