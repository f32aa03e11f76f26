import Mathlib.Data.List.Induction

/-!
# Runs, machines and loops

A run is a finite sequence of labelled steps, and invariants are carried along it one
step at a time.  One machine refines another through a relation between their states
when every call finds agreeing answers and leaves related states.

A loop repeats a step until the step stops it with a result.  It is run with a bound
on the number of repetitions, and has at most one result.
-/

namespace Mnesis.Foundation

/-- A labelled transition relation on one type of states. -/
abbrev Transition (State Label : Type) :=
  State → Label → State → Prop

/-- `Run step start trace finish` holds when `trace` leads from `start` to
`finish`. -/
inductive Run (step : Transition State Label) (start : State) :
    List Label → State → Prop
  | refl : Run step start [] start
  | snoc {trace : List Label} {middle finish : State} {label : Label} :
      Run step start trace middle →
      step middle label finish →
      Run step start (trace ++ [label]) finish

namespace Run

variable {trace later : List Label}

/-- A single step is a run. -/
theorem single (taken : step start label finish) : Run step start [label] finish :=
  Run.snoc Run.refl taken

/-- A run goes on with a step of the given label. -/
theorem extend (run : Run step start trace middle) (label : Label)
    (taken : step middle label finish) : Run step start (trace ++ [label]) finish :=
  Run.snoc run taken

/-- Runs compose. -/
theorem trans (first : Run step start trace middle) (second : Run step middle later finish) :
    Run step start (trace ++ later) finish := by
  induction second with
  | refl => simpa using first
  | snoc _ taken composed =>
    rw [← List.append_assoc]
    exact Run.snoc composed taken

/-- A run of a relation is a run of every relation that contains it. -/
theorem mono
    (contained : ∀ {before after : State} {label : Label},
      step before label after → wider before label after)
    (run : Run step start trace finish) :
    Run wider start trace finish := by
  induction run with
  | refl => exact Run.refl
  | snoc _ taken reached => exact Run.snoc reached (contained taken)

/-- A property that holds initially and that every step preserves holds at
the end of every run. -/
theorem invariant {property : State → Prop} (initially : property start)
    (preserved : ∀ {before after : State} {label : Label},
      property before → step before label after → property after)
    (run : Run step start trace finish) :
    property finish := by
  induction run with
  | refl => exact initially
  | snoc _ taken holds => exact preserved holds taken

/-- A label that occurs in the trace of a run was taken at some moment, from
a state reached by an earlier part of the run. -/
theorem exists_step_of_mem (run : Run step start trace finish) (present : label ∈ trace) :
    ∃ earlier before after rest,
      Run step start earlier before ∧
      step before label after ∧
      Run step after rest finish := by
  induction run with
  | refl => simp at present
  | @snoc prior before after last reached taken located =>
    rcases List.mem_append.mp present with inPrior | isLast
    · obtain ⟨earlier, source, target, rest, toSource, occurred, toBefore⟩ := located inPrior
      exact ⟨earlier, source, target, rest ++ [last], toSource, occurred, Run.snoc toBefore taken⟩
    · have same : label = last := by simpa using isLast
      subst same
      exact ⟨prior, before, after, [], reached, taken, Run.refl⟩

end Run

/-- A state and what each call does to it. -/
structure Machine (State Call Answer : Type) where
  initial : State
  step : State → Call → Answer × State

namespace Machine

variable {Call State Answer Abstract Reply : Type}

/-- The state after a sequence of calls. -/
def run (machine : Machine State Call Answer) (calls : List Call) : State :=
  calls.foldl (fun state call => (machine.step state call).2) machine.initial

@[simp] theorem run_snoc (machine : Machine State Call Answer) (calls : List Call) (call : Call) :
    machine.run (calls ++ [call]) = (machine.step (machine.run calls) call).2 := by
  rw [run, List.foldl_append]
  rfl

/-- Every call finds agreeing answers and leaves related states. -/
structure Refines (concrete : Machine State Call Answer) (abstract : Machine Abstract Call Reply)
    (represents : State → Abstract → Prop) (agrees : Answer → Reply → Prop) : Prop where
  initially : represents concrete.initial abstract.initial
  step : ∀ {state : State} {abstractState : Abstract} (call : Call),
    represents state abstractState →
    agrees (concrete.step state call).1 (abstract.step abstractState call).1 ∧
      represents (concrete.step state call).2 (abstract.step abstractState call).2

variable {represents : State → Abstract → Prop} {agrees : Answer → Reply → Prop}

/-- Related states are reached by the same calls. -/
theorem Refines.run (refines : Refines concrete abstract represents agrees) (calls : List Call) :
    represents (concrete.run calls) (abstract.run calls) := by
  induction calls using List.reverseRecOn with
  | nil => exact refines.initially
  | append_singleton calls call related =>
    rw [run_snoc, run_snoc]
    exact (refines.step call related).2

/-- The answers after the same calls agree. -/
theorem Refines.answer (refines : Refines concrete abstract represents agrees) (calls : List Call)
    (call : Call) :
    agrees (concrete.step (concrete.run calls) call).1
      (abstract.step (abstract.run calls) call).1 :=
  (refines.step call (refines.run calls)).1

/-- Answer calls one after the other. -/
def answers (machine : Machine State Call Answer) : State → List Call → List Answer × State
  | state, [] => ([], state)
  | state, call :: calls =>
    let (answer, next) := machine.step state call
    let (rest, last) := machine.answers next calls
    (answer :: rest, last)

@[simp] theorem answers_cons (machine : Machine State Call Answer) (state : State) (call : Call)
    (calls : List Call) :
    machine.answers state (call :: calls) =
      ((machine.step state call).1 :: (machine.answers (machine.step state call).2 calls).1,
        (machine.answers (machine.step state call).2 calls).2) := rfl

/-- What every step keeps holds after any calls. -/
theorem answers_invariant {machine : Machine State Call Answer} (holds : State → Prop)
    (kept : ∀ state call, holds state → holds (machine.step state call).2) (initially : holds state)
    (calls : List Call) :
    holds (machine.answers state calls).2 := by
  induction calls generalizing state with
  | nil => exact initially
  | cons call calls rest => exact rest (kept state call initially)

/-- Calls from related states find agreeing answers and end in related states. -/
theorem Refines.answers (refines : Refines concrete abstract represents agrees)
    (related : represents state abstractState) (calls : List Call) :
    List.Forall₂ agrees (concrete.answers state calls).1 (abstract.answers abstractState calls).1 ∧
      represents (concrete.answers state calls).2 (abstract.answers abstractState calls).2 := by
  induction calls generalizing state abstractState with
  | nil => exact ⟨.nil, related⟩
  | cons call calls rest =>
    obtain ⟨agrees, related⟩ := refines.step call related
    obtain ⟨agreeRest, relatedRest⟩ := rest related
    exact ⟨.cons agrees agreeRest, relatedRest⟩

end Machine

/-- What one repetition does: go on with a new state, or stop. -/
inductive Flow (σ β : Type)
  | again (state : σ)
  | stop (result : β)

variable {σ β : Type}

/-- Repeat a step, at most as often as the bound says. -/
def loop (step : σ → Flow σ β) : Nat → σ → Option β
  | 0, _ => none
  | bound + 1, state =>
    match step state with
    | .again next => loop step bound next
    | .stop result => some result

/-- A loop returns a result. -/
def Returns (step : σ → Flow σ β) (state : σ) (result : β) : Prop :=
  ∃ bound, loop step bound state = some result

variable {step : σ → Flow σ β}

/-- A larger bound does not change the result. -/
theorem loop_mono (returned : loop step bound state = some result) (within : bound ≤ larger) :
    loop step larger state = some result := by
  induction bound generalizing state larger with
  | zero => cases returned
  | succ bound repeated =>
    obtain ⟨more, rfl⟩ := Nat.exists_eq_add_of_le within
    rw [Nat.add_right_comm]
    unfold loop at returned ⊢
    cases isStep : step state with
    | stop stopped =>
      rw [isStep] at returned
      exact returned
    | again next =>
      rw [isStep] at returned
      exact repeated returned (Nat.le_add_right _ _)

/-- A loop returns at most one result. -/
theorem Returns.unique (first : Returns step state result) (second : Returns step state other) :
    result = other := by
  obtain ⟨bound, returned⟩ := first
  obtain ⟨bound', returned'⟩ := second
  have larger := loop_mono returned (Nat.le_max_left bound bound')
  have larger' := loop_mono returned' (Nat.le_max_right bound bound')
  exact Option.some.inj (larger.symm.trans larger')

/-- A loop whose step stops returns at once. -/
theorem returns_of_stop (stopped : step state = .stop result) : Returns step state result := by
  refine ⟨1, ?_⟩
  simp [loop, stopped]

/-- A loop whose step goes on returns what it returns from there. -/
theorem returns_of_again (isAgain : step state = .again next) (returns : Returns step next result) :
    Returns step state result := by
  obtain ⟨bound, returned⟩ := returns
  refine ⟨bound + 1, ?_⟩
  simp [loop, isAgain, returned]

/-- A loop returns if each repetition decreases a measure. -/
theorem exists_returns (measure : σ → Nat)
    (decreases : ∀ {state next : σ}, step state = .again next → measure next < measure state)
    (state : σ) :
    ∃ result, Returns step state result := by
  induction isMeasure : measure state using Nat.strongRecOn generalizing state with
  | _ size smaller =>
    cases isStep : step state with
    | stop result => exact ⟨result, returns_of_stop isStep⟩
    | again next =>
      have less := decreases isStep
      rw [isMeasure] at less
      obtain ⟨result, returns⟩ := smaller (measure next) less next rfl
      exact ⟨result, returns_of_again isStep returns⟩

end Mnesis.Foundation
