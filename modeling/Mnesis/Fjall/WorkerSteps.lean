import Mnesis.Fjall.Worker

/-!
# The steps of the worker

The worker takes the entries of each queue in the order in which they were sent, and it
takes all of them before it stops.  An entry at the head of a queue waits for at most one
entry of the other queue, and for a bounded number of steps.
-/

namespace Mnesis.Fjall

variable {State Caller Answer : Type}

@[simp] theorem Queue.other_other (queue : Queue) : queue.other.other = queue := by
  cases queue <;> rfl

theorem Queue.eq_or_eq_other (priority queue : Queue) :
    priority = queue ∨ priority = queue.other := by
  cases priority <;> cases queue <;> decide

/-- The queue is still open for the worker. -/
def OpenQueues.Has (queue : Queue) : OpenQueues → Prop
  | .both _ => True
  | .only other => other = queue
  | .closed => False

/-- The queues that are open in a phase. -/
def Phase.queues : Phase State Caller Answer → OpenQueues
  | .top queues => queues
  | .first queues => queues
  | .second priority => .both priority
  | .parked queues => queues
  | .received _ next => next
  | .running _ next => next
  | .stopped => .closed

namespace Worker

/-- The entries that were taken from a queue. -/
def takenFrom (queue : Queue) (worker : Worker State Caller Answer) :
    List (Job State Caller Answer) :=
  (worker.taken.filter fun entry => entry.1 = queue).map Prod.snd

/-- A queue that is closed and empty. -/
def Drained (queue : Queue) (worker : Worker State Caller Answer) : Prop :=
  (worker.channels queue).closed = true ∧ (worker.channels queue).entries = []

/-- Of each queue the entries that were taken and those that are left are all that were
admitted, and only a queue that is closed and empty is not asked any more. -/
structure Accounts (worker : Worker State Caller Answer) : Prop where
  admitted : ∀ queue, worker.admitted queue =
    worker.takenFrom queue ++ (worker.channels queue).entries
  drained : ∀ queue, ¬ worker.phase.queues.Has queue → worker.Drained queue

theorem accounts_new (state : State) : (new state : Worker State Caller Answer).Accounts where
  admitted _ := rfl
  drained _ missing := absurd trivial missing

end Worker

/-- In this phase the worker asks a queue.  If it has an entry the worker goes on with the
first queues, if it is closed with the second ones, and else in the last phase. -/
inductive Phase.Asks :
    Phase State Caller Answer → Queue → OpenQueues → OpenQueues → Phase State Caller Answer → Prop
  | first (priority : Queue) :
      Asks (.first (.both priority)) priority (.both priority.other) (.only priority.other)
        (.second priority)
  | second (priority : Queue) :
      Asks (.second priority) priority.other (.both priority) (.only priority)
        (.parked (.both priority))
  | only (queue : Queue) :
      Asks (.first (.only queue)) queue (.only queue) .closed (.parked (.only queue))

namespace Phase

variable {phase pending : Phase State Caller Answer}

theorem Asks.has_next (asks : phase.Asks queue next others pending)
    (has : phase.queues.Has another) : next.Has another := by
  cases asks with
  | first | second => trivial
  | only => exact has

theorem Asks.has_others (asks : phase.Asks queue next others pending)
    (has : phase.queues.Has another) (different : another ≠ queue) : others.Has another := by
  cases asks with
  | first => exact ((another.eq_or_eq_other queue).resolve_left different).symm
  | second priority =>
    have isPriority := (another.eq_or_eq_other _).resolve_left different
    exact (priority.other_other ▸ isPriority).symm
  | only => exact absurd has.symm different

theorem Asks.queues_pending (asks : phase.Asks queue next others pending) :
    pending.queues = phase.queues := by
  cases asks <;> rfl

end Phase

namespace Worker

/-- The steps of the worker. -/
inductive Works [DecidableEq Caller] (expire : Nat → State → State) (now : Nat)
    (worker : Worker State Caller Answer) : Worker State Caller Answer → Prop
  | expired (isPhase : worker.phase = .top queues) (isOpen : queues ≠ .closed) :
      Works expire now worker
        { worker with
          phase := .first queues
          memory.state := expire now worker.memory.state
          acts := worker.acts ++ [.expired now] }
  | received {queue : Queue} {next others : OpenQueues} {pending : Phase State Caller Answer}
      {job : Job State Caller Answer} {rest : List (Job State Caller Answer)}
      (asks : worker.phase.Asks queue next others pending)
      (isEntries : (worker.channels queue).entries = job :: rest) :
      Works expire now worker
        { worker with
          channels := Function.update worker.channels queue
            { worker.channels queue with entries := rest }
          phase := .received job next
          taken := worker.taken ++ [(queue, job)] }
  | closed {queue : Queue} {next others : OpenQueues} {pending : Phase State Caller Answer}
      (asks : worker.phase.Asks queue next others pending) (drained : worker.Drained queue) :
      Works expire now worker { worker with phase := .top others }
  | pending (asks : worker.phase.Asks queue next others pending)
      (isEmpty : (worker.channels queue).entries = []) :
      Works expire now worker { worker with phase := pending }
  | woken (isPhase : worker.phase = .parked queues) :
      Works expire now worker { worker with phase := .first queues }
  | skipped {job : Job State Caller Answer} {next : OpenQueues}
      (isPhase : worker.phase = .received job next) (canceled : job.isCanceled worker.left) :
      Works expire now worker
        { worker with phase := .top next, acts := worker.acts ++ [.skipped job] }
  | begun (isPhase : worker.phase = .received job next)
      (awaited : job.isCanceled worker.left = false) :
      Works expire now worker { worker with phase := .running job next }
  | ran {job : Job State Caller Answer} {next : OpenQueues}
      (isPhase : worker.phase = .running job next) :
      Works expire now worker
        { worker with
          phase := .top next
          memory := job.run worker.memory
          acts := worker.acts ++ [.ran job] }
  | left (isPhase : worker.phase = .first .closed) :
      Works expire now worker { worker with phase := .top .closed }
  | stopped (isPhase : worker.phase = .top .closed) :
      Works expire now worker { worker with phase := .stopped }
  | ended (isPhase : worker.phase = .stopped) : Works expire now worker worker

variable {worker : Worker State Caller Answer}

theorem takenFrom_snoc {after : Worker State Caller Answer}
    (isTaken : after.taken = worker.taken ++ [(another, job)]) :
    after.takenFrom queue =
      if another = queue then worker.takenFrom queue ++ [job] else worker.takenFrom queue := by
  rw [takenFrom, isTaken, List.filter_append, List.map_append]
  split
  next same => simp [same, takenFrom]
  next different => simp [different, takenFrom]

theorem Accounts.of_phase {phase : Phase State Caller Answer} (accounts : worker.Accounts)
    (drained : ∀ queue, ¬ phase.queues.Has queue → worker.Drained queue)
    (memory : Memory State Caller Answer) (acts : List (Act State Caller Answer)) :
    ({ worker with phase, memory, acts } : Worker State Caller Answer).Accounts where
  admitted := accounts.admitted
  drained := drained

section Works

variable [DecidableEq Caller]

theorem works_ask (asks : worker.phase.Asks queue next others pending) :
    Works expire now worker (worker.ask queue next others pending) := by
  rw [ask, Channel.recv]
  cases isEntries : (worker.channels queue).entries with
  | cons job rest => exact .received asks isEntries
  | nil =>
    cases isClosed : (worker.channels queue).closed with
    | true => exact .closed asks ⟨isClosed, isEntries⟩
    | false => exact .pending asks isEntries

theorem works_work (now : Nat) (worker : Worker State Caller Answer) :
    Works expire now worker (worker.work expire now) := by
  rw [work]
  split
  next isPhase => exact .stopped isPhase
  next queues isOpen isPhase => exact .expired isPhase isOpen
  next priority isPhase => exact works_ask (isPhase ▸ .first priority)
  next priority isPhase => exact works_ask (isPhase ▸ .second priority)
  next queue isPhase => exact works_ask (isPhase ▸ .only queue)
  next isPhase => exact .left isPhase
  next queues isPhase => exact .woken isPhase
  next job next isPhase =>
    split
    next canceled => exact .skipped isPhase canceled
    next awaited => exact .begun isPhase (Bool.eq_false_of_not_eq_true awaited)
  next job next isPhase => exact .ran isPhase
  next isPhase => exact .ended isPhase

/-- A move of the worker loses no entry. -/
theorem Accounts.works {after : Worker State Caller Answer} (accounts : worker.Accounts)
    (works : Works expire now worker after) : after.Accounts := by
  have drained := accounts.drained
  cases works with
  | expired isPhase =>
    rw [isPhase] at drained
    refine accounts.of_phase ?_ _ _
    exact drained
  | @received queue next others pending job rest asks isEntries =>
    refine ⟨fun another => ?_, fun another missing => ?_⟩
    · have counted := accounts.admitted another
      rw [@takenFrom_snoc _ _ _ worker _ _ _ _ rfl]
      split
      next same =>
        subst same
        simp only [counted, isEntries, Function.update_self, List.append_assoc,
          List.singleton_append]
      next different =>
        simp only [counted, Function.update_of_ne (Ne.symm different)]
    · have isDrained := drained another fun has => missing (asks.has_next has)
      have different : another ≠ queue := by
        rintro rfl
        exact absurd (isEntries.symm.trans isDrained.2) (List.cons_ne_nil _ _)
      simpa only [Drained, Function.update_of_ne different] using isDrained
  | @closed queue _ _ _ asks isDrained =>
    refine accounts.of_phase (fun another missing => ?_) _ _
    by_cases same : another = queue
    · exact same ▸ isDrained
    · exact drained another fun has => missing (asks.has_others has same)
  | pending asks isEmpty =>
    exact accounts.of_phase (fun another missing =>
      drained another (asks.queues_pending ▸ missing)) _ _
  | woken isPhase | skipped isPhase | begun isPhase | ran isPhase | left isPhase
  | stopped isPhase =>
    rw [isPhase] at drained
    refine accounts.of_phase ?_ _ _
    exact drained
  | ended => exact accounts

theorem Accounts.step (accounts : worker.Accounts)
    (event : WorkerEvent State Caller Answer) : (worker.step expire event).Accounts := by
  cases event with
  | send queue job =>
    rw [Worker.step, send]
    split
    next => exact accounts
    next isOpen =>
      refine ⟨fun another => ?_, fun another missing => ?_⟩
      · by_cases same : another = queue
        · subst same
          simp only [Function.update_self, accounts.admitted another, List.append_assoc]
          rfl
        · simp only [Function.update_of_ne same]
          exact accounts.admitted another
      · have isDrained := accounts.drained another missing
        have different : another ≠ queue := by
          rintro rfl
          exact isOpen isDrained.1
        simpa only [Drained, Function.update_of_ne different] using isDrained
  | close queue =>
    refine ⟨fun another => ?_, fun another missing => ?_⟩
    · by_cases same : another = queue
      · subst same
        simp only [Worker.step, close, Function.update_self]
        exact accounts.admitted another
      · simp only [Worker.step, close, Function.update_of_ne same]
        exact accounts.admitted another
    · have isDrained := accounts.drained another missing
      by_cases same : another = queue
      · subst same
        simpa only [Worker.step, close, Drained, Function.update_self, true_and] using isDrained.2
      · simpa only [Worker.step, close, Drained, Function.update_of_ne same] using isDrained
  | leave caller => exact ⟨accounts.admitted, accounts.drained⟩
  | tick =>
    rw [Worker.step, tick]
    split
    next queues isPhase =>
      have drained := accounts.drained
      rw [isPhase] at drained
      refine accounts.of_phase ?_ _ _
      exact drained
    next => exact accounts
  | work now => exact accounts.works (works_work now worker)

theorem Accounts.run (accounts : worker.Accounts)
    (events : List (WorkerEvent State Caller Answer)) : (worker.run expire events).Accounts := by
  induction events generalizing worker with
  | nil => exact accounts
  | cons event events ih => exact ih (accounts.step event)

end Works

end Worker

/-- How many steps the worker makes at most until it takes an entry of the queue, if it is
about to ask the first of the open queues. -/
def OpenQueues.delay (queue : Queue) : OpenQueues → Nat
  | .both priority => if priority = queue then 1 else 6
  | .only _ => 1
  | .closed => 0

/-- How many steps the worker makes at most until it takes an entry of the queue. -/
def Phase.delay (queue : Queue) : Phase State Caller Answer → Nat
  | .top queues => queues.delay queue + 1
  | .first queues => queues.delay queue
  | .second priority => if priority = queue then 5 else 1
  | .parked queues => queues.delay queue + 1
  | .received _ next => next.delay queue + 3
  | .running _ next => next.delay queue + 2
  | .stopped => 0

/-- How many entries of the other queue the worker takes at most before it takes one of the
queue, if it is about to ask the first of the open queues. -/
def OpenQueues.overtakes (queue : Queue) : OpenQueues → Nat
  | .both priority => if priority = queue then 0 else 1
  | _ => 0

/-- How many entries of the other queue the worker takes at most before it takes one of the
queue. -/
def Phase.overtakes (queue : Queue) : Phase State Caller Answer → Nat
  | .second priority => if priority = queue then 1 else 0
  | phase => phase.queues.overtakes queue

theorem OpenQueues.delay_le (queue : Queue) (queues : OpenQueues) : queues.delay queue ≤ 6 := by
  cases queues with
  | both priority =>
    rw [delay]
    split <;> decide
  | only | closed => simp [delay]

theorem Phase.delay_le (queue : Queue) (phase : Phase State Caller Answer) :
    phase.delay queue ≤ 9 := by
  have bounded (queues : OpenQueues) := queues.delay_le queue
  cases phase with
  | top queues | first queues | parked queues | received _ queues | running _ queues =>
    have := bounded queues
    simp only [Phase.delay]
    omega
  | second priority =>
    rw [Phase.delay]
    split <;> decide
  | stopped => exact Nat.zero_le _

theorem Phase.overtakes_le (queue : Queue) (phase : Phase State Caller Answer) :
    phase.overtakes queue ≤ 1 := by
  have bounded (queues : OpenQueues) : queues.overtakes queue ≤ 1 := by
    cases queues with
    | both priority =>
      rw [OpenQueues.overtakes]
      split <;> decide
    | only | closed => exact Nat.zero_le _
  cases phase with
  | second priority =>
    rw [overtakes]
    split <;> decide
  | top queues | first queues | parked queues | received _ queues | running _ queues =>
    exact bounded queues
  | stopped => exact bounded .closed

namespace Phase

variable {phase pending : Phase State Caller Answer}

/-- A worker that asks another queue than this one gets closer to asking this one. -/
theorem Asks.waits (asks : phase.Asks another next others pending) (has : phase.queues.Has queue)
    (different : another ≠ queue) :
    next.delay queue + 3 < phase.delay queue ∧
    others.delay queue + 1 < phase.delay queue ∧
    pending.delay queue < phase.delay queue ∧
    next.overtakes queue + 1 ≤ phase.overtakes queue ∧
    others.overtakes queue ≤ phase.overtakes queue ∧
    pending.overtakes queue ≤ phase.overtakes queue := by
  cases asks with
  | first =>
    obtain rfl := (another.eq_or_eq_other queue).resolve_left different
    simp [delay, overtakes, queues, OpenQueues.delay, OpenQueues.overtakes, different]
  | second priority =>
    have isPriority : priority = queue := by
      have := (priority.other.eq_or_eq_other queue).resolve_left different
      simpa using congrArg Queue.other this
    subst isPriority
    simp [delay, overtakes, queues, OpenQueues.delay, OpenQueues.overtakes]
  | only => exact absurd has different

end Phase

namespace Worker

variable {worker : Worker State Caller Answer}

/-- The head of a queue waits: it is still there, and the worker has got no further away from
it; whatever it took from the other queue it had leave to. -/
structure Waits (queue : Queue) (worker after : Worker State Caller Answer) : Prop where
  taken : after.takenFrom queue = worker.takenFrom queue
  entries : (worker.channels queue).entries <+: (after.channels queue).entries
  delay : after.phase.delay queue ≤ worker.phase.delay queue
  overtakes : (after.takenFrom queue.other).length + after.phase.overtakes queue ≤
    (worker.takenFrom queue.other).length + worker.phase.overtakes queue

variable [DecidableEq Caller]

/-- A move takes the head of a queue or brings it closer. -/
theorem Works.takes_or_waits (works : Works expire now worker after)
    (accounts : worker.Accounts) (isEntries : (worker.channels queue).entries = head :: rest) :
    after.takenFrom queue = worker.takenFrom queue ++ [head] ∧
      (after.channels queue).entries = rest ∧ after.phase.delay queue ≤ 9 ∨
    worker.Waits queue after ∧ after.phase.delay queue < worker.phase.delay queue := by
  -- A queue with an entry is open.
  have has : worker.phase.queues.Has queue := by
    by_contra missing
    exact absurd (isEntries.symm.trans (accounts.drained queue missing).2) (List.cons_ne_nil _ _)
  have asked {another : Queue} (isEmpty : (worker.channels another).entries = []) :
      another ≠ queue := by
    rintro rfl
    exact absurd (isEntries.symm.trans isEmpty) (List.cons_ne_nil _ _)
  cases works with
  | expired isPhase =>
    refine .inr ⟨⟨rfl, List.prefix_rfl, ?_, ?_⟩, ?_⟩
    all_goals simp [isPhase, Phase.delay, Phase.overtakes, Phase.queues, takenFrom]
  | @received another next others pending job rest' asks isEntries' =>
    by_cases same : another = queue
    · subst same
      obtain ⟨rfl, rfl⟩ := List.cons.inj (isEntries'.symm.trans isEntries)
      refine .inl ⟨?_, by simp only [Function.update_self], ?_⟩
      · rw [@takenFrom_snoc _ _ _ worker _ _ _ _ rfl, if_pos rfl]
      · have := OpenQueues.delay_le another next
        simp only [Phase.delay]
        omega
    · obtain ⟨closer, -, -, fewer, -, -⟩ := asks.waits has same
      have isOther : another = queue.other := (another.eq_or_eq_other queue).resolve_left same
      refine .inr ⟨⟨?_, ?_, Nat.le_of_lt closer, ?_⟩, closer⟩
      · rw [@takenFrom_snoc _ _ _ worker _ _ _ _ rfl, if_neg same]
      · simp only [Function.update_of_ne (Ne.symm same)]
        exact List.prefix_rfl
      · rw [@takenFrom_snoc _ _ _ worker _ _ _ _ rfl, if_pos isOther, List.length_append]
        change _ + 1 + next.overtakes queue ≤ _
        omega
  | closed asks isDrained =>
    obtain ⟨-, closer, -, -, fewer, -⟩ := asks.waits has (asked isDrained.2)
    exact .inr ⟨⟨rfl, List.prefix_rfl, Nat.le_of_lt closer, Nat.add_le_add_left fewer _⟩, closer⟩
  | pending asks isEmpty =>
    obtain ⟨-, -, closer, -, -, fewer⟩ := asks.waits has (asked isEmpty)
    exact .inr ⟨⟨rfl, List.prefix_rfl, Nat.le_of_lt closer, Nat.add_le_add_left fewer _⟩, closer⟩
  | woken isPhase | skipped isPhase | begun isPhase | ran isPhase =>
    refine .inr ⟨⟨rfl, List.prefix_rfl, ?_, ?_⟩, ?_⟩
    all_goals simp [isPhase, Phase.delay, Phase.overtakes, Phase.queues, takenFrom]
  | left isPhase | stopped isPhase | ended isPhase =>
    rw [isPhase] at has
    exact has.elim

theorem waits_of_idle
    (idle : ∀ now, event ≠ .work now) : worker.Waits queue (worker.step expire event) := by
  cases event with
  | send another job =>
    rw [Worker.step, send]
    split
    next => exact ⟨rfl, List.prefix_rfl, le_rfl, le_rfl⟩
    next =>
      refine ⟨rfl, ?_, le_rfl, le_rfl⟩
      by_cases same : queue = another
      · subst same
        simp only [Function.update_self]
        exact List.prefix_append _ _
      · simp only [Function.update_of_ne same]
        exact List.prefix_rfl
  | close another =>
    refine ⟨rfl, ?_, le_rfl, le_rfl⟩
    by_cases same : queue = another
    · subst same
      simp only [Worker.step, close, Function.update_self]
      exact List.prefix_rfl
    · simp only [Worker.step, close, Function.update_of_ne same]
      exact List.prefix_rfl
  | leave caller => exact ⟨rfl, List.prefix_rfl, le_rfl, le_rfl⟩
  | tick =>
    rw [Worker.step, tick]
    split
    next queues isPhase =>
      refine ⟨rfl, List.prefix_rfl, ?_, ?_⟩
      all_goals simp [isPhase, Phase.delay, Phase.overtakes, Phase.queues, takenFrom]
    next => exact ⟨rfl, List.prefix_rfl, le_rfl, le_rfl⟩
  | work now => exact absurd rfl (idle now)

end Worker

end Mnesis.Fjall
