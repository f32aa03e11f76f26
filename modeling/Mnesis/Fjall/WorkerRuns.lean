import Mnesis.Fjall.WorkerSteps

/-!
# The worker serves both queues

What the worker does is recorded, and along every run the record tells what has become of
each entry: a job whose caller has left is left out, and a job that was begun is run to its
end.
-/

namespace Mnesis.Fjall

variable {State Caller Answer : Type}

/-- What an act does to the memory of the worker. -/
def Act.apply (expire : Nat → State → State) (memory : Memory State Caller Answer) :
    Act State Caller Answer → Memory State Caller Answer
  | .expired now => { memory with state := expire now memory.state }
  | .skipped _ => memory
  | .ran job => job.run memory

/-- The job that an act is about. -/
def Act.job : Act State Caller Answer → Option (Job State Caller Answer)
  | .expired _ => none
  | .skipped job => some job
  | .ran job => some job

/-- The job that the worker has taken but not done with. -/
def Phase.inHand : Phase State Caller Answer → List (Job State Caller Answer)
  | .received job _ => [job]
  | .running job _ => [job]
  | _ => []

/-- The job that the worker has begun. -/
def Phase.owed : Phase State Caller Answer → List (Act State Caller Answer)
  | .running job _ => [.ran job]
  | _ => []

/-- The event is a step of the worker. -/
def WorkerEvent.isWork : WorkerEvent State Caller Answer → Bool
  | .work _ => true
  | .send _ _ => false
  | .close _ => false
  | .leave _ => false
  | .tick => false

theorem WorkerEvent.exists_of_isWork {event : WorkerEvent State Caller Answer}
    (isWork : event.isWork = true) : ∃ now, event = .work now := by
  cases event with
  | work now => exact ⟨now, rfl⟩
  | send | close | leave | tick => exact absurd isWork Bool.false_ne_true

theorem Phase.Asks.inHand {phase : Phase State Caller Answer}
    (asks : phase.Asks queue next others pending) : phase.inHand = [] := by
  cases asks <;> rfl

theorem Phase.Asks.inHand_pending {phase : Phase State Caller Answer}
    (asks : phase.Asks queue next others pending) : pending.inHand = [] := by
  cases asks <;> rfl

theorem Phase.Asks.owed {phase : Phase State Caller Answer}
    (asks : phase.Asks queue next others pending) : phase.owed = [] := by
  cases asks <;> rfl

theorem Phase.Asks.owed_pending {phase : Phase State Caller Answer}
    (asks : phase.Asks queue next others pending) : pending.owed = [] := by
  cases asks <;> rfl

section Departed

variable [DecidableEq Caller]

/-- The act does not run a job for one of these callers. -/
def Act.Spares (left : List Caller) : Act State Caller Answer → Prop
  | .ran job => job.isCanceled left = false
  | _ => True

theorem Job.isCanceled_of_subset {job : Job State Caller Answer} (subset : left ⊆ more)
    (awaited : job.isCanceled more = false) : job.isCanceled left = false := by
  cases job with
  | submitted caller =>
    simp only [isCanceled, decide_eq_false_iff_not] at awaited ⊢
    exact fun isLeft => awaited (subset isLeft)
  | cleanup => rfl

/-- What the worker has taken and done since some moment.  The job that had been begun is the
first to be done, and no other job is run for a caller that had left by then. -/
structure Worker.Since (expire : Nat → State → State) (base worker : Worker State Caller Answer)
    (worked : Bool) (taken : List (Queue × Job State Caller Answer))
    (acts : List (Act State Caller Answer)) : Prop where
  isTaken : worker.taken = base.taken ++ taken
  isActs : worker.acts = base.acts ++ acts
  isMemory : worker.memory = acts.foldl (Act.apply expire) base.memory
  jobs : base.phase.inHand ++ taken.map Prod.snd = acts.filterMap Act.job ++ worker.phase.inHand
  left : base.left ⊆ worker.left
  begun : worked = false ∧ acts = [] ∧ worker.phase.owed = base.phase.owed ∨
    ∃ later, acts = base.phase.owed ++ later ∧
      ∀ act ∈ later ++ worker.phase.owed, act.Spares base.left

namespace Worker

variable {base worker after : Worker State Caller Answer}
    {taken : List (Queue × Job State Caller Answer)}
  {acts : List (Act State Caller Answer)}

theorem since_refl (worker : Worker State Caller Answer) :
    worker.Since expire worker false [] [] where
  isTaken := (List.append_nil _).symm
  isActs := (List.append_nil _).symm
  isMemory := rfl
  jobs := List.append_nil _
  left := List.Subset.refl _
  begun := .inl ⟨rfl, rfl, rfl⟩

theorem Since.idle (since : base.Since expire worker worked taken acts)
    (isTaken : after.taken = worker.taken) (isActs : after.acts = worker.acts)
    (isMemory : after.memory = worker.memory) (inHand : after.phase.inHand = worker.phase.inHand)
    (owed : after.phase.owed = worker.phase.owed)
    (left : worker.left ⊆ after.left) : base.Since expire after worked taken acts where
  isTaken := isTaken.trans since.isTaken
  isActs := isActs.trans since.isActs
  isMemory := isMemory.trans since.isMemory
  jobs := inHand ▸ since.jobs
  left := List.Subset.trans since.left left
  begun := owed ▸ since.begun

theorem Since.of_owes_nothing (since : base.Since expire worker worked taken acts)
    (owed : worker.phase.owed = []) :
    ∃ later, acts = base.phase.owed ++ later ∧ ∀ act ∈ later, act.Spares base.left := by
  obtain ⟨-, rfl, isOwed⟩ | ⟨later, isActs, spares⟩ := since.begun
  · exact ⟨[], by rw [← isOwed, owed]; rfl, List.forall_mem_nil _⟩
  · exact ⟨later, isActs, fun act isLater => spares act (List.mem_append_left _ isLater)⟩

theorem Since.of_owes
    (since : base.Since expire worker worked taken acts) (owed : worker.phase.owed = [.ran job]) :
    ∃ later, acts ++ [.ran job] = base.phase.owed ++ later ∧
      ∀ act ∈ later, act.Spares base.left := by
  obtain ⟨-, rfl, isOwed⟩ | ⟨later, rfl, spares⟩ := since.begun
  · exact ⟨[], by rw [← isOwed, owed]; rfl, List.forall_mem_nil _⟩
  · exact ⟨later ++ [.ran job], List.append_assoc _ _ _, owed ▸ spares⟩

/-- An act ends what the worker had in hand. -/
theorem Since.act {act : Act State Caller Answer} {phase : Phase State Caller Answer}
    (since : base.Since expire worker worked taken acts)
    (inHand : worker.phase.inHand = act.job.toList) (empty : phase.inHand = [])
    (idle : phase.owed = [])
    (begun : ∃ later, acts ++ [act] = base.phase.owed ++ later ∧
      ∀ act ∈ later, act.Spares base.left) :
    base.Since expire
      { worker with
        phase
        memory := act.apply expire worker.memory
        acts := worker.acts ++ [act] }
      true taken (acts ++ [act]) where
  isTaken := since.isTaken
  isActs := by rw [since.isActs, List.append_assoc]
  isMemory := by rw [since.isMemory, List.foldl_append]; rfl
  jobs := by
    rw [since.jobs, inHand, List.filterMap_append, empty, List.append_nil]
    cases isJob : act.job <;> simp [isJob]
  left := since.left
  begun := by
    simp only [idle, List.append_nil]
    exact .inr begun

theorem Since.moves {phase : Phase State Caller Answer}
    (since : base.Since expire worker worked taken acts) (owed : worker.phase.owed = [])
    (inHand : phase.inHand = worker.phase.inHand)
    (spares : ∀ act ∈ phase.owed, act.Spares base.left) :
    base.Since expire { worker with phase } true taken acts where
  isTaken := since.isTaken
  isActs := since.isActs
  isMemory := since.isMemory
  jobs := inHand ▸ since.jobs
  left := since.left
  begun := by
    obtain ⟨later, isActs, allSpare⟩ := since.of_owes_nothing owed
    exact .inr ⟨later, isActs, List.forall_mem_append.mpr ⟨allSpare, spares⟩⟩

/-- A move of the worker is recorded. -/
theorem Since.works (since : base.Since expire worker worked taken acts)
    (works : Works expire now worker after) :
    ∃ taken acts, base.Since expire after true taken acts := by
  have spared
      (owed : worker.phase.owed = [])
      (act : Act State Caller Answer)
      (spares : act.Spares base.left) :
      ∃ later, acts ++ [act] = base.phase.owed ++ later ∧ ∀ act ∈ later, act.Spares base.left := by
    obtain ⟨later, rfl, allSpare⟩ := since.of_owes_nothing owed
    refine ⟨later ++ [act], List.append_assoc _ _ _, ?_⟩
    exact List.forall_mem_append.mpr ⟨allSpare, List.forall_mem_singleton.mpr spares⟩
  cases works with
  | expired isPhase =>
    have isHand : worker.phase.inHand = [] := by rw [isPhase]; rfl
    have owed : worker.phase.owed = [] := by rw [isPhase]; rfl
    exact ⟨taken, _, @Since.act _ _ _ _ _ _ _ _ _ _ (.expired now) _ since isHand rfl rfl
      (spared owed _ trivial)⟩
  | @received queue _ _ _ job _ asks =>
    obtain ⟨later, isActs, allSpare⟩ := since.of_owes_nothing asks.owed
    refine ⟨taken ++ [(queue, job)], acts, ?_, since.isActs, since.isMemory, ?_, since.left, ?_⟩
    · rw [since.isTaken, List.append_assoc]
    · rw [List.map_append, ← List.append_assoc, since.jobs, asks.inHand, List.append_nil]
      rfl
    · exact .inr ⟨later, isActs, (List.append_nil later).symm ▸ allSpare⟩
  | closed asks =>
    exact ⟨taken, acts, since.moves asks.owed asks.inHand.symm (List.forall_mem_nil _)⟩
  | pending asks =>
    refine ⟨taken, acts, since.moves asks.owed ?_ ?_⟩
    · rw [asks.inHand, asks.inHand_pending]
    · rw [asks.owed_pending]
      exact List.forall_mem_nil _
  | @skipped job _ isPhase =>
    have isHand : worker.phase.inHand = [job] := by rw [isPhase]; rfl
    have owed : worker.phase.owed = [] := by rw [isPhase]; rfl
    exact ⟨taken, _, @Since.act _ _ _ _ _ _ _ _ _ _ (.skipped _) _ since isHand rfl rfl
      (spared owed _ trivial)⟩
  | begun isPhase awaited =>
    have owed : worker.phase.owed = [] := by rw [isPhase]; rfl
    refine ⟨taken, acts, since.moves owed (by rw [isPhase]; rfl) ?_⟩
    exact List.forall_mem_singleton.mpr (Job.isCanceled_of_subset since.left awaited)
  | @ran job _ isPhase =>
    have isHand : worker.phase.inHand = [job] := by rw [isPhase]; rfl
    have owed : worker.phase.owed = [.ran job] := by rw [isPhase]; rfl
    exact ⟨taken, _, @Since.act _ _ _ _ _ _ _ _ _ _ (.ran _) _ since isHand rfl rfl
      (since.of_owes owed)⟩
  | woken isPhase | left isPhase | stopped isPhase =>
    have owed : worker.phase.owed = [] := by rw [isPhase]; rfl
    exact ⟨taken, acts, since.moves owed (by rw [isPhase]; rfl) (List.forall_mem_nil _)⟩
  | ended isPhase =>
    have owed : worker.phase.owed = [] := by rw [isPhase]; rfl
    exact ⟨taken, acts, since.moves owed rfl (owed ▸ List.forall_mem_nil _)⟩

theorem Since.step (since : base.Since expire worker worked taken acts)
    (event : WorkerEvent State Caller Answer) :
    ∃ taken acts,
      base.Since expire (worker.step expire event) (worked || event.isWork) taken acts := by
  cases event with
  | send queue job =>
    refine ⟨taken, acts, ?_⟩
    rw [Worker.step, send, WorkerEvent.isWork, Bool.or_false]
    split
    next => exact since
    next => exact since.idle rfl rfl rfl rfl rfl (List.Subset.refl _)
  | close queue =>
    rw [WorkerEvent.isWork, Bool.or_false]
    exact ⟨taken, acts, since.idle rfl rfl rfl rfl rfl (List.Subset.refl _)⟩
  | leave caller =>
    rw [WorkerEvent.isWork, Bool.or_false]
    exact ⟨taken, acts, since.idle rfl rfl rfl rfl rfl (List.subset_cons_self _ _)⟩
  | tick =>
    refine ⟨taken, acts, ?_⟩
    rw [Worker.step, tick, WorkerEvent.isWork, Bool.or_false]
    split
    next isPhase =>
      refine since.idle rfl rfl rfl ?_ ?_ (List.Subset.refl _)
      · rw [isPhase]; rfl
      · rw [isPhase]; rfl
    next => exact since
  | work now =>
    rw [WorkerEvent.isWork, Bool.or_true]
    exact since.works (works_work now worker)

theorem exists_since_run (expire : Nat → State → State) (worker : Worker State Caller Answer)
    (events : List (WorkerEvent State Caller Answer)) :
    ∃ taken acts,
      worker.Since expire (worker.run expire events) (events.any WorkerEvent.isWork) taken
        acts := by
  induction events using List.reverseRecOn with
  | nil => exact ⟨[], [], since_refl worker⟩
  | append_singleton events event ih =>
    obtain ⟨taken, acts, since⟩ := ih
    rw [run, List.foldl_append, List.any_append, List.any_cons, List.any_nil, Bool.or_false]
    exact since.step event

theorem takenFrom_run (events : List (WorkerEvent State Caller Answer)) :
    worker.takenFrom queue <+: (worker.run expire events).takenFrom queue := by
  obtain ⟨taken, _, since⟩ := exists_since_run expire worker events
  rw [takenFrom, takenFrom, since.isTaken, List.filter_append, List.map_append]
  exact List.prefix_append _ _

/-- Entries are taken within a bounded number of moves. -/
theorem Accounts.takes {queue : Queue} (accounts : worker.Accounts)
    (queued : wanted <+: (worker.channels queue).entries)
    (enough : 10 * wanted.length + worker.phase.delay queue ≤ events.countP WorkerEvent.isWork) :
    worker.takenFrom queue ++ wanted <+: (worker.run expire events).takenFrom queue := by
  induction events generalizing worker wanted with
  | nil =>
    have isEmpty : wanted.length = 0 := by
      rw [List.countP_nil] at enough
      omega
    rw [List.length_eq_zero_iff.mp isEmpty, List.append_nil]
    exact takenFrom_run []
  | cons event events ih =>
    cases wanted with
    | nil =>
      rw [List.append_nil]
      exact takenFrom_run _
    | cons head wanted =>
      obtain ⟨rest, isEntries⟩ := queued
      rw [List.countP_cons] at enough
      by_cases isWork : event.isWork
      · obtain ⟨now, rfl⟩ := WorkerEvent.exists_of_isWork isWork
        rw [if_pos isWork, List.length_cons] at enough
        obtain ⟨isTaken, isRest, soon⟩ | ⟨waits, closer⟩ :=
          (works_work now worker).takes_or_waits accounts isEntries.symm
        · have later := ih (accounts.step (.work now)) ⟨rest, isRest.symm⟩ (by
            change _ + (worker.work expire now).phase.delay queue ≤ _
            omega)
          rw [Worker.step, isTaken, List.append_assoc] at later
          exact later
        · have later := ih (accounts.step (.work now))
            (List.IsPrefix.trans ⟨rest, isEntries⟩ waits.entries) (by
              change _ + (worker.work expire now).phase.delay queue ≤ _
              rw [List.length_cons]
              omega)
          rw [Worker.step, waits.taken] at later
          exact later
      · rw [if_neg isWork] at enough
        have waits : worker.Waits queue (worker.step expire event) :=
          waits_of_idle fun now isNow => isWork (isNow ▸ rfl)
        have later := ih (accounts.step event)
          (List.IsPrefix.trans ⟨rest, isEntries⟩ waits.entries)
          ((Nat.add_le_add_left waits.delay _).trans enough)
        rw [waits.taken] at later
        exact later

/-- The head of a queue is overtaken at most once. -/
theorem Accounts.overtaken {queue : Queue}
    (accounts : worker.Accounts) (queued : (worker.channels queue).entries ≠ [])
    (waiting : (worker.run expire events).takenFrom queue = worker.takenFrom queue) :
    ((worker.run expire events).takenFrom queue.other).length ≤
      (worker.takenFrom queue.other).length + worker.phase.overtakes queue := by
  induction events generalizing worker with
  | nil => exact Nat.le_add_right _ _
  | cons event events ih =>
    -- No step of the worker took the head, for what is taken is never given back.
    have waits : worker.Waits queue (worker.step expire event) := by
      by_cases isWork : event.isWork
      · obtain ⟨now, rfl⟩ := WorkerEvent.exists_of_isWork isWork
        obtain ⟨head, rest, isEntries⟩ := List.exists_cons_of_ne_nil queued
        obtain ⟨isTaken, -, -⟩ | ⟨waits, -⟩ :=
          (works_work now worker).takes_or_waits accounts isEntries
        · have kept : (worker.work expire now).takenFrom queue <+: worker.takenFrom queue :=
            waiting ▸ takenFrom_run events
          have shorter := kept.length_le
          rw [isTaken, List.length_append, List.length_singleton] at shorter
          omega
        · exact waits
      · exact waits_of_idle fun now isNow => isWork (isNow ▸ rfl)
    have stillQueued : ((worker.step expire event).channels queue).entries ≠ [] := by
      intro isEmpty
      exact queued (List.prefix_nil.mp (isEmpty ▸ waits.entries))
    have later := ih (accounts.step event) stillQueued (waiting.trans waits.taken.symm)
    exact later.trans waits.overtakes

/-- The worker serves both of its queues.

* `inOrder`: the entries of a queue are taken in the order in which they were admitted, and
  each one is taken once.
* `takesAll`: they are all taken if the worker makes enough steps.
* `overtaken`: while the head of a queue waits, at most one entry of the other queue is taken.
* `handled`: each entry that was taken is left out or run, one after the other.
* `departed`: no job is begun for a caller that has left, so that it has no effect.
* `answers`: a job of a caller that was begun is run to its end: it leaves its state to the
  worker and its answer to the caller.
* `cleans`: so is a cleanup, which has no answer.
* `stops`: the worker stops only when both queues are closed and empty. -/
structure Serves (expire : Nat → State → State) (worker : Worker State Caller Answer) : Prop where
  inOrder : ∀ queue,
    worker.admitted queue = worker.takenFrom queue ++ (worker.channels queue).entries
  takesAll : ∀ queue (events : List (WorkerEvent State Caller Answer)),
    10 * ((worker.channels queue).entries.length + 1) ≤ events.countP WorkerEvent.isWork →
    worker.admitted queue <+: (worker.run expire events).takenFrom queue
  overtaken : ∀ queue (events : List (WorkerEvent State Caller Answer)),
    (worker.channels queue).entries ≠ [] →
    (worker.run expire events).takenFrom queue = worker.takenFrom queue →
    ((worker.run expire events).takenFrom queue.other).length ≤
      (worker.takenFrom queue.other).length + 1
  handled : worker.taken.map Prod.snd = worker.acts.filterMap Act.job ++ worker.phase.inHand
  departed : ∀ (events : List (WorkerEvent State Caller Answer)) caller operation,
    caller ∈ worker.left →
    (∀ next, worker.phase ≠ .running (.submitted caller operation) next) →
    ∃ acts, (worker.run expire events).acts = worker.acts ++ acts ∧
      (worker.run expire events).memory = acts.foldl (Act.apply expire) worker.memory ∧
      .ran (.submitted caller operation) ∉ acts
  answers : ∀ (events : List (WorkerEvent State Caller Answer)) caller operation next,
    worker.phase = .running (.submitted caller operation) next →
    events.any WorkerEvent.isWork = true →
    ∃ acts,
      (worker.run expire events).acts = worker.acts ++ .ran (.submitted caller operation) :: acts ∧
      (worker.run expire events).memory = acts.foldl (Act.apply expire)
        ⟨(operation worker.memory.state).2, worker.memory.sent ++
          [(caller, (operation worker.memory.state).1.mapError workerPanicked)]⟩
  cleans : ∀ (events : List (WorkerEvent State Caller Answer)) operation next,
    worker.phase = .running (.cleanup operation) next →
    events.any WorkerEvent.isWork = true →
    ∃ acts, (worker.run expire events).acts = worker.acts ++ .ran (.cleanup operation) :: acts ∧
      (worker.run expire events).memory = acts.foldl (Act.apply expire)
        ⟨operation worker.memory.state, worker.memory.sent⟩
  stops : worker.phase = .stopped → ∀ queue, worker.Drained queue

/-- A job is not begun for a caller that has left. -/
theorem departed_of_left
    (events : List (WorkerEvent State Caller Answer)) (isLeft : caller ∈ worker.left)
    (notBegun : ∀ next, worker.phase ≠ .running (.submitted caller operation) next) :
    ∃ acts, (worker.run expire events).acts = worker.acts ++ acts ∧
      (worker.run expire events).memory = acts.foldl (Act.apply expire) worker.memory ∧
      .ran (.submitted caller operation) ∉ acts := by
  obtain ⟨_, acts, since⟩ := exists_since_run expire worker events
  refine ⟨acts, since.isActs, since.isMemory, fun isRan => ?_⟩
  obtain ⟨-, rfl, -⟩ | ⟨later, rfl, spares⟩ := since.begun
  · exact absurd isRan List.not_mem_nil
  · obtain isOwed | isLater := List.mem_append.mp isRan
    · cases isPhase : worker.phase with
      | running job next =>
        rw [isPhase] at isOwed
        have isJob := Act.ran.inj (List.mem_singleton.mp isOwed)
        exact notBegun next (isJob ▸ isPhase)
      | _ =>
        rw [isPhase] at isOwed
        exact List.not_mem_nil isOwed
    · have isAwaited := spares _ (List.mem_append_left _ isLater)
      rw [Act.Spares, Job.isCanceled, decide_eq_false_iff_not] at isAwaited
      exact isAwaited isLeft

theorem finishes_of_running (isPhase : worker.phase = .running job next)
    (isWork : events.any WorkerEvent.isWork = true) :
    ∃ acts, (worker.run expire events).acts = worker.acts ++ .ran job :: acts ∧
      (worker.run expire events).memory =
        acts.foldl (Act.apply expire) (job.run worker.memory) := by
  obtain ⟨_, acts, since⟩ := exists_since_run expire worker events
  obtain ⟨idle, -, -⟩ | ⟨later, rfl, -⟩ := since.begun
  · exact absurd (idle.symm.trans isWork) Bool.false_ne_true
  · have owed : worker.phase.owed = [.ran job] := by rw [isPhase]; rfl
    have isActs := since.isActs
    have isMemory := since.isMemory
    rw [owed] at isActs isMemory
    exact ⟨later, isActs, isMemory⟩

/-- In every run the worker takes the entries of both queues in order, and runs or leaves out
each of them. -/
theorem worker_serves_its_queues (expire : Nat → State → State) (state : State)
    (events : List (WorkerEvent State Caller Answer)) :
    ((new state).run expire events).Serves expire := by
  have accounts : ((new state).run expire events).Accounts := (accounts_new state).run events
  constructor
  case inOrder => exact accounts.admitted
  case takesAll =>
    intro queue later enough
    rw [accounts.admitted]
    refine accounts.takes List.prefix_rfl ?_
    have := Phase.delay_le queue ((new state).run expire events).phase
    omega
  case overtaken =>
    intro queue events queued waiting
    exact (accounts.overtaken queued waiting).trans
      (Nat.add_le_add_left (Phase.overtakes_le queue _) _)
  case handled =>
    obtain ⟨taken, acts, since⟩ := exists_since_run expire (new state) events
    rw [since.isTaken, since.isActs]
    exact since.jobs
  case departed =>
    intro events caller operation isLeft notBegun
    exact departed_of_left events isLeft notBegun
  case answers =>
    intro events caller operation next isPhase isWork
    exact finishes_of_running isPhase isWork
  case cleans =>
    intro events operation next isPhase isWork
    exact finishes_of_running isPhase isWork
  case stops =>
    intro isPhase queue
    refine accounts.drained queue ?_
    rw [isPhase]
    exact id

end Worker

end Departed

end Mnesis.Fjall
