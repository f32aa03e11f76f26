import Mnesis.Subscriptions.Registry

/-!
# Waits on the wake registry

Registrations come and go, waits are armed on those that are alive, and the halves of
wakes come between them, all in any order.  A wait may outlive its registration.  If the
entry of its stream is removed meanwhile its channel is closed, and an entry that is
created later has another channel.
-/

namespace Mnesis.Subscriptions.Wakes

open Foundation Store StreamNotifiers

/-- The registry, the registrations that are alive, and the waits that were armed. -/
structure World where
  notifiers : StreamNotifiers
  alive : List (Target × WakeReg)
  waits : List (Target × Receiver)

/-- What happens: a target is registered, a wait is armed on a registration, a registration
is dropped, or one half of a wake is done. -/
inductive WakeEvent
  | register (target : Target)
  | arm (held : Target × WakeReg)
  | drop (held : Target × WakeReg)
  | wakeStream (stream : StreamKey)
  | wakeAll

namespace World

def new : World := ⟨.new, [], []⟩

/-- One event.  Only registrations that are alive are armed and dropped. -/
def step (world : World) : WakeEvent → World
  | .register target =>
    match world.notifiers.register target.key with
    | (.ok registration, notifiers) =>
      { world with notifiers, alive := (target, registration) :: world.alive }
    | (.error _, notifiers) => { world with notifiers }
  | .arm held =>
    if held ∈ world.alive then
      { world with waits := (held.1, held.2.arm world.notifiers) :: world.waits }
    else
      world
  | .drop held =>
    if held ∈ world.alive then
      { world with
        notifiers := held.2.drop world.notifiers
        alive := world.alive.erase held }
    else
      world
  | .wakeStream stream => { world with notifiers := world.notifiers.wakeStream stream }
  | .wakeAll => { world with notifiers := world.notifiers.wakeAll }

/-- Some events. -/
def run (world : World) (events : List WakeEvent) : World := events.foldl step world

/-- How many registrations of a stream are alive. -/
def live (world : World) (stream : StreamKey) : Nat :=
  world.alive.countP fun held => held.1 = .stream stream

end World

variable {notifiers after : StreamNotifiers}
section

variable (moves : Moves notifiers after)
include moves

/-- A route stays, or its channel is closed. -/
theorem routes_of_moves (routes : Routes notifiers target reference) :
    Routes after target reference ∨ (after.channel reference).any Channel.closed = true := by
  cases moves with
  | stay => exact .inl routes
  | bump index => exact .inl (routes.channels (by simp))
  | all => exact .inl routes.wakeAll
  | recount entered => exact .inl (routes.enter entered rfl)
  | @insert stream missing =>
    refine .inl ((routes.channels (by simp)).enter_of_ne ?_)
    rintro rfl
    cases routes with
    | stream entered => simp [missing] at entered
  | @remove entry stream entered =>
    by_cases own : target = .stream stream
    · subst own
      cases routes with
      | stream isEntry created =>
        cases entered.symm.trans isEntry
        exact .inr (by simp [StreamNotifiers.remove, channel, enter, Channel.close, created])
    · exact .inl ((routes.channels (by simp)).enter_of_ne own)

theorem entries_of_moves : ∃ fresh, ∀ stream entry, after.map stream = some entry →
    (∃ old, notifiers.map stream = some old ∧ old.genTx = entry.genTx) ∨
      stream = fresh ∧ entry.genTx = notifiers.channels.length := by
  cases moves with
  | stay | bump | all => exact ⟨[], fun _ entry isEntry => .inl ⟨entry, isEntry, rfl⟩⟩
  | @recount _ _ id | @insert id | @remove _ id =>
    refine ⟨id, fun stream entry isEntry => ?_⟩
    simp only [StreamNotifiers.remove, map_enter] at isEntry
    grind

theorem nonzero_of_moves
    (before : ∀ stream entry, notifiers.map stream = some entry → entry.subscribers ≠ 0)
    (stream : StreamKey) (entry : Entry) (isEntry : after.map stream = some entry) :
    entry.subscribers ≠ 0 := by
  cases moves with
  | stay | bump | all => exact before stream entry isEntry
  | recount | insert | remove =>
    simp only [StreamNotifiers.remove, map_enter] at isEntry
    grind

end

/-- A wait that was armed on a target.  Its channel is routed or closed, and no other stream has
it. -/
structure Waits (notifiers : StreamNotifiers) (target : Target) (receiver : Receiver) : Prop where
  reached : ∃ channel, notifiers.channel receiver.channel = some channel ∧
    receiver.seen ≤ channel.changes ∧
      (Routes notifiers target receiver.channel ∨ channel.closed = true)
  owned : ∀ stream entry, notifiers.map stream = some entry →
    receiver.channel = .entry entry.genTx → target = .stream stream
  all : receiver.channel = .all ↔ target = .all

theorem Waits.move (waits : Waits notifiers target receiver) (moves : Moves notifiers after) :
    Waits after target receiver where
  reached := by
    obtain ⟨channel, isChannel, seen, reached⟩ := waits.reached
    obtain ⟨later, isLater, more, closed⟩ := moves.keeps isChannel
    refine ⟨later, isLater, Nat.le_trans seen more, ?_⟩
    rcases reached with routes | isClosed
    · simpa [isLater] using routes_of_moves moves routes
    · exact .inr (closed isClosed)
  owned stream entry entered isChannel := by
    obtain ⟨fresh, entries⟩ := entries_of_moves moves
    rcases entries stream entry entered with ⟨old, isOld, same⟩ | ⟨_, isNew⟩
    · exact waits.owned stream old isOld (same ▸ isChannel)
    · obtain ⟨found, isFound, _⟩ := waits.reached
      simp [isChannel, isNew, channel] at isFound
  all := waits.all

theorem signalled_iff (isChannel : notifiers.channel receiver.channel = some found) :
    notifiers.signalled receiver ↔ found.changes ≠ receiver.seen ∨ found.closed = true := by
  simp [StreamNotifiers.signalled, changes, isChannel]

theorem Waits.signalled (waits : Waits notifiers target receiver) (moves : Moves notifiers after)
    (signalled : notifiers.signalled receiver) : after.signalled receiver := by
  obtain ⟨channel, isChannel, seen, _⟩ := waits.reached
  obtain ⟨later, isLater, more, closed⟩ := moves.keeps isChannel
  rw [signalled_iff isChannel] at signalled
  refine (signalled_iff isLater).mpr (signalled.imp (fun changed => ?_) closed)
  omega

theorem Waits.signalled_wakeStream (waits : Waits notifiers (.stream stream) receiver) :
    (notifiers.wakeStream stream).signalled receiver := by
  obtain ⟨channel, isChannel, seen, routes | closed⟩ := waits.reached
  · left
    have changed := changes_lt_wakeStream routes
    have same : notifiers.changes receiver.channel = channel.changes := by
      simp [changes, isChannel]
    omega
  · exact waits.signalled (moves_wakeStream stream) ((signalled_iff isChannel).mpr (.inr closed))

theorem Waits.signalled_wakeAll (waits : Waits notifiers .all receiver) :
    notifiers.wakeAll.signalled receiver := by
  obtain ⟨channel, isChannel, seen, _⟩ := waits.reached
  left
  rw [waits.all.mpr rfl] at isChannel ⊢
  cases isChannel
  exact Nat.ne_of_gt (Nat.lt_succ_of_le seen)

theorem Waits.channel_wakeStream (waits : Waits notifiers target receiver)
    (different : target ≠ .stream stream) :
    (notifiers.wakeStream stream).channel receiver.channel =
      notifiers.channel receiver.channel := by
  rw [wakeStream]
  split
  next => rfl
  next entry entered =>
    cases isChannel : receiver.channel with
    | all => rfl
    | entry index =>
      have other : entry.genTx ≠ index := fun same =>
        different (waits.owned stream entry entered (same ▸ isChannel))
      simp [channel, other]

theorem Waits.channel_wakeAll (waits : Waits notifiers target receiver)
    (different : target ≠ .all) :
    notifiers.wakeAll.channel receiver.channel = notifiers.channel receiver.channel := by
  cases isChannel : receiver.channel with
  | all => exact absurd (waits.all.mp isChannel) different
  | entry index => rfl

theorem signalled_congr
    (same : after.channel receiver.channel = notifiers.channel receiver.channel) :
    after.signalled receiver ↔ notifiers.signalled receiver := by
  simp only [StreamNotifiers.signalled, changes, same]

/-- What holds between events. -/
structure Invariant (world : World) : Prop where
  counts : Counts world.notifiers world.live
  nonzero : ∀ stream entry, world.notifiers.map stream = some entry → entry.subscribers ≠ 0
  distinct : ∀ stream entry other found, world.notifiers.map stream = some entry →
    world.notifiers.map other = some found → entry.genTx = found.genTx → stream = other
  alive : ∀ held ∈ world.alive,
    Routes world.notifiers held.1 held.2.rx.channel ∧ held.2.guard = held.1.key
  waits : ∀ wait ∈ world.waits, Waits world.notifiers wait.1 wait.2

theorem invariant_new : Invariant .new :=
  ⟨fun _ => .none, nofun, nofun, List.forall_mem_nil _, List.forall_mem_nil _⟩

theorem Invariant.distinct_move (invariant : Invariant world)
    (moves : Moves world.notifiers after) (stream : StreamKey) (entry : Entry) (other : StreamKey)
    (found : Entry) (isEntry : after.map stream = some entry)
    (isFound : after.map other = some found)
    (same : entry.genTx = found.genTx) : stream = other := by
  have created {id : StreamKey} {old : Entry} (isOld : world.notifiers.map id = some old) :
      old.genTx < world.notifiers.channels.length :=
    (isOld ▸ invariant.counts id : Entered _ (some old) _).present.1
  obtain ⟨fresh, entries⟩ := entries_of_moves moves
  rcases entries stream entry isEntry with ⟨old, isOld, sameOld⟩ | ⟨rfl, isNew⟩
  · rcases entries other found isFound with ⟨before, isBefore, sameBefore⟩ | ⟨_, isNew⟩
    · exact invariant.distinct stream old other before isOld isBefore (by omega)
    · have := created isOld
      omega
  · rcases entries other found isFound with ⟨before, isBefore, sameBefore⟩ | ⟨rfl, _⟩
    · have := created isBefore
      omega
    · rfl

theorem Invariant.move (invariant : Invariant world) {alive : List (Target × WakeReg)}
    (moves : Moves world.notifiers after)
    (counts : Counts after (World.live ⟨after, alive, world.waits⟩))
    (isAlive : ∀ held ∈ alive, Routes after held.1 held.2.rx.channel ∧ held.2.guard = held.1.key) :
    Invariant ⟨after, alive, world.waits⟩ where
  counts := counts
  nonzero := nonzero_of_moves moves invariant.nonzero
  distinct := invariant.distinct_move moves
  alive := isAlive
  waits wait isWait := (invariant.waits wait isWait).move moves

theorem Invariant.register (invariant : Invariant world) (target : Target) :
    Invariant (world.step (.register target)) := by
  have moves := @moves_register world.notifiers target.key
  rw [World.step]
  split
  next registration after isRegistered =>
    rw [isRegistered] at moves
    obtain ⟨counts, routes, guarded, kept, _⟩ := register_registered invariant.counts isRegistered
    refine invariant.move moves ?_ (List.forall_mem_cons.mpr ⟨⟨routes, guarded⟩, ?_⟩)
    · convert counts using 1
      funext id
      simp [World.live, List.countP_cons]
    · exact fun held isHeld => (invariant.alive held isHeld).imp_left kept
  next isRefused =>
    rw [isRefused] at moves
    obtain ⟨counts, kept, _⟩ := register_refused invariant.counts isRefused
    exact invariant.move moves counts fun held isHeld => (invariant.alive held isHeld).imp_left kept

theorem Invariant.waits_arm (invariant : Invariant world)
    (routes : Routes world.notifiers target reference) :
    Waits world.notifiers target (world.notifiers.subscribe reference) := by
  refine ⟨?_, fun stream entry entered isChannel => ?_, by cases routes <;> simp [subscribe]⟩
  · cases isChannel : world.notifiers.channel reference with
    | none =>
      cases routes with
      | all => cases isChannel
      | stream _ created => simp [channel, created] at isChannel
    | some found =>
      exact ⟨found, isChannel, by simp [subscribe, changes, isChannel], .inl routes⟩
  · cases routes with
    | all => cases isChannel
    | stream own _ =>
      rw [invariant.distinct _ _ stream entry own entered (ChannelRef.entry.inj isChannel)]

theorem Invariant.arm (invariant : Invariant world) (held : Target × WakeReg) :
    Invariant (world.step (.arm held)) := by
  rw [World.step]
  split
  next isHeld =>
    have waits := invariant.waits_arm (invariant.alive held isHeld).1
    exact { invariant with waits := List.forall_mem_cons.mpr ⟨waits, invariant.waits⟩ }
  next => exact invariant

theorem Invariant.drop (invariant : Invariant world) (held : Target × WakeReg) :
    Invariant (world.step (.drop held)) := by
  rw [World.step]
  split
  next isHeld =>
    obtain ⟨target, registration⟩ := held
    have counted (id : StreamKey) : world.live id =
        (world.alive.erase (target, registration)).countP (fun held => held.1 = .stream id) +
          if target = .stream id then 1 else 0 := by
      rw [World.live, (List.perm_cons_erase isHeld).countP_eq, List.countP_cons]
      simp
    have positive (id : StreamKey) (isTarget : target = .stream id) : 0 < world.live id := by
      rw [counted, if_pos isTarget]
      exact Nat.succ_pos _
    obtain ⟨counts, kept, _⟩ := drop_spec invariant.counts (invariant.alive _ isHeld).2 positive
    refine invariant.move moves_drop ?_ fun other isOther => ?_
    · convert counts using 1
      funext id
      rw [counted, Nat.add_sub_cancel]
      rfl
    · obtain ⟨routes, otherGuarded⟩ := invariant.alive other (List.mem_of_mem_erase isOther)
      refine ⟨kept routes fun id isTarget sameTarget => ?_, otherGuarded⟩
      rw [counted, if_pos isTarget]
      exact Nat.lt_add_of_pos_left
        (List.countP_pos_iff.mpr ⟨other, isOther, by simpa using sameTarget⟩)
  next => exact invariant

theorem Invariant.step (invariant : Invariant world) (event : WakeEvent) :
    Invariant (world.step event) := by
  cases event with
  | register target => exact invariant.register target
  | arm held => exact invariant.arm held
  | drop held => exact invariant.drop held
  | wakeStream stream =>
    exact invariant.move (moves_wakeStream stream) (invariant.counts.wakeStream stream)
      fun held isHeld =>
        (invariant.alive held isHeld).imp_left fun routes => routes.wakeStream stream
  | wakeAll =>
    exact invariant.move .all invariant.counts
      fun held isHeld => (invariant.alive held isHeld).imp_left Routes.wakeAll

theorem moves_step (world : World) (event : WakeEvent) :
    Moves world.notifiers (world.step event).notifiers := by
  cases event with
  | register target =>
    have moves := @moves_register world.notifiers target.key
    rw [World.step]
    split
    next isRegistered => rwa [isRegistered] at moves
    next isRefused => rwa [isRefused] at moves
  | arm held =>
    rw [World.step]
    split <;> exact .stay
  | drop held =>
    rw [World.step]
    split
    · exact moves_drop
    · exact .stay
  | wakeStream stream => exact moves_wakeStream stream
  | wakeAll => exact .all

theorem mem_waits_step (world : World) (event : WakeEvent) (isWait : wait ∈ world.waits) :
    wait ∈ (world.step event).waits := by
  cases event with
  | wakeStream | wakeAll => exact isWait
  | arm held | register target | drop held =>
    rw [World.step]
    split <;> simp [isWait]

theorem mem_waits_run (world : World) (events : List WakeEvent) (isWait : wait ∈ world.waits) :
    wait ∈ (world.run events).waits := by
  induction events generalizing world with
  | nil => exact isWait
  | cons event _ later => exact later _ (mem_waits_step world event isWait)

theorem Invariant.run (invariant : Invariant world) (events : List WakeEvent) :
    Invariant (world.run events) := by
  induction events generalizing world with
  | nil => exact invariant
  | cons event rest later => exact later (invariant.step event)

theorem Invariant.signalled_run (invariant : Invariant world) (isWait : wait ∈ world.waits)
    (signalled : world.notifiers.signalled wait.2) (events : List WakeEvent) :
    (world.run events).notifiers.signalled wait.2 := by
  induction events generalizing world with
  | nil => exact signalled
  | cons event rest later =>
    exact later (invariant.step event) (mem_waits_step world event isWait)
      ((invariant.waits wait isWait).signalled (moves_step world event) signalled)

/-- The registry has an entry for the streams with live registrations.  It counts them, they
watch its channel, and a registration that is refused changes nothing. -/
structure Registers (world : World) : Prop where
  entered : ∀ stream, world.notifiers.map stream ≠ none ↔ 0 < world.live stream
  counted : ∀ stream entry, world.notifiers.map stream = some entry →
    entry.subscribers.toNat = world.live stream
  watched : ∀ stream entry registration, world.notifiers.map stream = some entry →
    (.stream stream, registration) ∈ world.alive → registration.rx.channel = .entry entry.genTx
  refused : ∀ target error, (world.notifiers.register target).1 = .error error →
    (world.notifiers.register target).2 = world.notifiers

/-- A wake of a stream, with anything between its halves and behind them, signals the waits that
were armed before on the stream or on all streams.  Neither half matters to a wait on another
stream. -/
structure Signals (world : World) : Prop where
  signals : ∀ stream, ∀ wait ∈ world.waits, wait.1 = .stream stream ∨ wait.1 = .all →
    ∀ between later, ((((world.step (.wakeStream stream)).run between).step .wakeAll).run
      later).notifiers.signalled wait.2
  spares : ∀ stream, ∀ wait ∈ world.waits, wait.1 ≠ .stream stream → wait.1 ≠ .all →
    ((world.step (.wakeStream stream)).notifiers.signalled wait.2 ↔
      world.notifiers.signalled wait.2) ∧
    ((world.step .wakeAll).notifiers.signalled wait.2 ↔ world.notifiers.signalled wait.2)

/-- Entries are those of live registrations. -/
theorem Invariant.registers (invariant : Invariant world) : Registers world where
  entered stream := by
    have known := invariant.counts stream
    cases isEntry : world.notifiers.map stream with
    | none =>
      rw [isEntry] at known
      simp [known.absent]
    | some entry =>
      rw [isEntry] at known
      have nonzero := invariant.nonzero stream entry isEntry
      simpa [← known.present.2, Nat.pos_iff_ne_zero, ← UInt64.toNat_inj] using nonzero
  counted stream entry entered := by
    have known := invariant.counts stream
    rw [entered] at known
    exact known.present.2
  watched stream entry registration entered isHeld := by
    obtain ⟨routes, _⟩ := invariant.alive _ isHeld
    generalize registration.rx.channel = reference at routes
    cases routes with
    | stream own _ => rw [Option.some_inj.mp (own.symm.trans entered)]
  refused _ _ := register_overflow

/-- A wake signals the waits of its stream. -/
theorem Invariant.signals (invariant : Invariant world) : Signals world where
  signals stream wait isWait isTarget between later := by
    have woken := invariant.step (.wakeStream stream)
    have middle := woken.run between
    have isMiddle := mem_waits_run (world.step (.wakeStream stream)) between isWait
    have finished : (((world.step (.wakeStream stream)).run between).step
        .wakeAll).notifiers.signalled wait.2 := by
      rcases isTarget with isStream | isAll
      · have signalled := (isStream ▸ invariant.waits wait isWait).signalled_wakeStream
        exact (middle.waits wait isMiddle).signalled .all
          (woken.signalled_run isWait signalled between)
      · exact (isAll ▸ middle.waits wait isMiddle).signalled_wakeAll
    exact (middle.step .wakeAll).signalled_run isMiddle finished later
  spares stream wait isWait notStream notAll := by
    have waits := invariant.waits wait isWait
    exact ⟨signalled_congr (waits.channel_wakeStream notStream),
      signalled_congr (waits.channel_wakeAll notAll)⟩

/-- Whatever happens to the registry, it serves the registrations that are alive and the waits
that were armed. -/
theorem registry_serves_registrations (events : List WakeEvent) :
    Registers (World.new.run events) ∧ Signals (World.new.run events) :=
  have invariant := invariant_new.run events
  ⟨invariant.registers, invariant.signals⟩

end Mnesis.Subscriptions.Wakes
