import Mnesis.Subscriptions.Delivery
import Mnesis.Subscriptions.Registry

/-!
# Runs of writers and subscriptions

Each step keeps what is known of every subscription: its own steps by the safety of
the code it runs, and those of others because they are interference that the code
allows for.
-/

namespace Mnesis.Subscriptions

open Foundation Kernel Store

variable {P E : Type} [LinearOrder P]

/-- How the world may change. -/
structure Evolves (world after : World P) : Prop where
  grown : world.log.rows <+: after.log.rows
  changes : ∀ channel, world.notifiers.changes channel ≤ after.notifiers.changes channel
  owes : ∀ {target : Target} {channel : ChannelRef}, Routes world.notifiers target channel →
    after.notifiers.changes channel = world.notifiers.changes channel →
    ∀ row ∈ target.rows after.log.rows,
      (row ∈ world.log.rows → world.Owes target row) → after.Owes target row

namespace Evolves

variable {world after : World P}

theorem later (evolves : Evolves world after)
    (routes : Routes world.notifiers target channel) (opened : List (Row P)) :
    Later target channel ⟨world, opened⟩ ⟨after, opened⟩ :=
  ⟨evolves.grown, rfl, evolves.changes channel, evolves.owes routes⟩

theorem of_notifiers
    (changes : ∀ channel, world.notifiers.changes channel ≤ notifiers.changes channel) :
    Evolves world { world with notifiers } where
  grown := List.prefix_rfl
  changes := changes
  owes _ _ _ present owed := owed (mem_rows.mp present).1

theorem commit
    (appended : log.rows = world.log.rows ++ rows) (woken : ∀ row ∈ rows, row.stream ∈ wakes) :
    Evolves world { world with log, writers := world.writers ++ [⟨rows, wakes, false⟩] } where
  grown := by
    rw [appended]
    exact List.prefix_append _ _
  changes _ := Nat.le_refl _
  owes := by
    intro target channel _ _ row present owed
    have isRow := (mem_rows.mp present).1
    rw [appended] at isRow
    rcases List.mem_append.mp isRow with earlier | added
    · obtain ⟨writer, isWriter, wrote, outstanding⟩ := owed earlier
      exact ⟨writer, List.mem_append_left _ isWriter, wrote, outstanding⟩
    · refine ⟨⟨rows, wakes, false⟩, by simp, added, ?_⟩
      cases target <;> exact woken row added

theorem owes_set
    (isWriter : world.writers[index]? = some writer) (sameRows : next.rows = writer.rows)
    (kept : row.stream ∈ writer.outstanding target → row.stream ∈ next.outstanding target)
    (owed : world.Owes target row) :
    World.Owes { world with notifiers, writers := world.writers.set index next } target row := by
  obtain ⟨inside, _⟩ := List.getElem?_eq_some_iff.mp isWriter
  obtain ⟨other, isOther, wrote, outstanding⟩ := owed
  obtain ⟨place, atPlace⟩ := List.mem_iff_getElem?.mp isOther
  by_cases same : index = place
  · subst same
    rw [isWriter, Option.some_inj] at atPlace
    subst atPlace
    exact ⟨next, List.mem_set inside next, sameRows ▸ wrote, kept outstanding⟩
  · refine ⟨other, List.mem_iff_getElem?.mpr ⟨place, ?_⟩, wrote, outstanding⟩
    rw [List.getElem?_set_ne same]
    exact atPlace

/-- The first half of a wake is interference. -/
theorem wakeStream
    (isWriter : world.writers[index]? = some writer) (isWake : writer.wakes = stream :: rest)
    (before : writer.halfway = false) :
    Evolves world { world with
      notifiers := world.notifiers.wakeStream stream
      writers := world.writers.set index { writer with halfway := true } } where
  grown := List.prefix_rfl
  changes := (moves_wakeStream stream).changes_le
  owes := by
    intro target channel routes same row present owed
    obtain ⟨isRow, isCovered⟩ := mem_rows.mp present
    refine owes_set isWriter rfl ?_ (owed isRow)
    cases target with
    | all => exact fun outstanding => outstanding
    | stream id =>
      have isStream : row.stream = id := by simpa [Target.covers] using isCovered
      intro outstanding
      have among : id = stream ∨ id ∈ rest := by
        simpa [Writer.outstanding, before, isWake, isStream] using outstanding
      rcases among with rfl | later
      · exact absurd same (Nat.ne_of_gt (changes_lt_wakeStream routes))
      · simpa [Writer.outstanding, isWake, isStream] using later

theorem wakeAll
    (isWriter : world.writers[index]? = some writer) (isWake : writer.wakes = stream :: rest)
    (halfway : writer.halfway = true) :
    Evolves world { world with
      notifiers := world.notifiers.wakeAll
      writers := world.writers.set index { writer with wakes := rest, halfway := false } } where
  grown := List.prefix_rfl
  changes := Moves.all.changes_le
  owes := by
    intro target channel routes same row present owed
    refine owes_set isWriter rfl ?_ (owed (mem_rows.mp present).1)
    cases routes with
    | all => exact absurd same (Nat.ne_of_gt changes_lt_wakeAll)
    | stream _ _ => simp [Writer.outstanding, halfway, isWake]

end Evolves

theorem Answers.view_eq {after : View P}
    (answered : Answers registration suspension view answer after) :
    after = ⟨view.world, after.opened⟩ := by
  cases answered <;> rfl

namespace Subscription

/-- It was not dropped. -/
def isLive (subscription : Subscription P E) : Bool :=
  match subscription.control with
  | .dropped => false
  | _ => true

/-- It is live and registered for a stream. -/
def follows (id : StreamKey) (subscription : Subscription P E) : Bool :=
  subscription.isLive && subscription.target = .stream id

/-- What is known of a subscription. -/
structure Held (subscription : Subscription P E) (world : World P) : Prop where
  first : subscription.delivered <+: behind subscription.target.positionOf subscription.start
    (subscription.target.rows world.log.rows)
  marked : subscription.received.countP Item.isCaughtUp ≤ 1
  idle : subscription.control = .idle →
    Standing subscription.start subscription.received subscription.live world
  guarded : ∀ pause, subscription.control = .polled pause →
    pause.Guarded
      (turnContract subscription.registration subscription.start subscription.received)
      subscription.live ⟨world, subscription.opened⟩
  holds : ∀ pause, subscription.control = .polled pause →
    pause.Holds (turnContract subscription.registration subscription.start subscription.received)
      (Ends subscription.start subscription.received) subscription.live
      ⟨world, subscription.opened⟩

namespace Held

variable {subscription : Subscription P E}

omit [LinearOrder P] in
theorem isLive_of_polled (polled : subscription.control = .polled pause) :
    subscription.isLive = true := by
  rw [isLive, polled]

omit [LinearOrder P] in
theorem isLive_of_idle (idle : subscription.control = .idle) : subscription.isLive = true := by
  rw [isLive, idle]

omit [LinearOrder P] in
theorem isLive_of_ne (live : subscription.control ≠ .dropped) : subscription.isLive = true := by
  rw [isLive]
  split
  next dropped => exact absurd dropped live
  · rfl

theorem later (held : subscription.Held world) (grown : world.log.rows <+: after.log.rows)
    (during : subscription.isLive = true →
      Later subscription.target subscription.registration.rx.channel
        ⟨world, subscription.opened⟩ ⟨after, subscription.opened⟩) :
    subscription.Held after where
  first := held.first.trans (behind_of_grown (grown.filter _) _)
  marked := held.marked
  idle isIdle := (held.idle isIdle).later (during (isLive_of_idle isIdle))
  guarded pause polled := by
    have guarded := held.guarded pause polled
    have during := during (isLive_of_polled polled)
    cases pause with
    | finished result => trivial
    | waiting suspension next =>
      intro receiver isWait
      exact (guarded receiver isWait).later during
  holds pause polled :=
    Pause.Holds.stable (fun ends during => Ends.later ends during) (held.holds pause polled)
      (during (isLive_of_polled polled))

/-- Its code runs to the next suspension. -/
theorem proceed {opened : List (Row P)} (held : subscription.Held world)
    (safe : Program.Safe
      (turnContract subscription.registration subscription.start subscription.received)
      (Ends subscription.start subscription.received) code subscription.live ⟨world, opened⟩) :
    Held { subscription with
      live := (code.advance subscription.live).1
      control := .polled (code.advance subscription.live).2
      opened } world where
  first := held.first
  marked := held.marked
  idle isIdle := by cases isIdle
  guarded pause polled := by
    cases polled
    exact safe.advance.1
  holds pause polled := by
    cases polled
    have holds := safe.advance.2
    have entered : ∀ view : View P, (code.advance subscription.live).2.enter
        (turnContract subscription.registration subscription.start subscription.received).issue
        view = view := by
      intro view
      cases (code.advance subscription.live).2 <;> rfl
    rw [entered] at holds
    exact holds

theorem yield
    (standing : Standing subscription.start (subscription.received ++ [item])
      subscription.live world) :
    Held { subscription with
      control := .idle
      received := subscription.received ++ [item] } world where
  first := standing.first
  marked := by
    rw [standing.marked]
    exact Bool.toNat_le _
  idle _ := standing
  guarded pause polled := by cases polled
  holds pause polled := by cases polled

/-- A dropped subscription leaves the others alone. -/
theorem drop (held : subscription.Held world) :
    Held { subscription with control := .dropped } world where
  first := held.first
  marked := held.marked
  idle isIdle := by cases isIdle
  guarded pause polled := by cases polled
  holds pause polled := by cases polled

end Held

end Subscription

namespace System

open Subscription

/-- How many live subscriptions a stream has. -/
def followers (system : System P E) (id : StreamKey) : Nat :=
  system.subscriptions.countP (follows id)

/-- What holds in every state. -/
structure Valid (system : System P E) : Prop where
  counts : Counts system.world.notifiers system.followers
  routed : ∀ {index : Nat} {subscription : Subscription P E},
    system.subscriptions[index]? = some subscription → subscription.isLive = true →
    Routes system.world.notifiers subscription.target subscription.registration.rx.channel
  guards : ∀ {index : Nat} {subscription : Subscription P E},
    system.subscriptions[index]? = some subscription →
    subscription.registration.guard = subscription.target.key
  held : ∀ {index : Nat} {subscription : Subscription P E},
    system.subscriptions[index]? = some subscription → subscription.Held system.world

namespace Valid

variable {system : System P E}

theorem initial : Valid (System.initial P E) where
  counts _ := .none
  routed present := by simp [System.initial] at present
  guards present := by simp [System.initial] at present
  held present := by simp [System.initial] at present

theorem evolve {world : World P} (valid : system.Valid) (evolves : Evolves system.world world)
    (counts : Counts world.notifiers system.followers)
    (routes : ∀ {target channel}, Routes system.world.notifiers target channel →
      Routes world.notifiers target channel) :
    Valid { system with world } where
  counts := counts
  routed present live := routes (valid.routed present live)
  guards := valid.guards
  held present := (valid.held present).later evolves.grown fun live =>
    evolves.later (valid.routed present live) _

theorem replace (valid : system.Valid)
    (isSubscription : system.subscriptions[index]? = some subscription)
    (sameTarget : next.target = subscription.target)
    (sameRegistration : next.registration = subscription.registration)
    (sameLive : next.isLive = subscription.isLive) (held : next.Held system.world) :
    Valid { system with subscriptions := system.subscriptions.set index next } where
  counts := by
    have same : System.followers { system with
        subscriptions := system.subscriptions.set index next } = system.followers := by
      funext id
      have counted := countP_set_add (follows id) isSubscription next
      have sameFollows : follows id next = follows id subscription := by
        simp [follows, sameTarget, sameLive]
      rw [sameFollows] at counted
      exact Nat.add_right_cancel counted
    rw [same]
    exact valid.counts
  routed present live := by
    rcases (getElem?_set_eq_some isSubscription).mp present with ⟨rfl, rfl⟩ | ⟨_, present⟩
    · rw [sameTarget, sameRegistration]
      exact valid.routed isSubscription (sameLive ▸ live)
    · exact valid.routed present live
  guards present := by
    rcases (getElem?_set_eq_some isSubscription).mp present with ⟨rfl, rfl⟩ | ⟨_, present⟩
    · rw [sameTarget, sameRegistration]
      exact valid.guards isSubscription
    · exact valid.guards present
  held present := by
    rcases (getElem?_set_eq_some isSubscription).mp present with ⟨rfl, rfl⟩ | ⟨_, present⟩
    · exact held
    · exact valid.held present

/-- A new subscription is given nothing yet. -/
theorem subscribe {target : Target} {start : Option (target.Position P)} {registration : WakeReg}
    (valid : system.Valid)
    (registered : system.world.notifiers.register target.key = (.ok registration, notifiers)) :
    (system.subscribe target start registration notifiers).Valid := by
  obtain ⟨counts, routed, guarded, kept, changes⟩ := register_registered valid.counts registered
  have followers : (system.subscribe target start registration notifiers).followers =
      fun id => system.followers id + if target = .stream id then 1 else 0 := by
    funext id
    simp [System.followers, System.subscribe, List.countP_append, List.countP_singleton, follows,
      Subscription.isLive]
  constructor
  · rw [followers]
    exact counts
  · intro index subscription present live
    rcases getElem?_concat_eq_some.mp present with present | ⟨_, rfl⟩
    · exact kept (valid.routed present live)
    · exact routed
  · intro index subscription present
    rcases getElem?_concat_eq_some.mp present with present | ⟨_, rfl⟩
    · exact valid.guards present
    · exact guarded
  · intro index subscription present
    rcases getElem?_concat_eq_some.mp present with present | ⟨_, rfl⟩
    · exact (valid.held present).later List.prefix_rfl fun live =>
        (Evolves.of_notifiers changes).later (valid.routed present live) _
    · exact ⟨List.nil_prefix, Nat.zero_le _, fun _ => .new _, by rintro _ ⟨⟩, by rintro _ ⟨⟩⟩

theorem drop (valid : system.Valid)
    (isSubscription : system.subscriptions[index]? = some subscription)
    (live : subscription.isLive = true) :
    Valid {
      world := { system.world with
        notifiers := subscription.registration.drop system.world.notifiers }
      subscriptions := system.subscriptions.set index { subscription with
        control := .dropped } } := by
  have dropped (id : StreamKey) : follows id { subscription with control := .dropped } = false :=
    rfl
  have counted (id : StreamKey) := countP_set_add (follows id) isSubscription
    { subscription with control := .dropped }
  have following (id : StreamKey) (isTarget : subscription.target = .stream id) :
      follows id subscription = true := by
    simp [follows, live, isTarget]
  obtain ⟨counts, kept, changes⟩ := drop_spec valid.counts (valid.guards isSubscription)
    fun id isTarget => List.countP_pos_iff.mpr
      ⟨subscription, List.mem_of_getElem? isSubscription, following id isTarget⟩
  constructor
  · convert counts using 1
    funext id
    have counted := counted id
    rw [dropped] at counted
    by_cases isTarget : subscription.target = .stream id
    · rw [following id isTarget] at counted
      simp only [System.followers, isTarget, if_true]
      exact Nat.eq_sub_of_add_eq counted
    · have other : follows id subscription = false := by simp [follows, isTarget]
      rw [other] at counted
      simp only [System.followers, isTarget, if_false]
      exact counted
  · intro place other present isLive
    rcases (getElem?_set_eq_some isSubscription).mp present with ⟨_, rfl⟩ | ⟨_, known⟩
    · cases isLive
    · refine kept (valid.routed known isLive) fun id isTarget same => ?_
      -- the other subscription is still there after this one was dropped
      have remains : 0 < (system.subscriptions.set index
          { subscription with control := .dropped }).countP (follows id) :=
        List.countP_pos_iff.mpr ⟨other, List.mem_of_getElem? present, by
          simp [follows, isLive, same]⟩
      have counted := counted id
      rw [dropped, following id isTarget] at counted
      change 1 < system.subscriptions.countP (follows id)
      simp only [Bool.toNat_true, Bool.toNat_false] at counted
      omega
  · intro place other present
    rcases (getElem?_set_eq_some isSubscription).mp present with ⟨_, rfl⟩ | ⟨_, known⟩
    · exact (valid.guards isSubscription :)
    · exact valid.guards known
  · intro place other present
    rcases (getElem?_set_eq_some isSubscription).mp present with ⟨_, rfl⟩ | ⟨_, known⟩
    · exact (valid.held isSubscription).drop.later List.prefix_rfl (by rintro ⟨⟩)
    · exact (valid.held known).later List.prefix_rfl fun isLive =>
        (Evolves.of_notifiers changes).later (valid.routed known isLive) _

/-- Code that is safe runs to its next suspension. -/
theorem proceed {opened : List (Row P)}
    (valid : system.Valid) (isSubscription : system.subscriptions[index]? = some subscription)
    (live : subscription.isLive = true)
    (safe : Program.Safe
      (turnContract subscription.registration subscription.start subscription.received)
      (Ends subscription.start subscription.received) code subscription.live
      ⟨system.world, opened⟩) :
    (system.proceed index subscription code opened).Valid :=
  valid.replace isSubscription rfl rfl live.symm ((valid.held isSubscription).proceed safe)

/-- Every step keeps the system valid. -/
theorem step (valid : system.Valid) (taken : Takes system label after) : after.Valid := by
  cases taken with
  | commit rows wakes log appended woken =>
    exact valid.evolve (.commit appended woken) valid.counts fun routes => routes
  | wakeStream isWriter isWake before =>
    exact valid.evolve (.wakeStream isWriter isWake before) (valid.counts.wakeStream _)
      fun routes => routes.wakeStream _
  | wakeAll isWriter isWake halfway =>
    exact valid.evolve (.wakeAll isWriter isWake halfway) valid.counts Routes.wakeAll
  | subscribe registered => exact valid.subscribe registered
  | refuse refused =>
    obtain ⟨counts, kept, changes⟩ := register_refused valid.counts refused
    exact valid.evolve (.of_notifiers changes) counts kept
  | poll isSubscription idle =>
    exact valid.proceed isSubscription (Held.isLive_of_idle idle)
      (safe_liveStepped ((valid.held isSubscription).idle idle))
  | resume isSubscription waiting answered =>
    have safe := (valid.held isSubscription).holds _ waiting (Later.refl _) answered
    refine valid.proceed isSubscription (Held.isLive_of_polled waiting) ?_
    rw [← answered.view_eq]
    exact safe
  | again isSubscription again =>
    have ends := (valid.held isSubscription).holds _ again
    exact valid.proceed isSubscription (Held.isLive_of_polled again)
      (safe_liveStepped (ends.again rfl))
  | yield isSubscription finished =>
    have ends := (valid.held isSubscription).holds _ finished
    exact valid.replace isSubscription rfl rfl (Held.isLive_of_polled finished).symm
      (.yield (ends.stop _ rfl))
  | drop isSubscription live => exact valid.drop isSubscription (Held.isLive_of_ne live)

theorem of_reachable (reachable : Reachable trace system) : system.Valid :=
  reachable.invariant initial step

end Valid

end System

end Mnesis.Subscriptions
