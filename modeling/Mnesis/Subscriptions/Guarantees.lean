import Mnesis.Subscriptions.Runs

/-!
# What subscriptions guarantee

Whatever commits, wakes and failures fall between its polls, a subscription is given
the events behind its start in order, none of them twice and none left out.  While
it is parked without having been signalled, the wake for every further event is
still to come.
-/

namespace Mnesis.Subscriptions

open Foundation Kernel Store

variable {P E : Type} [LinearOrder P] {system after : System P E}

/-- What a step returns to a subscription. -/
def Label.item (index : Nat) : Label P E → Option (Item P E)
  | .yield subscription item => if subscription = index then some item else none
  | _ => none

/-- What the polls of a subscription returned. -/
def returned (index : Nat) (trace : List (Label P E)) : List (Item P E) :=
  trace.filterMap (Label.item index)

omit [LinearOrder P] in
@[simp] theorem returned_nil (index : Nat) : returned index ([] : List (Label P E)) = [] := rfl

omit [LinearOrder P] in
theorem returned_concat (index : Nat) (trace : List (Label P E)) (label : Label P E) :
    returned index (trace ++ [label]) = returned index trace ++ (label.item index).toList := by
  rw [returned, List.filterMap_append, ← returned]
  cases isItem : label.item index <;> simp [isItem]

namespace System

/-- What is recorded of a subscription. -/
def received (system : System P E) (index : Nat) : List (Item P E) :=
  ((system.subscriptions[index]?).map Subscription.received).getD []

theorem received_of_some (isSubscription : system.subscriptions[index]? = some subscription) :
    system.received index = subscription.received := by
  simp [received, isSubscription]

theorem received_set_append {world : World P}
    (isSubscription : system.subscriptions[place]? = some subscription)
    (isNext : next.received = subscription.received ++ more) (index : Nat) :
    System.received ⟨world, system.subscriptions.set place next⟩ index =
      system.received index ++ if place = index then more else [] := by
  obtain ⟨inside, _⟩ := List.getElem?_eq_some_iff.mp isSubscription
  by_cases same : place = index
  · subst same
    simp [received, List.getElem?_set_self inside, isSubscription, isNext]
  · simp [received, List.getElem?_set_ne same, same]

theorem received_set {world : World P}
    (isSubscription : system.subscriptions[place]? = some subscription)
    (isNext : next.received = subscription.received) (index : Nat) :
    System.received ⟨world, system.subscriptions.set place next⟩ index =
      system.received index ++ [] := by
  have isNext : next.received = subscription.received ++ [] := by simpa using isNext
  simpa using received_set_append isSubscription isNext index

/-- A step returns its item to its own subscription. -/
theorem received_step (taken : Takes system label after) (index : Nat) :
    after.received index = system.received index ++ (label.item index).toList := by
  cases taken with
  | commit rows wakes log appended woken => simp [received, Label.item]
  | wakeStream isWriter isWake before => simp [received, Label.item]
  | wakeAll isWriter isWake halfway => simp [received, Label.item]
  | subscribe registered =>
    simp only [received, System.subscribe, Label.item, Option.toList_none, List.append_nil]
    rcases Nat.lt_trichotomy index system.subscriptions.length with inside | rfl | outside
    · rw [List.getElem?_append_left inside]
    · simp
    · rw [List.getElem?_eq_none (by simp; omega), List.getElem?_eq_none (by omega)]
  | refuse refused => simp [received, Label.item]
  | poll isSubscription idle =>
    exact received_set isSubscription (by rfl) index
  | resume isSubscription waiting answered =>
    exact received_set isSubscription (by rfl) index
  | again isSubscription again =>
    exact received_set isSubscription (by rfl) index
  | yield isSubscription finished =>
    rw [received_set_append isSubscription rfl index, Label.item]
    split <;> rfl
  | drop isSubscription live =>
    exact received_set isSubscription (by rfl) index

theorem received_eq (reachable : Reachable trace system) (index : Nat) :
    system.received index = returned index trace := by
  induction reachable with
  | refl => simp [received, System.initial]
  | snoc _ taken recorded =>
    rw [received_step taken, recorded, returned_concat]

end System

/-- At every moment, the events that the polls of a subscription returned are the
first ones strictly behind its start: in order, each once, and with none left
out. -/
theorem subscriptions_deliver_in_order (reachable : Reachable trace system) {index : Nat}
    {subscription : Subscription P E}
    (isSubscription : system.subscriptions[index]? = some subscription) :
    deliveredIn (returned index trace) <+:
        behind subscription.target.positionOf subscription.start
          (subscription.target.rows system.world.log.rows) ∧
      Increasing subscription.target.positionOf (deliveredIn (returned index trace)) := by
  have held := (System.Valid.of_reachable reachable).held isSubscription
  have first := held.first
  rw [Subscription.delivered, ← System.received_of_some isSubscription,
    System.received_eq reachable] at first
  refine ⟨first, ?_⟩
  exact ((system.world.log.increasing subscription.target).filter _).sublist first.sublist

/-- An event of a stream. -/
def someRow : Row Nat where
  position := 5
  stream := [1]
  envelope := {
    version := .initial
    value := []
    schemaVersion := .initial
    eventTypeRange := ⟨0, 0⟩
    payloadRange := ⟨0, 0⟩
    metadataRange := none
    checked := rfl }

/-- A log with this event. -/
def someLog : Log Nat where
  rows := [someRow]
  increasing target := (List.pairwise_singleton _ someRow).filter target.covers

/-- A row that is committed first is delivered. -/
theorem some_row_is_delivered :
    ∃ (trace : List (Label Nat Unit)) (system : System Nat Unit)
      (subscription : Subscription Nat Unit),
      Reachable trace system ∧ system.subscriptions[0]? = some subscription ∧
        deliveredIn (returned 0 trace) = [someRow] ∧
        deliveredIn (returned 0 trace) <+:
          behind subscription.target.positionOf subscription.start
            (subscription.target.rows system.world.log.rows) := by
  have start : Reachable [] (System.initial Nat Unit) := .refl
  have committed := start.snoc (.commit [someRow] [[1]] someLog rfl (by simp [someRow]))
  have subscribed := committed.snoc (@Takes.subscribe Nat Unit _ _ (.stream [1]) none _ _ rfl)
  have polled := subscribed.extend (.poll 0) (.poll rfl rfl)
  have opened := polled.extend (.resume 0) (.resume rfl rfl (.opened _))
  have read := opened.extend (.resume 0) (.resume rfl rfl (.row rfl))
  have yielded := read.extend (.yield 0 _) (.yield rfl rfl)
  exact ⟨_, _, _, yielded, rfl, rfl, (subscriptions_deliver_in_order yielded rfl).1⟩

omit [LinearOrder P] in
theorem mem_wakes_of_outstanding {writer : Writer P}
    (outstanding : stream ∈ writer.outstanding target) :
    stream ∈ writer.wakes := by
  cases target with
  | all => exact outstanding
  | stream id =>
    rw [Writer.outstanding] at outstanding
    split at outstanding
    · exact List.mem_of_mem_tail outstanding
    · exact outstanding

/-- While a subscription is parked on a wait that was not signalled, every event
behind the last one it was given was committed by a writer whose wake for it is not
yet complete.  The marker is returned at most once, and only after every event was
that had been committed when the confirming scan was opened. -/
theorem parked_subscriptions_have_a_wake_to_come (reachable : Reachable trace system) {index : Nat}
    {subscription : Subscription P E}
    (isSubscription : system.subscriptions[index]? = some subscription) :
    (∀ receiver next, subscription.control = .polled (.waiting (.wait receiver) next) →
      ¬ system.world.notifiers.signalled receiver →
      ∀ row ∈ behind subscription.target.positionOf
          (placeAfter subscription.target.positionOf subscription.start
            (deliveredIn (returned index trace)))
          (subscription.target.rows system.world.log.rows),
        ∃ writer ∈ system.world.writers, row ∈ writer.rows ∧ row.stream ∈ writer.wakes) ∧
      (returned index trace).countP Item.isCaughtUp ≤ 1 ∧
      ∀ after, Takes system (.yield index (.ok .caughtUp)) after →
        ∀ row ∈ behind subscription.target.positionOf subscription.start
            (subscription.target.rows subscription.opened),
          row ∈ deliveredIn (returned index trace) := by
  have held := (System.Valid.of_reachable reachable).held isSubscription
  rw [← System.received_eq reachable, System.received_of_some isSubscription]
  refine ⟨?_, held.marked, ?_⟩
  · intro receiver next parked unsignalled row present
    have quiet := held.guarded _ parked receiver rfl
    have unchanged : system.world.notifiers.changes subscription.registration.rx.channel =
        receiver.seen := by
      rw [← quiet.watches]
      exact Decidable.not_not.mp fun changed => unsignalled (.inl changed)
    obtain ⟨writer, isWriter, wrote, outstanding⟩ := quiet.owes unchanged row present
    exact ⟨writer, isWriter, wrote, mem_wakes_of_outstanding outstanding⟩
  · intro after taken row present
    cases taken with
    | yield isYielding finished =>
      rw [isSubscription, Option.some_inj] at isYielding
      subst isYielding
      exact ((held.holds _ finished).complete rfl).subset present

/-- A subscription is parked when a row is committed. -/
theorem some_subscription_parks :
    ∃ (trace : List (Label Nat Unit)) (system : System Nat Unit)
      (subscription : Subscription Nat Unit) (receiver : Receiver)
      (next : Unit → Code Nat Unit subscription.target (Flow Unit (Item Nat Unit))),
      Reachable trace system ∧ system.subscriptions[0]? = some subscription ∧
        subscription.control = .polled (.waiting (.wait receiver) next) ∧
        ¬ system.world.notifiers.signalled receiver ∧
        ∃ writer ∈ system.world.writers, someRow ∈ writer.rows ∧ someRow.stream ∈ writer.wakes := by
  have start : Reachable [] (System.initial Nat Unit) := .refl
  have subscribed := start.snoc (@Takes.subscribe Nat Unit _ _ (.stream [1]) none _ _ rfl)
  have polled := subscribed.extend (.poll 0) (.poll rfl rfl)
  have opened := polled.extend (.resume 0) (.resume rfl rfl (.opened _))
  have ended := opened.extend (.resume 0) (.resume rfl rfl (.finished (by decide)))
  have armed := ended.extend (.resume 0) (.resume rfl rfl .armed)
  have probed := armed.extend (.resume 0) (.resume rfl rfl (.opened _))
  have confirmed := probed.extend (.resume 0) (.resume rfl rfl (.finished (by decide)))
  have caughtUp := confirmed.extend (.yield 0 _) (.yield rfl rfl)
  have polled := caughtUp.extend (.poll 0) (.poll rfl rfl)
  have opened := polled.extend (.resume 0) (.resume rfl rfl (.opened _))
  have ended := opened.extend (.resume 0) (.resume rfl rfl (.finished (by decide)))
  have armed := ended.extend (.resume 0) (.resume rfl rfl .armed)
  have probed := armed.extend (.resume 0) (.resume rfl rfl (.opened _))
  have parked := probed.extend (.resume 0) (.resume rfl rfl (.finished (by decide)))
  have committed := parked.snoc (.commit [someRow] [[1]] someLog rfl (by simp [someRow]))
  have known := @parked_subscriptions_have_a_wake_to_come Nat Unit _ _ _ committed 0 _ rfl
  have quiet := known.1 ⟨.entry 0, 0⟩ _ rfl (by decide) someRow
  exact ⟨_, _, _, ⟨.entry 0, 0⟩, _, committed, rfl, rfl, by decide, quiet (by decide)⟩

/-- A consumer that is restarted any number of times: every further subscription starts at the
last event that the one before it was given.  It is given the events of all of them. -/
inductive Consumes (trace : List (Label P E)) (system : System P E) (target : Target) :
    Option (target.Position P) → List (Row P) → Prop
  | stop : Consumes trace system target start []
  | resume {start : Option (target.Position P)} {subscription : Subscription P E} {index : Nat}
      {rest : List (Row P)} (isSubscription : system.subscriptions[index]? = some subscription)
      (isTarget : (⟨subscription.target, subscription.start⟩ : Σ kind : Target,
        Option (kind.Position P)) = ⟨target, start⟩)
      (resumed : Consumes trace system target
        (placeAfter target.positionOf start (deliveredIn (returned index trace))) rest) :
      Consumes trace system target start (deliveredIn (returned index trace) ++ rest)

/-- A consumer that is restarted is given the events behind its start in order, without a gap or
a repetition. -/
theorem consumers_skip_nothing (reachable : Reachable trace system) {target : Target}
    {start : Option (target.Position P)} {given : List (Row P)}
    (consumes : Consumes trace system target start given) :
    given <+: behind target.positionOf start (target.rows system.world.log.rows) := by
  induction consumes with
  | stop => exact List.nil_prefix
  | @resume start subscription index rest isSubscription isTarget _ ih =>
    have first := ((System.Valid.of_reachable reachable).held isSubscription).first
    rw [Subscription.delivered, ← System.received_of_some isSubscription,
      System.received_eq reachable] at first
    obtain ⟨kind, begun, _⟩ := subscription
    cases isTarget
    rw [behind_eq_append (system.world.log.increasing kind) first]
    exact (List.prefix_append_right_inj _).mpr ih

/-- A consumer is given a row and restarted. -/
theorem some_consumer_restarts :
    ∃ (trace : List (Label Nat Unit)) (system : System Nat Unit),
      Reachable trace system ∧ system.subscriptions.length = 2 ∧
        Consumes trace system (.stream [1]) none [someRow] ∧
        [someRow] <+: behind (Target.positionOf (.stream [1])) none
          (Target.rows (.stream [1]) system.world.log.rows) := by
  have start : Reachable [] (System.initial Nat Unit) := .refl
  have committed := start.snoc (.commit [someRow] [[1]] someLog rfl (by simp [someRow]))
  have subscribed := committed.snoc (@Takes.subscribe Nat Unit _ _ (.stream [1]) none _ _ rfl)
  have polled := subscribed.extend (.poll 0) (.poll rfl rfl)
  have opened := polled.extend (.resume 0) (.resume rfl rfl (.opened _))
  have read := opened.extend (.resume 0) (.resume rfl rfl (.row rfl))
  have yielded := read.extend (.yield 0 _) (.yield rfl rfl)
  have restarted := yielded.snoc
    (@Takes.subscribe Nat Unit _ _ (.stream [1]) (some .initial) _ _ rfl)
  refine ⟨_, _, restarted, rfl,
    (and_iff_left_of_imp (consumers_skip_nothing restarted)).mpr ?_⟩
  refine @Consumes.resume Nat Unit _ _ _ (.stream [1]) none _ 0 [] rfl ?_ ?_
  · rfl
  · refine @Consumes.resume Nat Unit _ _ _ (.stream [1]) (some .initial) _ 1 [] rfl ?_ .stop
    rfl

end Mnesis.Subscriptions
