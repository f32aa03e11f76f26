import Mnesis.Subscriptions.Cursor

/-!
# Writers and subscriptions

Writers commit events and then wake the streams they wrote to; a writer may stop at any
moment.  Meanwhile any number of subscriptions are registered, polled and dropped.  A
scan delivers, in order and without a gap, the rows it asks for; it may end once it has
delivered all of them that were there when it was opened, and it may fail.

The rows that were there when a subscription last opened a scan, and everything its
polls returned, are kept beside it.  No code reads them.
-/

namespace Mnesis.Subscriptions

open Foundation Kernel Store

/-- The committed rows, in their order.  Positions increase, and in each stream so do
versions. -/
structure Log (P : Type) [LinearOrder P] where
  rows : List (Row P)
  increasing : ∀ target : Target, Increasing target.positionOf (target.rows rows)

/-- A writer: the rows it committed, the streams it has yet to wake, and whether it is
between the two halves of the first of these wakes. -/
structure Writer (P : Type) where
  rows : List (Row P)
  wakes : List StreamKey
  halfway : Bool

/-- What writers and subscriptions share. -/
structure World (P : Type) [LinearOrder P] where
  log : Log P
  notifiers : StreamNotifiers
  writers : List (Writer P)

/-- The world as a subscription sees it, with the rows that were there when it last
opened a scan. -/
structure View (P : Type) [LinearOrder P] where
  world : World P
  opened : List (Row P)

section Answers

variable {P E : Type} [LinearOrder P]

/-- What the loop of a registration may be resumed with. -/
inductive Answers (registration : WakeReg) :
    (suspension : Suspension P) → View P → suspension.Answer E → View P → Prop
  | opened (request : Request P) :
      Answers registration (.readAfter request) view
        (.ok ⟨request, view.world.log.rows, 0⟩) { view with opened := view.world.log.rows }
  | openFailed (stored : request ≠ .empty) (error : E) :
      Answers registration (.readAfter request) view (.error error) view
  | row (isNext : (scan.request.rows view.world.log.rows)[scan.taken]? = some row) :
      Answers registration (.next scan) view
        (some (.ok row), { scan with taken := scan.taken + 1 }) view
  | rowFailed (stored : scan.request ≠ .empty) (error : E) :
      Answers registration (.next scan) view (some (.error error), scan) view
  | finished (complete : (scan.request.rows scan.opened).length ≤ scan.taken) :
      Answers registration (.next scan) view (none, scan) view
  | armed : Answers registration .arm view (registration.arm view.world.notifiers) view
  | woken (signalled : view.world.notifiers.signalled receiver) :
      Answers registration (.wait receiver) view () view

end Answers

/-- Where a subscription is: between polls, in a poll, or dropped. -/
inductive Control (P E : Type) (target : Target)
  | idle
  | polled
      (pause : Pause (LiveState P target) (Suspension P) (Suspension.Answer E)
        (Flow Unit (Item P E)))
  | dropped

/-- A subscription. -/
structure Subscription (P E : Type) where
  target : Target
  start : Option (target.Position P)
  registration : WakeReg
  live : LiveState P target
  control : Control P E target
  opened : List (Row P)
  received : List (Item P E)

/-- Everything together. -/
structure System (P E : Type) [LinearOrder P] where
  world : World P
  subscriptions : List (Subscription P E)

namespace System

variable {P E : Type} [LinearOrder P]

/-- No events, no writers and no subscriptions. -/
def initial (P E : Type) [LinearOrder P] : System P E where
  world := ⟨⟨[], fun _ => .nil⟩, .new, []⟩
  subscriptions := []

/-- A new subscription. -/
def subscribe (system : System P E) (target : Target) (start : Option (target.Position P))
    (registration : WakeReg) (notifiers : StreamNotifiers) : System P E where
  world := { system.world with notifiers }
  subscriptions := system.subscriptions ++
    [⟨target, start, registration, .new target start, .idle, [], []⟩]

/-- Let a subscription run to its next suspension. -/
def proceed (system : System P E) (index : Nat) (subscription : Subscription P E)
    (code : Code P E subscription.target (Flow Unit (Item P E)))
    (opened : List (Row P)) : System P E :=
  { system with
    subscriptions := system.subscriptions.set index { subscription with
      live := (code.advance subscription.live).1
      control := .polled (code.advance subscription.live).2
      opened } }

end System

/-- What can be observed of a step. -/
inductive Label (P E : Type)
  | commit (rows : List (Row P))
  | wake (writer : Nat)
  | subscribe (target : Target)
  | refuse (target : Target) (error : NotifyError)
  | poll (subscription : Nat)
  | resume (subscription : Nat)
  | yield (subscription : Nat) (item : Item P E)
  | drop (subscription : Nat)

/-- One step. -/
inductive Takes {P E : Type} [LinearOrder P] : Transition (System P E) (Label P E)
  | commit {system : System P E} (rows : List (Row P)) (wakes : List StreamKey) (log : Log P)
      (appended : log.rows = system.world.log.rows ++ rows)
      (woken : ∀ row ∈ rows, row.stream ∈ wakes) :
      Takes system (.commit rows)
        { system with world := { system.world with
            log
            writers := system.world.writers ++ [⟨rows, wakes, false⟩] } }
  | wakeStream (isWriter : system.world.writers[index]? = some writer)
      (isWake : writer.wakes = stream :: rest) (before : writer.halfway = false) :
      Takes system (.wake index)
        { system with world := { system.world with
            notifiers := system.world.notifiers.wakeStream stream
            writers := system.world.writers.set index { writer with halfway := true } } }
  | wakeAll (isWriter : system.world.writers[index]? = some writer)
      (isWake : writer.wakes = stream :: rest) (halfway : writer.halfway = true) :
      Takes system (.wake index)
        { system with world := { system.world with
            notifiers := system.world.notifiers.wakeAll
            writers := system.world.writers.set index
              { writer with wakes := rest, halfway := false } } }
  | subscribe {system : System P E} {target : Target} {start : Option (target.Position P)}
      {registration : WakeReg} {notifiers : StreamNotifiers}
      (registered : system.world.notifiers.register target.key = (.ok registration, notifiers)) :
      Takes system (.subscribe target) (system.subscribe target start registration notifiers)
  | refuse (refused : system.world.notifiers.register target.key = (.error error, notifiers)) :
      Takes system (.refuse target error) { system with world := { system.world with notifiers } }
  | poll {system : System P E} {index : Nat} {subscription : Subscription P E}
      (isSubscription : system.subscriptions[index]? = some subscription)
      (idle : subscription.control = .idle) :
      Takes system (.poll index)
        (system.proceed index subscription (liveStepped subscription.target) subscription.opened)
  | resume {system : System P E} {index : Nat} {subscription : Subscription P E}
      {suspension : Suspension P}
      {next : suspension.Answer E → Code P E subscription.target (Flow Unit (Item P E))}
      {answer : suspension.Answer E} {view : View P}
      (isSubscription : system.subscriptions[index]? = some subscription)
      (waiting : subscription.control = .polled (.waiting suspension next))
      (answered : Answers subscription.registration suspension
        ⟨system.world, subscription.opened⟩ answer view) :
      Takes system (.resume index) (system.proceed index subscription (next answer) view.opened)
  | again (isSubscription : system.subscriptions[index]? = some subscription)
      (again : subscription.control = .polled (.finished (.again ()))) :
      Takes system (.resume index)
        (system.proceed index subscription (liveStepped subscription.target) subscription.opened)
  | yield {system : System P E} {index : Nat} {subscription : Subscription P E} {item : Item P E}
      (isSubscription : system.subscriptions[index]? = some subscription)
      (finished : subscription.control = .polled (.finished (.stop item))) :
      Takes system (.yield index item)
        { system with
          subscriptions := system.subscriptions.set index { subscription with
            control := .idle
            received := subscription.received ++ [item] } }
  | drop (isSubscription : system.subscriptions[index]? = some subscription)
      (live : subscription.control ≠ .dropped) :
      Takes system (.drop index)
        { world := { system.world with
            notifiers := subscription.registration.drop system.world.notifiers }
          subscriptions := system.subscriptions.set index { subscription with
            control := .dropped } }

/-- A state that can be reached, and how. -/
abbrev Reachable {P E : Type} [LinearOrder P] (trace : List (Label P E)) (system : System P E) :
    Prop :=
  Run Takes (System.initial P E) trace system

section Given

variable {P E : Type}

/-- The event of an item. -/
def Item.event : Item P E → Option (Row P)
  | .ok (.event row) => some row
  | _ => none

/-- The marker. -/
def Item.isCaughtUp : Item P E → Bool
  | .ok .caughtUp => true
  | _ => false

@[simp] theorem isCaughtUp_event (row : Row P) :
    Item.isCaughtUp (.ok (.event row) : Item P E) = false := rfl

@[simp] theorem isCaughtUp_caughtUp : Item.isCaughtUp (.ok .caughtUp : Item P E) = true := rfl

@[simp] theorem isCaughtUp_error (error : E) :
    Item.isCaughtUp (.error error : Item P E) = false := rfl

/-- The events among items. -/
def deliveredIn (received : List (Item P E)) : List (Row P) :=
  received.filterMap Item.event

@[simp] theorem deliveredIn_event (received : List (Item P E)) (row : Row P) :
    deliveredIn (received ++ [.ok (.event row)]) = deliveredIn received ++ [row] :=
  List.filterMap_append

@[simp] theorem deliveredIn_caughtUp (received : List (Item P E)) :
    deliveredIn (received ++ [.ok .caughtUp]) = deliveredIn received :=
  List.filterMap_append.trans (List.append_nil _)

@[simp] theorem deliveredIn_error (received : List (Item P E)) (error : E) :
    deliveredIn (received ++ [.error error]) = deliveredIn received :=
  List.filterMap_append.trans (List.append_nil _)

namespace Subscription

/-- The events that were delivered. -/
def delivered (subscription : Subscription P E) : List (Row P) :=
  deliveredIn subscription.received

end Subscription

/-- The streams that a writer has yet to tell about its rows, to subscriptions of a
target. -/
def Writer.outstanding (writer : Writer P) : Target → List StreamKey
  | .stream _ => if writer.halfway then writer.wakes.tail else writer.wakes
  | .all => writer.wakes

end Given

end Mnesis.Subscriptions
