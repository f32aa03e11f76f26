import Mathlib.Algebra.Group.Nat.Defs
import Mnesis.Foundation.Indexed

/-!
# The global wake source

A wake first moves the generation and then notifies every listener there is.  A wait takes
the generation when it is armed.  When it is first polled it registers a listener, and
awaits it only if the generation is still the same.  The generation wraps around, so the
check counts wakes up to a multiple of `2 ^ 32`.
-/

namespace Mnesis.Subscriptions.GlobalWake

open Foundation

/-- Where a wait is: armed, in its first poll with a listener, awaiting the listener, or
done.  It also records how many wakes had started at the second check. -/
inductive Phase
  | armed
  | listening
  | awaiting (checkedAt : Nat)
  | done
  deriving DecidableEq

/-- A wait, the generation it was armed at, whether its listener was notified, and how many
wakes had started when it was armed. -/
structure Wait where
  seen : UInt32
  phase : Phase
  notified : Bool
  armedAt : Nat

namespace Wait

/-- The listener is notified, if there is one. -/
def notify (wait : Wait) : Wait :=
  if wait.phase = .armed then wait else { wait with notified := true }

/-- The first poll registers a listener. -/
def listen (wait : Wait) : Wait :=
  if wait.phase = .armed then { wait with phase := .listening } else wait

/-- The first poll checks the generation again. -/
def recheck (generation : UInt32) (started : Nat) (wait : Wait) : Wait :=
  if wait.phase = .listening then
    { wait with phase := if generation ≠ wait.seen then .done else .awaiting started }
  else
    wait

/-- The listener is polled. -/
def await (wait : Wait) : Wait :=
  match wait.phase with
  | .awaiting _ => if wait.notified then { wait with phase := .done } else wait
  | _ => wait

end Wait

/-- The generation, the waits, and for each wake that has started whether it is complete. -/
structure World where
  generation : UInt32
  waits : List Wait
  wakes : List Bool

/-- A wait is armed, a wake makes its first or its second step, or a wait makes a step. -/
inductive Event
  | arm
  | bump
  | notify (wake : Nat)
  | listen (wait : Nat)
  | recheck (wait : Nat)
  | await (wait : Nat)

namespace World

def new : World := ⟨0, [], []⟩

/-- One event. -/
def step (world : World) : Event → World
  | .arm =>
    { world with waits := world.waits ++ [⟨world.generation, .armed, false, world.wakes.length⟩] }
  | .bump =>
    { world with generation := world.generation + 1, wakes := world.wakes ++ [false] }
  | .notify wake =>
    if world.wakes[wake]? = some false then
      { world with waits := world.waits.map Wait.notify, wakes := world.wakes.set wake true }
    else
      world
  | .listen wait => { world with waits := world.waits.modify wait Wait.listen }
  | .recheck wait =>
    { world with
      waits := world.waits.modify wait (Wait.recheck world.generation world.wakes.length) }
  | .await wait => { world with waits := world.waits.modify wait Wait.await }

/-- Some events. -/
def run (world : World) (events : List Event) : World := events.foldl step world

end World

/-- How many wakes have started between the arming of a wait and its second check, or up to
now if the check is still to come. -/
def Wait.window (started : Nat) (wait : Wait) : Nat :=
  match wait.phase with
  | .armed | .listening => started - wait.armedAt
  | .awaiting checkedAt => checkedAt - wait.armedAt
  | .done => 0

/-- What holds of a wait after the wakes that have started. -/
structure Wait.Sound (wakes : List Bool) (wait : Wait) : Prop where
  armed : wait.armedAt ≤ wakes.length
  seen : wait.seen = UInt32.ofNat wait.armedAt
  /-- A wait that awaits its listener found its generation, and is notified if a wake is
  complete that started later. -/
  awaits : ∀ checkedAt, wait.phase = .awaiting checkedAt →
    wait.armedAt ≤ checkedAt ∧ UInt32.ofNat checkedAt = wait.seen ∧
      ∀ wake, checkedAt ≤ wake → wakes[wake]? = some true → wait.notified = true

namespace Wait.Sound

section

variable (sound : Wait.Sound wakes wait)
include sound

theorem bump : Wait.Sound (wakes ++ [false]) wait where
  armed := by
    rw [List.length_append]
    exact Nat.le_add_right_of_le sound.armed
  seen := sound.seen
  awaits checkedAt isAwaiting := by
    obtain ⟨later, same, notifies⟩ := sound.awaits checkedAt isAwaiting
    refine ⟨later, same, fun wake after complete => notifies wake after ?_⟩
    simpa using getElem?_concat_eq_some.mp complete

theorem notify (wake : Nat) : Wait.Sound (wakes.set wake true) wait.notify := by
  have armed : wait.armedAt ≤ (wakes.set wake true).length := by simpa using sound.armed
  unfold Wait.notify
  split
  · next isArmed => exact ⟨armed, sound.seen, fun _ isAwaiting => by simp [isArmed] at isAwaiting⟩
  · refine ⟨armed, sound.seen, fun checkedAt isAwaiting => ?_⟩
    obtain ⟨later, same, _⟩ := sound.awaits checkedAt isAwaiting
    exact ⟨later, same, fun _ _ _ => rfl⟩

theorem become (idle : ∀ checkedAt, other ≠ .awaiting checkedAt) :
    Wait.Sound wakes { wait with phase := other } :=
  ⟨sound.armed, sound.seen, fun checkedAt isAwaiting => absurd isAwaiting (idle checkedAt)⟩

theorem listen : Wait.Sound wakes wait.listen := by
  unfold Wait.listen
  split
  · exact sound.become nofun
  · exact sound

theorem recheck : Wait.Sound wakes (wait.recheck (UInt32.ofNat wakes.length) wakes.length) := by
  unfold Wait.recheck
  split
  · split
    · exact sound.become nofun
    · next same =>
      refine ⟨sound.armed, sound.seen, fun checkedAt isAwaiting => ?_⟩
      cases isAwaiting
      refine ⟨sound.armed, Decidable.not_not.mp same, fun wake after complete => ?_⟩
      rw [List.getElem?_eq_none after] at complete
      cases complete
  · exact sound

theorem await : Wait.Sound wakes wait.await := by
  unfold Wait.await
  split
  · split
    · exact sound.become nofun
    · exact sound
  · exact sound

end

end Wait.Sound

/-- The generation counts the wakes that have started, and every wait is sound. -/
structure Invariant (world : World) : Prop where
  counts : world.generation = UInt32.ofNat world.wakes.length
  waits : ∀ (index : Nat) wait, world.waits[index]? = some wait → Wait.Sound world.wakes wait

namespace Invariant

theorem modify (inv : Invariant world) (index : Nat)
    (keeps : ∀ wait, wait.Sound world.wakes → (change wait).Sound world.wakes) :
    Invariant { world with waits := world.waits.modify index change } where
  counts := inv.counts
  waits place wait isWait := by
    obtain ⟨old, isOld, rfl⟩ := getElem?_modify_eq_some.mp isWait
    have sound := inv.waits place old isOld
    split
    · exact keeps old sound
    · exact sound

/-- Every event keeps the invariant of the waits. -/
theorem step (inv : Invariant world) (event : Event) : Invariant (world.step event) := by
  cases event with
  | arm =>
    refine ⟨inv.counts, fun index wait isWait => ?_⟩
    rcases getElem?_concat_eq_some.mp isWait with isOld | ⟨_, rfl⟩
    · exact inv.waits index wait isOld
    · exact ⟨Nat.le_refl _, inv.counts, nofun⟩
  | bump =>
    refine ⟨?_, fun index wait isWait => (inv.waits index wait isWait).bump⟩
    simp [World.step, inv.counts, UInt32.ofNat_add]
  | notify wake =>
    simp only [World.step]
    split
    · refine ⟨by simpa using inv.counts, fun index wait isWait => ?_⟩
      simp only [List.getElem?_map, Option.map_eq_some_iff] at isWait
      obtain ⟨old, isOld, rfl⟩ := isWait
      exact (inv.waits index old isOld).notify wake
    · exact inv
  | listen index => exact inv.modify index fun _ sound => sound.listen
  | recheck index => exact inv.modify index fun _ sound => inv.counts ▸ sound.recheck
  | await index => exact inv.modify index fun _ sound => sound.await

theorem run (inv : Invariant world) (events : List Event) : Invariant (world.run events) := by
  induction events generalizing world with
  | nil => exact inv
  | cons event _ ih => exact ih (inv.step event)

theorem new : Invariant World.new := ⟨rfl, nofun⟩

end Invariant

theorem eq_of_ofNat_eq (le : before ≤ after) (near : after - before < 2 ^ 32)
    (same : UInt32.ofNat after = UInt32.ofNat before) : after = before := by
  have mods := congrArg UInt32.toNat same
  simp only [UInt32.toNat_ofNat'] at mods
  omega

/-- A wait is not left pending: if it awaits its listener, that was notified, and its own
steps end it. -/
structure Served (world : World) (index : Nat) (wait : Wait) : Prop where
  notified : ∀ checkedAt, wait.phase = .awaiting checkedAt → wait.notified = true
  ends : ((world.run [.listen index, .recheck index, .await index]).waits[index]?).map
    Wait.phase = some .done

theorem getElem?_own_steps {world : World} (isWait : world.waits[index]? = some wait) :
    (world.run [.listen index, .recheck index, .await index]).waits[index]? =
      some (wait.listen.recheck world.generation world.wakes.length).await := by
  simp [World.run, World.step, isWait]

/-- A wait is served behind a complete wake. -/
theorem Invariant.served {world : World} (inv : Invariant world)
    (isWait : world.waits[index]? = some wait) (near : wait.window world.wakes.length < 2 ^ 32)
    (after : wait.armedAt ≤ wake) (complete : world.wakes[wake]? = some true) :
    Served world index wait := by
  have sound := inv.waits index wait isWait
  obtain ⟨started, _⟩ := List.getElem?_eq_some_iff.mp complete
  -- Before the second check the generation differs from the one that was seen.
  have moved (near : world.wakes.length - wait.armedAt < 2 ^ 32) :
      world.generation ≠ wait.seen := by
    rw [inv.counts, sound.seen]
    intro same
    have := eq_of_ofNat_eq sound.armed near same
    omega
  -- At the check no wake had started, so that the complete one came behind it.
  have notified (checkedAt) (isAwaiting : wait.phase = .awaiting checkedAt) :
      wait.notified = true := by
    obtain ⟨later, same, notifies⟩ := sound.awaits checkedAt isAwaiting
    simp only [Wait.window, isAwaiting] at near
    have unmoved := eq_of_ofNat_eq later near (same.trans sound.seen)
    exact notifies wake (by omega) complete
  refine ⟨notified, ?_⟩
  rw [getElem?_own_steps isWait, Option.map_some]
  cases isPhase : wait.phase with
  | armed | listening =>
    simp only [Wait.window, isPhase] at near
    simp [Wait.listen, Wait.recheck, Wait.await, isPhase, moved near]
  | awaiting checkedAt =>
    simp [Wait.listen, Wait.recheck, Wait.await, isPhase, notified checkedAt isPhase]
  | done => simp [Wait.listen, Wait.recheck, Wait.await, isPhase]

/-- Every wait is served behind a complete wake that started after its arming, if fewer than
`2 ^ 32` wakes started between its arming and its second check. -/
def Serves (world : World) : Prop :=
  ∀ (index : Nat) (wait : Wait) (wake : Nat), world.waits[index]? = some wait →
    wait.window world.wakes.length < 2 ^ 32 → wait.armedAt ≤ wake →
      world.wakes[wake]? = some true → Served world index wait

/-- In every run each wait is served, if fewer than `2 ^ 32` wakes start meanwhile. -/
theorem waits_are_served (events : List Event) : Serves (World.new.run events) :=
  fun _ _ _ isWait near after complete =>
    (Invariant.new.run events).served isWait near after complete

theorem run_append (world : World) (first second : List Event) :
    world.run (first ++ second) = (world.run first).run second :=
  List.foldl_append

theorem run_bumps (world : World) (count : Nat) :
    world.run (List.replicate count .bump) =
      { world with
        generation := world.generation + UInt32.ofNat count
        wakes := world.wakes ++ List.replicate count false } := by
  induction count generalizing world with
  | zero => simp [World.run]
  | succ count ih =>
    rw [List.replicate_succ, ← List.singleton_append, run_append, ih]
    simp [World.run, World.step, UInt32.ofNat_add, List.replicate_succ, UInt32.add_assoc,
      UInt32.add_comm 1]

/-- One wake starts and is complete before the first poll.  If `2 ^ 32 - 1` wakes start
between the listening and the second check, the generation is the old one again, and the
wait awaits a listener that has not been notified. -/
theorem wait_is_left_pending :
    (World.new.run [.arm, .bump, .notify 0]).waits = [⟨0, .armed, false, 0⟩] ∧
      (World.new.run [.arm, .bump, .notify 0]).wakes = [true] ∧
      (World.new.run ([.arm, .bump, .notify 0, .listen 0] ++
        List.replicate (2 ^ 32 - 1) .bump ++ [.recheck 0])).waits =
          [⟨0, .awaiting (2 ^ 32), false, 0⟩] := by
  refine ⟨rfl, rfl, ?_⟩
  have polled : World.new.run [.arm, .bump, .notify 0, .listen 0] =
      ⟨1, [⟨0, .listening, false, 0⟩], [true]⟩ := rfl
  have wrapped : (1 : UInt32) + UInt32.ofNat (2 ^ 32 - 1) = 0 := rfl
  have rechecked (wakes : List Bool) :
      (World.run ⟨0, [⟨0, .listening, false, 0⟩], wakes⟩ [.recheck 0]).waits =
        [⟨0, .awaiting wakes.length, false, 0⟩] := rfl
  rw [run_append, run_append, polled, run_bumps, wrapped, rechecked, List.length_append,
    List.length_replicate]
  rfl

end Mnesis.Subscriptions.GlobalWake
