import Mnesis.Subscriptions.System

/-!
# What one turn of the loop does

A turn is judged in the interference of everything else: rows are added and channels
change.  Each turn continues the delivered events without a gap, and it parks only when
every further event still has its wake to come.
-/

namespace Mnesis.Subscriptions

open Foundation Kernel Store

variable {P E : Type} [LinearOrder P] {target : Target}

theorem all_lt_version (last : Option Version) (version : Version) :
    (last.all fun bound => decide (bound < version)) =
      decide (depth last < version.toNat) := by
  cases last with
  | none => simp [version.toNat_pos]
  | some bound =>
    rw [Option.all_some, decide_eq_decide]
    exact Version.lt_iff_toNat_lt

/-- A scan asks for the rows behind a place. -/
theorem rows_readAfter (place : Option (target.Position P)) (rows : List (Row P)) :
    (target.readAfter place).rows rows = behind target.positionOf place (target.rows rows) := by
  cases target with
  | all =>
    have everything : Target.all.rows rows = rows := List.filter_eq_self.mpr fun _ _ => rfl
    rw [everything]
    rfl
  | stream id =>
    change Option Version at place
    change _ = (rows.filter _).filter fun row =>
      place.all fun bound => decide (bound < row.envelope.version)
    simp only [all_lt_version, List.filter_filter]
    cases continued : following place with
    | some start =>
      have isStart := following_eq_some.mp continued
      simp only [Target.readAfter, continued, Request.rows]
      apply List.filter_congr
      intro row _
      have same : start.toNat ≤ row.envelope.version.toNat ↔
          depth place < row.envelope.version.toNat := by
        omega
      simp [same, Target.covers, Bool.and_comm]
    | none =>
      have isLast := following_eq_none.mp continued
      simp only [Target.readAfter, continued, Request.rows]
      symm
      rw [List.filter_eq_nil_iff]
      intro row _
      have bounded := depth_lt (some row.envelope.version)
      rw [depth_some] at bounded
      have beyond : ¬ depth place < row.envelope.version.toNat := by omega
      simp [beyond]

omit [LinearOrder P] in
theorem mem_rows : row ∈ target.rows rows ↔ row ∈ rows ∧ target.covers row = true :=
  List.mem_filter

/-- Subscriptions of a target were not yet told about a row. -/
def World.Owes (world : World P) (target : Target) (row : Row P) : Prop :=
  ∃ writer ∈ world.writers, row ∈ writer.rows ∧ row.stream ∈ writer.outstanding target

/-- What may happen beside a subscription.  As long as its channel does not change,
rows that it was not told about stay so, and further rows are like that. -/
structure Later (target : Target) (channel : ChannelRef) (view later : View P) : Prop where
  grown : view.world.log.rows <+: later.world.log.rows
  opened : later.opened = view.opened
  changes : view.world.notifiers.changes channel ≤ later.world.notifiers.changes channel
  owes : later.world.notifiers.changes channel = view.world.notifiers.changes channel →
    ∀ row ∈ target.rows later.world.log.rows,
      (row ∈ view.world.log.rows → view.world.Owes target row) → later.world.Owes target row

namespace Later

variable {view middle later : View P}

theorem refl (view : View P) : Later target channel view view where
  grown := List.prefix_rfl
  opened := rfl
  changes := Nat.le_refl _
  owes _ _ present owed := owed (mem_rows.mp present).1

theorem trans (first : Later target channel view middle)
    (second : Later target channel middle later) :
    Later target channel view later where
  grown := first.grown.trans second.grown
  opened := second.opened.trans first.opened
  changes := Nat.le_trans first.changes second.changes
  owes same row present owed := by
    have firstChanges := first.changes
    have secondChanges := second.changes
    refine second.owes (by omega) row present fun earlier => ?_
    exact first.owes (by omega) row (mem_rows.mpr ⟨earlier, (mem_rows.mp present).2⟩) owed

end Later

/-- A wait that is signalled once its subscription is told about a row behind a
place. -/
structure Quiet (target : Target) (channel : ChannelRef) (place : Option (target.Position P))
    (receiver : Receiver) (world : World P) : Prop where
  watches : receiver.channel = channel
  marked : receiver.seen ≤ world.notifiers.changes channel
  owes : world.notifiers.changes channel = receiver.seen →
    ∀ row ∈ behind target.positionOf place (target.rows world.log.rows), world.Owes target row

theorem Quiet.later {view later : View P} (quiet : Quiet target channel place receiver view.world)
    (during : Later target channel view later) :
    Quiet target channel place receiver later.world where
  watches := quiet.watches
  marked := Nat.le_trans quiet.marked during.changes
  owes same row present := by
    have marked := quiet.marked
    have changes := during.changes
    obtain ⟨isRow, isBehind⟩ := mem_behind.mp present
    refine during.owes (by omega) row isRow fun earlier => ?_
    have known := mem_rows.mpr ⟨earlier, (mem_rows.mp isRow).2⟩
    exact quiet.owes (by omega) row (mem_behind.mpr ⟨known, isBehind⟩)

/-- What a suspension needs.  Only a wait needs something. -/
def Needs (target : Target) (channel : ChannelRef) (place : Option (target.Position P))
    (suspension : Suspension P) (view : View P) : Prop :=
  ∀ receiver, suspension = .wait receiver → Quiet target channel place receiver view.world

/-- The loop of a subscription that stands at a place, and its surroundings. -/
def contract (target : Target) (registration : WakeReg) (place : Option (target.Position P)) :
    Contract (LiveState P target) (Suspension P) (Suspension.Answer E) (View P) where
  guard suspension _ := Needs target registration.rx.channel place suspension
  issue _ view := view
  rely := Later target registration.rx.channel
  answer := Answers registration
  rely_trans := Later.trans

/-- A scan goes on behind the events that were delivered. -/
structure ScanAt (start : Option (target.Position P)) (delivered : List (Row P))
    (scan : Scan P) (world : World P) : Prop where
  earlier : scan.opened <+: world.log.rows
  resumed : ∃ place : Option (target.Position P),
    (∀ rows, scan.request.rows rows = behind target.positionOf place (target.rows rows)) ∧
      Scanning target.positionOf start delivered (target.rows scan.opened) place scan.taken

/-- The delivered events are the first ones behind the start, and the loop goes on
behind them. -/
structure Standing (start : Option (target.Position P)) (received : List (Item P E))
    (live : LiveState P target) (world : World P) : Prop where
  first : deliveredIn received <+: behind target.positionOf start (target.rows world.log.rows)
  place : live.readFrom = placeAfter target.positionOf start (deliveredIn received)
  scan : ∀ scan, live.scan = some scan → ScanAt start (deliveredIn received) scan world
  marked : received.countP Item.isCaughtUp = live.caughtUp.toNat

namespace Standing

variable {start : Option (target.Position P)} {received : List (Item P E)}
variable {live after : LiveState P target} {world : World P}

theorem new (world : World P) :
    Standing start ([] : List (Item P E)) (.new target start) world where
  first := List.nil_prefix
  place := rfl
  scan _ isScan := by cases isScan
  marked := rfl

theorem later (during : Later target channel view next)
    (standing : Standing start received live view.world) :
    Standing start received live next.world where
  first := standing.first.trans (behind_of_grown (during.grown.filter _) start)
  place := standing.place
  scan scan isScan :=
    let scanAt := standing.scan scan isScan
    ⟨scanAt.earlier.trans during.grown, scanAt.resumed⟩
  marked := standing.marked

section

variable (standing : Standing start received live world)
include standing

theorem scanAt :
    ScanAt start (deliveredIn received)
      ⟨target.readAfter live.readFrom, world.log.rows, 0⟩ world := by
  refine ⟨List.prefix_rfl, live.readFrom, rows_readAfter live.readFrom, ?_⟩
  rw [standing.place]
  exact .resume standing.first

theorem rescan
    (samePlace : after.readFrom = live.readFrom) (sameMark : after.caughtUp = live.caughtUp)
    (scans : ∀ scan, after.scan = some scan → ScanAt start (deliveredIn received) scan world) :
    Standing start received after world where
  first := standing.first
  place := samePlace.trans standing.place
  scan := scans
  marked := by rw [sameMark]; exact standing.marked

theorem fail (unscanned : live.scan = none) (error : E) :
    Standing start (received ++ [.error error]) live world where
  first := by simpa using standing.first
  place := by simpa using standing.place
  scan scan isScan := by
    rw [unscanned] at isScan
    cases isScan
  marked := by simpa using standing.marked

/-- The next row of a scan is delivered; the scan is kept or dropped. -/
theorem deliver {scan : Scan P} (scanAt : ScanAt start (deliveredIn received) scan world)
    (isNext : (scan.request.rows world.log.rows)[scan.taken]? = some row)
    (isPlace : after.readFrom = some (target.positionOf row))
    (sameMark : after.caughtUp = live.caughtUp)
    (kept : ∀ other, after.scan = some other → other = { scan with taken := scan.taken + 1 }) :
    Standing start (received ++ [.ok (.event row)]) after world := by
  obtain ⟨place, isRequest, scanning⟩ := scanAt.resumed
  rw [isRequest] at isNext
  obtain ⟨first, scanning⟩ := scanning.next (world.log.increasing target) standing.first isNext
  constructor
  · simpa using first
  · simpa using isPlace
  · intro other isOther
    rw [kept other isOther]
    refine ⟨scanAt.earlier, place, isRequest, ?_⟩
    simpa using scanning
  · rw [sameMark]
    simpa using standing.marked

theorem mark (unmarked : live.caughtUp = false)
    (samePlace : after.readFrom = live.readFrom) (unscanned : after.scan = none)
    (marks : after.caughtUp = true) :
    Standing start (received ++ [.ok .caughtUp]) after world where
  first := by simpa using standing.first
  place := by simpa using samePlace.trans standing.place
  scan scan isScan := by
    rw [unscanned] at isScan
    cases isScan
  marked := by
    have isMarked := standing.marked
    rw [unmarked] at isMarked
    simp [isMarked, marks]

end

end Standing

/-- The contract of a turn that starts after some items were received. -/
abbrev turnContract (registration : WakeReg) (start : Option (target.Position P))
    (received : List (Item P E)) :
    Contract (LiveState P target) (Suspension P) (Suspension.Answer E) (View P) :=
  contract target registration (placeAfter target.positionOf start (deliveredIn received))

/-- How a turn of the loop ends. -/
structure Ends (start : Option (target.Position P)) (received : List (Item P E))
    (result : Flow Unit (Item P E)) (live : LiveState P target) (view : View P) : Prop where
  again : result = .again () → Standing start received live view.world
  stop : ∀ item, result = .stop item → Standing start (received ++ [item]) live view.world
  complete : result = .stop (.ok .caughtUp) →
    behind target.positionOf start (target.rows view.opened) <+: deliveredIn received

section Turns

variable {start : Option (target.Position P)} {received : List (Item P E)}
variable {live : LiveState P target} {view : View P} {registration : WakeReg}

namespace Ends

theorem of_again (standing : Standing start received live view.world) :
    Ends start received (.again ()) live view where
  again _ := standing
  stop _ isStop := by cases isStop
  complete isStop := by cases isStop

theorem of_event (standing : Standing start (received ++ [.ok (.event row)]) live view.world) :
    Ends start received (.stop (.ok (.event row))) live view where
  again isAgain := by cases isAgain
  stop item isItem := by
    cases isItem
    exact standing
  complete isMarker := by cases isMarker

theorem of_error (standing : Standing start (received ++ [.error error]) live view.world) :
    Ends start received (.stop (.error error)) live view where
  again isAgain := by cases isAgain
  stop item isItem := by
    cases isItem
    exact standing
  complete isMarker := by cases isMarker

theorem of_caughtUp (standing : Standing start (received ++ [.ok .caughtUp]) live view.world)
    (complete : behind target.positionOf start (target.rows view.opened) <+: deliveredIn received) :
    Ends start received (.stop (.ok .caughtUp)) live view where
  again isAgain := by cases isAgain
  stop item isItem := by
    cases isItem
    exact standing
  complete _ := complete

theorem later (ends : Ends start received result live view)
    (during : Later target registration.rx.channel view next) :
    Ends start received result live next where
  again isAgain := (ends.again isAgain).later during
  stop item isItem := (ends.stop item isItem).later during
  complete isMarker := by
    rw [during.opened]
    exact ends.complete isMarker

end Ends

/-- A wait that was armed before a scan was opened that found nothing. -/
theorem quiet_of_empty {now : View P}
    (untilOpen : Later target registration.rx.channel armed opened)
    (untilNow : Later target registration.rx.channel
      { opened with opened := opened.world.log.rows } now)
    (nothing : behind target.positionOf place (target.rows opened.world.log.rows) = []) :
    Quiet target registration.rx.channel place (registration.arm armed.world.notifiers)
      now.world where
  watches := rfl
  marked := Nat.le_trans untilOpen.changes untilNow.changes
  owes same row present := by
    obtain ⟨isRow, isBehind⟩ := mem_behind.mp present
    have firstChanges := untilOpen.changes
    have unchanged : now.world.notifiers.changes registration.rx.channel =
        opened.world.notifiers.changes registration.rx.channel :=
      Nat.le_antisymm (same ▸ firstChanges) untilNow.changes
    -- a row that was there when the scan was opened would have been found
    refine untilNow.owes unchanged row isRow fun earlier => ?_
    have found := mem_behind.mpr ⟨mem_rows.mpr ⟨earlier, (mem_rows.mp isRow).2⟩, isBehind⟩
    rw [nothing] at found
    cases found

theorem needs_of_ne (different : ∀ receiver, suspension ≠ .wait receiver) :
    Needs target channel place suspension view :=
  fun receiver isWait => absurd isWait (different receiver)

section

variable (standing : Standing start received live view.world)
include standing

theorem safe_park (unscanned : live.scan = none)
    (quiet : Quiet target registration.rx.channel live.readFrom wait view.world)
    (complete : behind target.positionOf start (target.rows view.opened) <+: deliveredIn received) :
    Program.Safe (turnContract registration start received) (Ends start received)
      (park live wait) live view := by
  rw [park]
  split
  next marked =>
    constructor
    · rintro _ ⟨⟩
      rw [← standing.place]
      exact quiet
    · intro wokenView _ _ untilWoken woken
      cases woken
      exact .of_again (standing.later untilWoken)
  next unmarked =>
    have unmarked : live.caughtUp = false := by simpa using unmarked
    exact .of_caughtUp (standing.mark unmarked rfl unscanned rfl) complete

/-- A wait is parked only behind a scan that found nothing. -/
theorem safe_confirm :
    Program.Safe (turnContract registration start received) (Ends start received)
      (confirm target) live view := by
  have unscanned : Standing start received { live with scan := none } view.world :=
    standing.rescan rfl rfl (by rintro _ ⟨⟩)
  rw [confirm, Program.safe_get_bind, Program.safe_set_bind]
  refine ⟨needs_of_ne (by simp), ?_⟩
  intro armView _ _ untilArm armed
  cases armed
  refine ⟨needs_of_ne (by simp), ?_⟩
  intro openView _ _ untilOpen opened
  have atOpen := (unscanned.later untilArm).later untilOpen
  cases opened with
  | openFailed stored error => exact .of_error (atOpen.fail rfl error)
  | opened request =>
    have openAt := atOpen.scanAt
    refine ⟨needs_of_ne (by simp), ?_⟩
    intro readView _ _ untilRead read
    have atRead := atOpen.later untilRead
    cases read with
    | rowFailed stored error => exact .of_error (atRead.fail rfl error)
    | row isNext =>
      have readAt : ScanAt start (deliveredIn received) _ readView.world :=
        ⟨openAt.earlier.trans untilRead.grown, openAt.resumed⟩
      exact .of_event (atRead.deliver readAt isNext rfl rfl fun _ kept =>
        (Option.some.inj kept).symm)
    | finished complete =>
      have nothing : behind target.positionOf live.readFrom
          (target.rows openView.world.log.rows) = [] := by
        rw [← rows_readAfter]
        exact List.length_eq_zero_iff.mp (Nat.le_zero.mp complete)
      have isAll : behind target.positionOf start (target.rows openView.world.log.rows) =
          deliveredIn received := by
        rw [behind_eq_append (openView.world.log.increasing target) atOpen.first,
          ← atOpen.place, nothing, List.append_nil]
      apply safe_park atRead rfl (quiet_of_empty untilOpen untilRead nothing)
      rw [untilRead.opened]
      exact isAll ▸ List.prefix_rfl

theorem safe_drain :
    Program.Safe (turnContract registration start received) (Ends start received)
      (drain target) live view := by
  rw [drain, Program.safe_get_bind]
  cases isScan : live.scan with
  | none => exact .of_again standing
  | some scan =>
    refine ⟨needs_of_ne (by simp), ?_⟩
    intro readView _ _ untilRead read
    have atRead := standing.later untilRead
    have unscanned : Standing start received { live with scan := none } readView.world :=
      atRead.rescan rfl rfl (by rintro _ ⟨⟩)
    cases read with
    | row isNext =>
      apply Ends.of_event
      refine atRead.deliver (atRead.scan scan isScan) isNext rfl rfl ?_
      intro other kept
      exact (Option.some.inj (Option.ite_none_left_eq_some.mp kept).2).symm
    | rowFailed stored error => exact .of_error (unscanned.fail rfl error)
    | finished complete => exact safe_confirm atRead

theorem safe_liveStepped :
    Program.Safe (turnContract registration start received) (Ends start received)
      (liveStepped target) live view := by
  rw [liveStepped, Program.safe_bind, ensureScan, Program.safe_get_bind]
  cases isScan : live.scan with
  | some scan => exact safe_drain standing
  | none =>
    refine ⟨needs_of_ne (by simp), ?_⟩
    intro openView _ _ untilOpen opened
    have atOpen := standing.later untilOpen
    cases opened with
    | openFailed stored error => exact .of_error (atOpen.fail isScan error)
    | opened request =>
      apply safe_drain
      refine atOpen.rescan rfl rfl ?_
      rintro _ ⟨⟩
      exact atOpen.scanAt

end

end Turns

end Mnesis.Subscriptions
