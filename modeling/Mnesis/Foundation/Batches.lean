import Mnesis.Foundation.Bytes

/-!
# Reading rows in batches

A cursor is asked for its rows one by one, each a value or a failure and each with
a size.  A batch takes rows up to a number of them and of bytes; it stops behind a
failure, at the end, and where the sizes no longer fit into a word.

The rows that batches deliver do not depend on how they are cut, as long as no batch
overflows: they are those of the cursor up to and including its first failure.
-/

namespace Mnesis.Foundation

variable {State Scan Error Item : Type}

/-- A row with its size. -/
abbrev SizedRow (Error Item : Type) := Except Error Item × Nat

/-- How many rows and how many bytes make a batch.  Sizes are added below a capacity,
and a failure says that they cannot be. -/
structure BatchLimits (Error : Type) where
  rows : Nat
  bytes : Nat
  capacity : Nat
  overflow : Error
  rows_pos : 0 < rows

/-- How rows are taken from a state, and whether there may be more behind an item. -/
structure RowSource (State Error Item : Type) where
  nextRow : State → Option (SizedRow Error Item) × State
  advance : Item → State → Bool × State

/-- The rows of a batch, the state behind them, and whether there may be more. -/
structure Filled (State Error Item : Type) where
  rows : List (Except Error Item)
  state : State
  more : Bool

namespace RowSource

/-- Fill a batch that may take some more rows and has taken some bytes and rows. -/
def fill (source : RowSource State Error Item) (limits : BatchLimits Error) :
    Nat → State → Nat → List (Except Error Item) → Filled State Error Item
  | 0, state, _, rows => ⟨rows, state, true⟩
  | left + 1, state, bytes, rows =>
    match source.nextRow state with
    | (none, state) => ⟨rows, state, false⟩
    | (some (.error error, _), state) => ⟨rows ++ [.error error], state, false⟩
    | (some (.ok item, size), state) =>
      match narrow limits.capacity (bytes + size) with
      | none => ⟨rows ++ [.error limits.overflow], state, false⟩
      | some total =>
        let (more, state) := source.advance item state
        if more then
          if limits.bytes ≤ total then
            ⟨rows ++ [.ok item], state, true⟩
          else
            source.fill limits left state total (rows ++ [.ok item])
        else
          ⟨rows ++ [.ok item], state, false⟩

section Fill

variable {source : RowSource State Error Item} {limits : BatchLimits Error}
variable {state behind after : State} {item : Item}
theorem fill_of_none (isNext : source.nextRow state = (none, behind)) :
    source.fill limits (left + 1) state bytes taken = ⟨taken, behind, false⟩ := by
  simp only [fill, isNext]

theorem fill_of_error (isNext : source.nextRow state = (some (.error error, size), behind)) :
    source.fill limits (left + 1) state bytes taken = ⟨taken ++ [.error error], behind, false⟩ := by
  simp only [fill, isNext]

variable (isNext : source.nextRow state = (some (.ok item, size), behind))
include isNext

theorem fill_of_overflow (large : limits.capacity ≤ bytes + size) :
    source.fill limits (left + 1) state bytes taken =
      ⟨taken ++ [.error limits.overflow], behind, false⟩ := by
  simp only [fill, isNext, narrow, if_neg (Nat.not_lt.mpr large)]

variable (fits : bytes + size < limits.capacity)
include fits

theorem fill_of_last (isLast : source.advance item behind = (false, after)) :
    source.fill limits (left + 1) state bytes taken = ⟨taken ++ [.ok item], after, false⟩ := by
  simp [fill, isNext, narrow_of_lt fits, isLast]

theorem fill_of_full (advanced : source.advance item behind = (true, after))
    (full : limits.bytes ≤ bytes + size) :
    source.fill limits (left + 1) state bytes taken = ⟨taken ++ [.ok item], after, true⟩ := by
  simp [fill, isNext, narrow_of_lt fits, advanced, full]

theorem fill_of_item (advanced : source.advance item behind = (true, after))
    (notFull : ¬ limits.bytes ≤ bytes + size) :
    source.fill limits (left + 1) state bytes taken =
      source.fill limits left after (bytes + size) (taken ++ [.ok item]) := by
  simp [fill, isNext, narrow_of_lt fits, advanced, notFull]

end Fill

end RowSource

/-- Rows up to and including the first failure. -/
def uptoFailure : List (SizedRow Error Item) → List (Except Error Item)
  | [] => []
  | (.error error, _) :: _ => [.error error]
  | (.ok item, _) :: rows => .ok item :: uptoFailure rows

/-- The row of an item. -/
def sizedItem (item : Item × Nat) : SizedRow Error Item := (.ok item.1, item.2)

/-- The rows of some items, and perhaps a failure behind them. -/
def sizedRows (items : List (Item × Nat)) (failure : Option Error) : List (SizedRow Error Item) :=
  items.map sizedItem ++ failure.toList.map fun error => (.error error, 0)

/-- How many rows a batch may still take, and how many bytes it has taken. -/
structure Room where
  left : Nat
  bytes : Nat

namespace BatchLimits

variable (limits : BatchLimits Error)

/-- The room of a new batch. -/
def fresh : Room := ⟨limits.rows, 0⟩

/-- The room of a batch that may take some more rows: that of a new batch if it may take
none. -/
def room (left bytes : Nat) : Room :=
  if left = 0 then limits.fresh else ⟨left, bytes⟩

/-- The room behind a row of some size. -/
def behind (room : Room) (size : Nat) : Room :=
  if limits.bytes ≤ room.bytes + size then limits.fresh
  else limits.room (room.left - 1) (room.bytes + size)

/-- What batches deliver of some rows, where the first one has some room. -/
def delivered : Room → List (SizedRow Error Item) → List (Except Error Item)
  | _, [] => []
  | _, (.error error, _) :: _ => [.error error]
  | room, (.ok item, size) :: rows =>
    if limits.capacity ≤ room.bytes + size then [.error limits.overflow]
    else .ok item :: delivered (limits.behind room size) rows

/-- The sizes in each batch can be added. -/
def Fits : Room → List (SizedRow Error Item) → Prop
  | _, [] => True
  | _, (.error _, _) :: _ => True
  | room, (.ok _, size) :: rows =>
    room.bytes + size < limits.capacity ∧ Fits (limits.behind room size) rows

variable {limits}

/-- Batches that do not overflow deliver the rows up to the first failure. -/
theorem delivered_of_fits {room : Room} {rows : List (SizedRow Error Item)}
    (fits : limits.Fits room rows) :
    limits.delivered room rows = uptoFailure rows := by
  induction rows generalizing room with
  | nil => rfl
  | cons row rows rest =>
    obtain ⟨row, size⟩ := row
    cases row with
    | error error => rfl
    | ok item =>
      obtain ⟨below, later⟩ := fits
      rw [delivered, uptoFailure, if_neg (Nat.not_le.mpr below), rest later]

/-- Batches deliver the items one by one, and at last the failure behind them, unless
there is an overflow. -/
theorem items_of_delivered {failure : Option Error} {room : Room}
    (isDelivered : limits.delivered room (sizedRows items failure) = taken.map .ok ++ upcoming) :
    taken <+: items.map Prod.fst ∧
      (upcoming = [] → taken = items.map Prod.fst ∧ failure = none) ∧
      ∀ error later, upcoming = .error error :: later →
        error = limits.overflow ∧ ¬ limits.Fits room (items.map (@sizedItem Error Item)) ∨
          failure = some error ∧ taken = items.map Prod.fst := by
  induction items generalizing room taken with
  | nil =>
    cases taken with
    | cons item taken =>
      cases failure with
      | none => cases isDelivered
      | some error => cases isDelivered
    | nil =>
      obtain rfl : limits.delivered room (sizedRows [] failure) = upcoming := isDelivered
      cases failure with
      | none => exact ⟨List.nil_prefix, fun _ => ⟨rfl, rfl⟩, nofun⟩
      | some failure =>
        refine ⟨List.nil_prefix, nofun, ?_⟩
        rintro error later ⟨⟩
        exact .inr ⟨rfl, rfl⟩
  | cons entry items rest =>
    change limits.delivered room ((.ok entry.1, entry.2) :: sizedRows items failure) = _
      at isDelivered
    rw [delivered] at isDelivered
    split at isDelivered
    next large =>
      cases taken with
      | cons item taken => simp at isDelivered
      | nil =>
        obtain rfl : [.error limits.overflow] = upcoming := isDelivered
        refine ⟨List.nil_prefix, nofun, ?_⟩
        rintro error later ⟨⟩
        exact .inl ⟨rfl, fun fits => absurd large (Nat.not_le.mpr fits.1)⟩
    next =>
      cases taken with
      | nil =>
        obtain rfl := isDelivered
        exact ⟨List.nil_prefix, nofun, nofun⟩
      | cons item taken =>
        obtain ⟨isItem, isRest⟩ := List.cons.inj isDelivered
        obtain rfl := Except.ok.inj isItem
        obtain ⟨isPrefix, all, failed⟩ := rest isRest
        refine ⟨(List.prefix_cons_inj _).mpr isPrefix, fun clean => ?_,
          fun error later isError => ?_⟩
        · exact ⟨congrArg (List.cons _) (all clean).1, (all clean).2⟩
        · refine (failed error later isError).imp ?_ ?_
          · exact fun overflow => ⟨overflow.1, fun fits => overflow.2 fits.2⟩
          · exact fun isFailure => ⟨isFailure.1, congrArg (List.cons _) isFailure.2⟩

end BatchLimits

namespace RowSource

/-- The rows that are ahead of a state.  A source gives them one by one and goes on
behind an item, unless there are no more.  Whatever a source is asked in a state with
rows ahead leaves it in a state of `past`. -/
structure Follows (source : RowSource State Error Item)
    (ahead : State → List (SizedRow Error Item) → Prop) (past : State → Prop) : Prop where
  ended : ∀ {state}, ahead state [] → (source.nextRow state).1 = none
  row : ∀ {state row rows}, ahead state (row :: rows) → (source.nextRow state).1 = some row
  asked : ∀ {state rows}, ahead state rows → past (source.nextRow state).2
  advanced : ∀ {state item size rows after}, ahead state ((.ok item, size) :: rows) →
    source.advance item (source.nextRow state).2 = (true, after) → ahead after rows
  exhausted : ∀ {state item size rows after}, ahead state ((.ok item, size) :: rows) →
    source.advance item (source.nextRow state).2 = (false, after) → rows = [] ∧ past after

/-- What a filled batch leaves of the rows to deliver, behind those it has added: the
rows that are ahead of its state, or none. -/
structure Leaves (limits : BatchLimits Error) (ahead : State → List (SizedRow Error Item) → Prop)
    (past : State → Prop) (filled : Filled State Error Item)
    (added rest : List (Except Error Item)) : Prop where
  more : filled.more = true → ∃ rows, ahead filled.state rows ∧
    rest = limits.delivered limits.fresh rows
  items : filled.more = true → ∀ row ∈ added, ∃ item, row = .ok item
  stopped : filled.more = false → rest = [] ∧ past filled.state

variable {source : RowSource State Error Item} {limits : BatchLimits Error}
variable {ahead : State → List (SizedRow Error Item) → Prop} {past : State → Prop}

theorem leaves_stopped (isPast : past state) (added : List (Except Error Item)) :
    Leaves limits ahead past ⟨taken, state, false⟩ added [] where
  more impossible := by cases impossible
  items impossible := by cases impossible
  stopped _ := ⟨rfl, isPast⟩

theorem leaves_more (isAhead : ahead state rows) (items : ∀ row ∈ added, ∃ item, row = .ok item) :
    Leaves limits ahead past ⟨taken, state, true⟩ added (limits.delivered limits.fresh rows) where
  more _ := ⟨rows, isAhead, rfl⟩
  items _ := items
  stopped impossible := by cases impossible

theorem Leaves.cons (leaves : Leaves limits ahead past filled added rest) (item : Item) :
    Leaves limits ahead past filled (.ok item :: added) rest where
  more := leaves.more
  items more := List.forall_mem_cons.mpr ⟨⟨item, rfl⟩, leaves.items more⟩
  stopped := leaves.stopped

/-- A batch delivers the first of the rows, and at least one if there may be more. -/
theorem Follows.fill (follows : source.Follows ahead past) {state : State}
    {rows : List (SizedRow Error Item)} (isAhead : ahead state rows) (left bytes : Nat)
    (taken : List (Except Error Item)) :
    ∃ added rest,
      (source.fill limits left state bytes taken).rows = taken ++ added ∧
      limits.delivered (limits.room left bytes) rows = added ++ rest ∧
      Leaves limits ahead past (source.fill limits left state bytes taken) added rest ∧
      ((source.fill limits left state bytes taken).more = true → left ≠ 0 → added ≠ []) := by
  induction left generalizing bytes state rows taken with
  | zero => exact ⟨[], _, (List.append_nil taken).symm, rfl,
      leaves_more isAhead (List.forall_mem_nil _), nofun⟩
  | succ left later =>
    have asked := follows.asked isAhead
    have isRoom : limits.room (left + 1) bytes = ⟨left + 1, bytes⟩ := rfl
    rw [isRoom]
    cases rows with
    | nil =>
      rw [fill_of_none (Prod.ext (follows.ended isAhead) rfl)]
      exact ⟨[], [], (List.append_nil taken).symm, rfl, leaves_stopped asked _, nofun⟩
    | cons row rows =>
      obtain ⟨row, size⟩ := row
      have isNext : source.nextRow state = (some (row, size), (source.nextRow state).2) :=
        Prod.ext (follows.row isAhead) rfl
      cases row with
      | error error =>
        rw [fill_of_error isNext]
        exact ⟨[.error error], [], rfl, rfl, leaves_stopped asked _, nofun⟩
      | ok item =>
        by_cases large : limits.capacity ≤ bytes + size
        · rw [fill_of_overflow isNext large, BatchLimits.delivered, if_pos large]
          exact ⟨[.error limits.overflow], [], rfl, rfl, leaves_stopped asked _, nofun⟩
        · have fits := Nat.not_le.mp large
          rw [BatchLimits.delivered, if_neg large, BatchLimits.behind]
          rcases isAdvanced : source.advance item (source.nextRow state).2 with
            ⟨_ | _, after⟩
          · obtain ⟨rfl, isPast⟩ := follows.exhausted isAhead isAdvanced
            rw [fill_of_last isNext fits isAdvanced]
            exact ⟨[.ok item], [], rfl, rfl, leaves_stopped isPast _, nofun⟩
          · have isAfter := follows.advanced isAhead isAdvanced
            by_cases full : limits.bytes ≤ bytes + size
            · rw [fill_of_full isNext fits isAdvanced full, if_pos full]
              refine ⟨[.ok item], _, rfl, rfl, leaves_more isAfter ?_, fun _ _ => nofun⟩
              simp
            · obtain ⟨added, rest, isRows, isDelivered, leaves, _⟩ :=
                later isAfter (bytes + size) (taken ++ [.ok item])
              rw [fill_of_item isNext fits isAdvanced full, if_neg full]
              refine ⟨.ok item :: added, rest, ?_, ?_, leaves.cons item, fun _ _ => nofun⟩
              · rw [isRows, List.append_assoc, List.singleton_append]
              · rw [Nat.add_sub_cancel, isDelivered, List.cons_append]

end RowSource

/-- Rows that were fetched, and the scan that fetches more. -/
structure Batch (Scan Error Item : Type) where
  scan : Option Scan
  rows : List (Except Error Item)

/-- The rows of a filled batch, and the scan that its state goes on with. -/
def Filled.batch (scanOf : State → Scan) (filled : Filled State Error Item) :
    Batch Scan Error Item where
  scan := if filled.more then some (scanOf filled.state) else none
  rows := filled.rows

namespace Batch

/-- The rows that are still to come are those at hand, and behind them what remains of
the scan.  While there is a scan none of the rows at hand is a failure. -/
structure Precedes (remains : Scan → List (Except Error Item) → Prop)
    (batch : Batch Scan Error Item) (upcoming : List (Except Error Item)) : Prop where
  exhausted : batch.scan = none → upcoming = batch.rows
  scanning : ∀ scan, batch.scan = some scan → ∃ rest, upcoming = batch.rows ++ rest ∧
    remains scan rest
  items : batch.scan ≠ none → ∀ row ∈ batch.rows, ∃ item, row = .ok item

variable {remains : Scan → List (Except Error Item) → Prop}
theorem precedes_scan {scan : Scan} (isRest : remains scan upcoming) :
    Precedes remains ⟨some scan, []⟩ upcoming where
  exhausted impossible := by cases impossible
  scanning _ isScan := by
    cases isScan
    exact ⟨upcoming, rfl, isRest⟩
  items _ := List.forall_mem_nil _

theorem precedes_rows (rows : List (Except Error Item)) : Precedes remains ⟨none, rows⟩ rows where
  exhausted _ := rfl
  scanning _ impossible := by cases impossible
  items impossible := absurd rfl impossible

/-- Without rows at hand it is for the scan to say what comes. -/
theorem Precedes.remains_of_nil (precedes : Precedes remains batch upcoming)
    (empty : batch.rows = []) {scan : Scan} (isScan : batch.scan = some scan) :
    remains scan upcoming := by
  obtain ⟨rest, isUpcoming, isRest⟩ := precedes.scanning scan isScan
  rw [empty, List.nil_append] at isUpcoming
  exact isUpcoming ▸ isRest

/-- The first row at hand comes next. -/
theorem Precedes.pop {rows : List (Except Error Item)} (precedes : Precedes remains batch upcoming)
    (isRows : batch.rows = row :: rows) :
    ∃ later, upcoming = row :: later ∧ Precedes remains { batch with rows } later := by
  obtain ⟨scan, _⟩ := batch
  subst isRows
  cases scan with
  | none => exact ⟨rows, precedes.exhausted rfl, precedes_rows rows⟩
  | some scan =>
    obtain ⟨rest, isUpcoming, isRest⟩ := precedes.scanning scan rfl
    refine ⟨rows ++ rest, isUpcoming, nofun, ?_, fun isSome => ?_⟩
    · rintro _ ⟨⟩
      exact ⟨rest, rfl, isRest⟩
    · exact (List.forall_mem_cons.mp (precedes.items isSome)).2

end Batch

namespace RowSource

variable {source : RowSource State Error Item}
variable {ahead : State → List (SizedRow Error Item) → Prop} {past : State → Prop}
/-- A new batch has the first of the rows to deliver.  It is empty at the end only. -/
theorem Follows.batch (follows : source.Follows ahead past)
    {remains : Scan → List (Except Error Item) → Prop}
    (continues : ∀ {state rows}, ahead state rows →
      remains (scanOf state) (limits.delivered limits.fresh rows)) (isAhead : ahead state rows) :
    Batch.Precedes remains ((source.fill limits limits.rows state 0 []).batch scanOf)
        (limits.delivered limits.fresh rows) ∧
      (((source.fill limits limits.rows state 0 []).batch scanOf).rows = [] →
        ((source.fill limits limits.rows state 0 []).batch scanOf).scan = none) := by
  have positive : limits.rows ≠ 0 := Nat.ne_of_gt limits.rows_pos
  obtain ⟨added, rest, isRows, isDelivered, leaves, nonempty⟩ :=
    @Follows.fill _ _ _ _ limits _ _ follows _ _ isAhead limits.rows 0 []
  rw [List.nil_append] at isRows
  rw [BatchLimits.room, if_neg positive] at isDelivered
  change limits.delivered limits.fresh rows = added ++ rest at isDelivered
  rw [isDelivered]
  cases isMore : (source.fill limits limits.rows state 0 []).more with
  | false =>
    obtain ⟨rfl, _⟩ := leaves.stopped isMore
    refine ⟨?_, fun _ => if_neg (Bool.eq_false_iff.mp isMore)⟩
    simp only [Filled.batch, isMore, isRows, List.append_nil, Bool.false_eq_true, if_false]
    exact Batch.precedes_rows added
  | true =>
    obtain ⟨others, isOthers, rfl⟩ := leaves.more isMore
    refine ⟨?_, fun empty => absurd (isRows.symm.trans empty) (nonempty isMore positive)⟩
    simp only [Filled.batch, isMore, isRows, if_true]
    refine ⟨nofun, ?_, fun _ => leaves.items isMore⟩
    rintro _ ⟨⟩
    exact ⟨_, rfl, continues isOthers⟩

/-- The state behind a batch. -/
theorem Follows.past_fill (follows : source.Follows ahead past)
    (isPast : ∀ {state rows}, ahead state rows → past state) (isAhead : ahead state rows)
    (limits : BatchLimits Error) :
    past (source.fill limits limits.rows state 0 []).state := by
  obtain ⟨_, _, _, _, leaves, _⟩ :=
    @Follows.fill _ _ _ _ limits _ _ follows _ _ isAhead limits.rows 0 []
  cases isMore : (source.fill limits limits.rows state 0 []).more with
  | false => exact (leaves.stopped isMore).2
  | true =>
    obtain ⟨others, isOthers, _⟩ := leaves.more isMore
    exact isPast isOthers

end RowSource

end Mnesis.Foundation
