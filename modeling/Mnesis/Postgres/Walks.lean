import Mnesis.Foundation.Growing
import Mnesis.Postgres.ReadStream

/-!
# What scans yield to their end

The events that a scan is about stay the same from its opening on.  Its pages are
cut from them one behind the other, none of them empty while events are left.  So
the pages of a scan that has ended are these events, each of them once.
-/

namespace Mnesis.Postgres

open Foundation Kernel Store

variable {Session : Type} {db after : Database Session}

section Selections

variable {Position : Type} [LinearOrder Position] {column : EventRow → Position}
theorem selectionBy_increasing (sound : db.Sound)
    (distinct : ((db.events.filter condition).map column).Nodup) :
    Increasing (fun pair : EventRow × KeyRow => column pair.1)
      (selectionBy column condition db) := by
  have leading := Leading.of_prefix (List.prefix_refl ((db.events.filter condition).insertionSort
    fun row other => column row ≤ column other)) distinct
  have increasing := leading.increasing
  rw [← map_fst_selectionBy sound, List.pairwise_map] at increasing
  exact increasing

theorem joined_of_more_keys (unique : ((keys ++ more).map KeyRow.number).Nodup)
    (known : ∀ row ∈ events, row.streamId ∈ keys.map KeyRow.number) :
    joined (keys ++ more) events = joined keys events := by
  unfold joined
  apply List.flatMap_congr
  intro row present
  have empty : more.filter (fun key => key.number = row.streamId) = [] := by
    rw [List.filter_eq_nil_iff]
    intro key added same
    rw [List.map_append, List.nodup_append] at unique
    exact unique.2.2 row.streamId (known row present) key.number (List.mem_map_of_mem added)
      (of_decide_eq_true same).symm
  rw [List.filter_append, empty, List.append_nil]

/-- Rows that are not selected do not matter. -/
theorem selectionBy_of_grown (sound : after.Sound)
    (known : ∀ row ∈ db.events, row.streamId ∈ db.keys.map KeyRow.number)
    (keys : db.keys <+: after.keys) (events : db.events <+: after.events)
    (final : ∀ row ∈ after.events, condition row = true → row ∈ db.events) :
    selectionBy column condition after = selectionBy column condition db := by
  obtain ⟨moreKeys, isKeys⟩ := keys
  obtain ⟨moreEvents, isEvents⟩ := events
  have constraints := sound.constraints
  rw [← isKeys, ← isEvents] at constraints
  have empty : (joined after.keys moreEvents).filter (fun pair => condition pair.1) = [] := by
    rw [List.filter_eq_nil_iff]
    intro pair present meets
    have added := (mem_joined.mp present).1
    have already := final pair.1 (isEvents ▸ List.mem_append_right _ added) meets
    have unique := constraints.eventsPkey
    rw [List.map_append, List.nodup_append] at unique
    exact unique.2.2 _ (List.mem_map_of_mem already) _ (List.mem_map_of_mem added) rfl
  have split : joined after.keys after.events =
      joined db.keys db.events ++ joined after.keys moreEvents := by
    rw [← isEvents, joined, List.flatMap_append]
    congr 1
    rw [← isKeys]
    exact joined_of_more_keys constraints.keysPkey known
  unfold selectionBy
  rw [split, List.filter_append, empty, List.append_nil]

/-- What is behind the last row is the rest of a selection. -/
theorem selectionBy_behind (sound : db.Sound)
    (distinct : ((db.events.filter condition).map column).Nodup) (count : Nat)
    (behind : ∀ row ∈ db.events, narrower row = true ↔ condition row = true ∧
      ∀ last ∈ ((selectionBy column condition db).take count).getLast?,
        column last.1 < column row) :
    selectionBy column narrower db = (selectionBy column condition db).drop count := by
  have increasing := selectionBy_increasing sound distinct
  have narrowed : db.events.filter narrower = (db.events.filter condition).filter narrower := by
    rw [List.filter_filter]
    apply List.filter_congr
    intro row present
    cases meets : narrower row with
    | false => rfl
    | true => rw [((behind row present).mp meets).1]; rfl
  have narrowerDistinct : ((db.events.filter narrower).map column).Nodup := by
    rw [narrowed]
    exact distinct.sublist (List.filter_sublist.map _)
  refine increasing_ext (selectionBy_increasing sound narrowerDistinct)
    (increasing.sublist (List.drop_sublist _ _)) fun pair => ?_
  rw [drop_eq_behind increasing, mem_behind, mem_selectionBy, mem_selectionBy, and_assoc]
  refine and_congr_right fun present => ?_
  rw [behind pair.1 (mem_joined.mp present).1]
  refine and_congr_right fun _ => ?_
  constructor
  · intro all bound isBound
    obtain ⟨last, isLast, rfl⟩ := Option.map_eq_some_iff.mp isBound
    exact all last isLast
  · intro all last isLast
    exact all _ (Option.map_eq_some_iff.mpr ⟨last, isLast, rfl⟩)

end Selections

/-- The events of a database that are wanted, each once and with its key, in order. -/
structure Lists (db : Database Session) (wanted : EventRow → Prop)
    (before : EventRow → EventRow → Prop) (events : List (EventRow × KeyRow)) : Prop where
  ordered : events.Pairwise fun pair other => before pair.1 other.1
  mem : ∀ row key, (row, key) ∈ events ↔
    (row ∈ db.events ∧ key ∈ db.keys ∧ key.number = row.streamId) ∧ wanted row

/-- A selection lists the events that meet its condition. -/
theorem lists_selectionBy {Position : Type} [LinearOrder Position] {column : EventRow → Position}
    {wanted : EventRow → Prop} {before : EventRow → EventRow → Prop} (sound : db.Sound)
    (distinct : ((db.events.filter condition).map column).Nodup)
    (isWanted : ∀ row ∈ db.events, condition row = true ↔ wanted row)
    (isBefore : ∀ row other, column row < column other → before row other) :
    Lists db wanted before (selectionBy column condition db) where
  ordered := (selectionBy_increasing sound distinct).imp fun lt => isBefore _ _ lt
  mem row key := by
    rw [mem_selectionBy, mem_joined]
    exact and_congr_right fun present => isWanted row present.1

/-- The size of a row. -/
def rowBytes (pair : EventRow × KeyRow) : Nat := (Candidate.of pair).rowBytes

section Exact

variable {Scan Row Item Entry : Type}

/-- What a scan of some entries has done after polls at some moments: it has yielded
the first of them, each as its row says, from pages that hold them one behind the
other.  With every poll it yields one more, until it has yielded all of them.  It
fails with a statement, at the first row that is too large, or at the first one that
cannot be decoded. -/
structure Exact (limits : Limits) (size : Entry → Nat) (rowOf : Entry → Row)
    (decode : Entry → Except PostgresError Item) (entries : List Entry)
    (moments : List (Moment Session)) (walk : Walk Scan Row Item PostgresError) : Prop where
  yielded : List.Forall₂ (fun entry item => size entry ≤ limits.bytes ∧ decode entry = .ok item)
    (entries.take walk.yielded.length) walk.yielded
  pages : walk.pages.flatten <+: entries.map rowOf
  going : ∀ scan, walk.fate = .going scan → walk.yielded.length = moments.length ∧
    moments.length ≤ entries.length
  ended : walk.fate = .ended → walk.yielded.length = entries.length ∧
    walk.pages.flatten = entries.map rowOf
  failed : ∀ error, walk.fate = .failed error →
    (∃ moment ∈ moments, ∃ failure, moment.failure = some failure ∧ error = .sqlx failure) ∨
      ∃ entry, entries[walk.yielded.length]? = some entry ∧
        (limits.bytes < size entry ∧ error = .rowLimit (size entry) limits.bytes ∨
          size entry ≤ limits.bytes ∧ decode entry = .error error)

/-- How the statement of a poll fails at a moment. -/
def Moment.refusal (moment : Moment Session) : Option PostgresError :=
  moment.failure.map .sqlx

/-- Rows are decoded unless they are too large. -/
def checkedDecode (limits : Limits) (size : Entry → Nat)
    (decode : Entry → Except PostgresError Item) (entry : Entry) : Except PostgresError Item :=
  if size entry ≤ limits.bytes then decode entry else .error (.rowLimit (size entry) limits.bytes)

/-- A walk that yields its entries is exact. -/
theorem exact_of_yields
    (yields : walk.Yields rowOf (checkedDecode limits size decode) entries
      (moments.filterMap Moment.refusal) moments.length) :
    Exact limits size rowOf decode entries moments walk where
  yielded := yields.yielded.imp fun entry item decoded => by
    unfold checkedDecode at decoded
    split at decoded
    next fits => exact ⟨fits, decoded⟩
    next => cases decoded
  pages := yields.pages
  going := yields.going
  ended := yields.ended
  failed error fate := by
    rcases yields.failed error fate with refused | ⟨entry, isNext, decoded⟩
    · obtain ⟨moment, present, isRefusal⟩ := List.mem_filterMap.mp refused
      obtain ⟨failure, isFailure, isError⟩ := Option.map_eq_some_iff.mp isRefusal
      exact .inl ⟨moment, present, failure, isFailure, isError.symm⟩
    · refine .inr ⟨entry, isNext, ?_⟩
      unfold checkedDecode at decoded
      split at decoded
      next fits => exact .inr ⟨fits, decoded⟩
      next large =>
        cases decoded
        exact .inl ⟨Nat.lt_of_not_le large, rfl⟩

theorem exact_empty : Exact limits size rowOf decode [] moments
    (.empty : Walk Scan Row Item PostgresError) :=
  exact_of_yields (Walk.yields_empty _ _ _)

end Exact

end Mnesis.Postgres
