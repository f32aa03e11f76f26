import Mnesis.Projections.Projection

/-!
# Checkpoints every so many events

The trigger compares the bucket of an event with that of the last checkpoint.  As long as no
write fails, what was observed and what is written are in the same bucket behind every call.
While a call waits for its write its own event is observed too, so that a crash at that moment
can lose a whole bucket.
-/

namespace Mnesis.Projections

open Foundation Kernel Store Checkpoints

variable {Key Event State Failure E : Type}

/-- Write every so many events. -/
structure EveryNEvents where
  get : UInt64
  ne_zero : get ≠ 0

namespace EveryNEvents

/-- An event in a later bucket than the last checkpoint. -/
def shouldPersist (trigger : EveryNEvents) : PersistTrigger Version := fun old new _ =>
  let oldBucket := old.elim 0 fun version => version.asU64 / trigger.get
  let newBucket := new.asU64 / trigger.get
  oldBucket < newBucket

/-- The bucket of a position; zero stands for none. -/
def bucket (trigger : EveryNEvents) (position : Option Version) : Nat :=
  depth position / trigger.get.toNat

variable (trigger : EveryNEvents)

theorem shouldPersist_eq_true :
    trigger.shouldPersist old new names = true ↔
      trigger.bucket old < trigger.bucket (some new) := by
  cases old <;> simp [shouldPersist, bucket, depth, rawHead, UInt64.lt_iff_toNat_lt]

theorem bucket_mono (le : depth old ≤ depth new) :
    trigger.bucket old ≤ trigger.bucket new :=
  Nat.div_le_div_right le

theorem pos : 0 < trigger.get.toNat :=
  Nat.pos_of_ne_zero fun isZero => trigger.ne_zero (UInt64.toNat_inj.mp isZero)

theorem depth_lt_of_bucket_eq (same : trigger.bucket new = trigger.bucket old) :
    depth new < depth old + trigger.get.toNat := by
  have positive := trigger.pos
  have below := Nat.lt_div_mul_add (a := depth new) positive
  have above := Nat.div_mul_le_self (depth old) trigger.get.toNat
  rw [bucket, bucket] at same
  rw [same] at below
  omega

end EveryNEvents

/-- A call of a projection of one stream. -/
inductive PacedCall (Key Event : Type)
  | advance (item : Item Version Key Event)
  | flush

section Calls

variable (projector : Projector Key Event State Failure) (trigger : EveryNEvents)

/-- How far a call comes without waiting. -/
def PacedCall.start (projection : Projection State Version) :
    PacedCall Key Event → Projection State Version × Progress State Version Failure Empty
  | .advance item => Projections.advance projector trigger.shouldPersist item projection
  | .flush => Projections.flush projection

/-- The instance behind a call whose write, if there is one, is acknowledged. -/
def acknowledged (revision : Revision) :
    Projection State Version × Progress State Version Failure Empty → Projection State Version
  | (projection, .returned _) => projection
  | (projection, .awaiting write) =>
    (settle write (.ok revision) projection :
      _ × Except (ProjectionError Failure Empty) Unit).1

/-- Calls in which no write fails. -/
def runPaced (projection : Projection State Version)
    (calls : List (PacedCall Key Event × Revision)) : Projection State Version :=
  calls.foldl (fun projection call =>
    acknowledged call.2 (call.1.start projector trigger projection)) projection

/-- The write that an event causes, if it is folded into another bucket. -/
def crossing (item : Item Version Key Event) (projection : Projection State Version) :
    Option (CheckpointWrite State Version) := do
  let state ← projection.state.toOption
  if projection.observed.any fun previous => item.position ≤ previous then
    none
  else
    let folded ← (projector.applyAttributed state item.key item.event).toOption
    if trigger.bucket projection.checkpoint < trigger.bucket (some item.position) then
      some (projection.write item.position folded)
    else
      none

/-- The write that a call waits for. -/
def Progress.write : Progress State Version Failure Empty → Option (CheckpointWrite State Version)
  | .returned _ => none
  | .awaiting write => some write

/-- What holds behind every call: what was observed is in the bucket of the checkpoint, so that
less than a bucket is not yet written, and an event causes a write exactly when it is in a
later bucket.  Until the next call is answered its own event is the only further loss. -/
structure Paces (projection : Projection State Version) : Prop where
  sameBucket : trigger.bucket projection.observed = trigger.bucket projection.checkpoint
  lost : depth projection.observed < depth projection.checkpoint + trigger.get.toNat
  writes : ∀ item : Item Version Key Event,
    ((PacedCall.advance item).start projector trigger projection).2.write =
      crossing projector trigger item projection
  interrupted : ∀ call : PacedCall Key Event,
    (call.start projector trigger projection).1.checkpoint = projection.checkpoint ∧
      ((call.start projector trigger projection).1.observed = projection.observed ∨
        ∃ item, call = .advance item ∧
          (call.start projector trigger projection).1.observed = some item.position)

/-- What the calls keep. -/
structure Paced (projection : Projection State Version) : Prop where
  usable : projection.reloadRequired = false
  sameBucket : trigger.bucket projection.observed = trigger.bucket projection.checkpoint

variable {projector trigger}

/-- An event is folded; the instance is written when the event is in a later bucket. -/
theorem advance_eq (isState : projection.state = .ok state)
    (increases : ¬ projection.observed.any fun previous => item.position ≤ previous)
    (isFolded : projector.applyAttributed state item.key item.event = .ok folded) :
    (PacedCall.advance item).start projector trigger projection =
      if trigger.bucket projection.checkpoint < trigger.bucket (some item.position) then
        ({ projection with
            state? := some folded, observed := some item.position, reloadRequired := true },
          .awaiting (projection.write item.position folded))
      else
        ({ projection with state? := some folded, observed := some item.position },
          .returned (.ok ())) := by
  have usable : projection.reloadRequired = false := by
    cases reload : projection.reloadRequired with
    | false => rfl
    | true => simp [Projection.state, reload] at isState
  simp only [PacedCall.start, advance, isState, if_neg increases, isFolded]
  by_cases crosses : trigger.bucket projection.checkpoint < trigger.bucket (some item.position)
  · have different : some item.position ≠ projection.checkpoint := by
      intro same
      rw [same] at crosses
      exact lt_irrefl _ crosses
    rw [if_pos crosses, if_pos (trigger.shouldPersist_eq_true.mpr crosses)]
    simp [flush, Projection.state, usable, okOr, Projection.unpersisted, different, Option.filter,
      Projection.write, Projection.mode]
  · rw [if_neg crosses, if_neg (mt trigger.shouldPersist_eq_true.mp crosses)]

/-- An event that is not folded causes no write. -/
theorem advance_cases (item : Item Version Key Event) (projection : Projection State Version) :
    (∃ state folded, projection.state = .ok state ∧
      ¬ (projection.observed.any fun previous => item.position ≤ previous) ∧
      projector.applyAttributed state item.key item.event = .ok folded) ∨
    crossing projector trigger item projection = none ∧
      ∃ result state?, (PacedCall.advance item).start projector trigger projection =
        ({ projection with state? }, .returned result) := by
  cases isState : projection.state with
  | error error =>
    refine .inr ⟨by simp [crossing, isState, Except.toOption], .error (.state error),
      projection.state?, ?_⟩
    simp only [PacedCall.start, advance, isState]
  | ok state =>
    by_cases stale : projection.observed.any fun previous => item.position ≤ previous
    · refine .inr ⟨by simp [crossing, isState, Except.toOption, stale],
        .error .nonIncreasingPosition, projection.state?, ?_⟩
      simp only [PacedCall.start, advance, isState, stale, if_true]
    · cases isFolded : projector.applyAttributed state item.key item.event with
      | error error =>
        refine .inr ⟨by simp [crossing, isState, Except.toOption, stale, isFolded],
          .error (.apply error), none, ?_⟩
        simp only [PacedCall.start, advance, isState, if_neg stale, isFolded]
      | ok folded => exact .inl ⟨state, folded, rfl, stale, isFolded⟩

theorem Paced.paces (paced : Paced trigger projection) : Paces projector trigger projection where
  sameBucket := paced.sameBucket
  lost := trigger.depth_lt_of_bucket_eq paced.sameBucket
  writes item := by
    obtain ⟨state, folded, isState, increases, isFolded⟩ | ⟨isNone, result, state?, isStart⟩ :=
      @advance_cases _ _ _ _ projector trigger item projection
    · rw [advance_eq isState increases isFolded]
      by_cases crosses : trigger.bucket projection.checkpoint < trigger.bucket (some item.position)
      · simp [crossing, isState, increases, isFolded, crosses, Except.toOption, Progress.write]
      · simp [crossing, isState, increases, crosses, Except.toOption, Progress.write]
    · rw [isStart, isNone]
      rfl
  interrupted call := by
    cases call with
    | flush =>
      rw [PacedCall.start, flush]
      split
      next => exact ⟨rfl, .inl rfl⟩
      next => split <;> exact ⟨rfl, .inl rfl⟩
    | advance item =>
      obtain ⟨state, folded, isState, increases, isFolded⟩ | ⟨-, result, state?, isStart⟩ :=
        @advance_cases _ _ _ _ projector trigger item projection
      · rw [advance_eq isState increases isFolded]
        split <;> exact ⟨rfl, .inr ⟨item, rfl, rfl⟩⟩
      · rw [isStart]
        exact ⟨rfl, .inl rfl⟩

/-- Every call that is answered keeps the pace. -/
theorem Paced.call (paced : Paced trigger projection) (call : PacedCall Key Event)
    (revision : Revision) :
    Paced trigger (acknowledged revision (call.start projector trigger projection)) := by
  have usable := paced.usable
  cases call with
  | flush =>
    rw [PacedCall.start, flush]
    split
    next => exact paced
    next =>
      split
      next => exact paced
      next position isPosition =>
        have isObserved : projection.observed = some position := by
          simp only [Projection.unpersisted, Option.filter_eq_some_iff] at isPosition
          exact isPosition.1
        exact ⟨rfl, congrArg trigger.bucket isObserved⟩
  | advance item =>
    obtain ⟨state, folded, isState, increases, isFolded⟩ | ⟨-, result, state?, isStart⟩ :=
      @advance_cases _ _ _ _ projector trigger item projection
    · rw [advance_eq isState increases isFolded]
      split
      next => exact ⟨rfl, rfl⟩
      next stays =>
        refine ⟨usable, le_antisymm (Nat.not_lt.mp stays) ?_⟩
        refine paced.sameBucket.symm.le.trans (trigger.bucket_mono ?_)
        cases isObserved : projection.observed with
        | none => exact Nat.zero_le _
        | some previous =>
          simp only [isObserved, Option.any_some, decide_eq_true_eq] at increases
          exact Nat.le_of_lt (UInt64.lt_iff_toNat_lt.mp (UInt64.not_le.mp increases))
    · rw [isStart]
      exact ⟨usable, paced.sameBucket⟩

/-- Behind every call less than a bucket of events is not yet written, as long as no write fails. -/
theorem every_n_events_keep_pace (projector : Projector Key Event State Failure)
    (trigger : EveryNEvents) (schemaVersion : SchemaVersion) (mode : CheckpointMode)
    (found : CheckpointHydrated State Version) (start : Projection State Version)
    (loaded : Projection.assemble projector schemaVersion mode found = .ok start)
    (calls : List (PacedCall Key Event × Revision)) :
    Paces projector trigger (runPaced projector trigger start calls) := by
  have paced : Paced trigger start := by
    cases mode <;> cases found <;> cases loaded <;> exact ⟨rfl, rfl⟩
  suffices Paced trigger (runPaced projector trigger start calls) from this.paces
  clear loaded
  induction calls generalizing start with
  | nil => exact paced
  | cons call calls ih => exact ih _ (paced.call call.1 call.2)

end Calls

/-- Counts events. -/
def counter : Projector Unit Unit Nat Empty where
  initial := 0
  applyAttributed count _ _ := .ok (count + 1)

/-- The write of the second event is caused by the trigger. -/
theorem counter_keeps_pace :
    let start := Projection.fresh .initial 0 (none : Option Version) none none
    let calls := [(PacedCall.advance ⟨.initial, (), "counted", ()⟩, .initial),
      (.advance ⟨⟨2, by decide⟩, (), "counted", ()⟩, .initial)]
    Projection.assemble counter .initial .advance .absent = .ok start ∧
      (runPaced counter ⟨2, by decide⟩ start calls).checkpoint = some ⟨2, by decide⟩ ∧
      Paces counter ⟨2, by decide⟩ (runPaced counter ⟨2, by decide⟩ start calls) :=
  ⟨rfl, rfl, every_n_events_keep_pace counter ⟨2, by decide⟩ .initial .advance .absent _ rfl _⟩

/-- While the write of the second event is awaited, two versions are not yet written. -/
theorem awaited_write_leaves_whole_bucket :
    ¬ ∀ (trigger : EveryNEvents) (calls : List (PacedCall Unit Unit × Revision))
      (call : PacedCall Unit Unit),
      let start := Projection.fresh .initial 0 (none : Option Version) none none
      let begun := call.start counter trigger (runPaced counter trigger start calls)
      begun.2.write.isSome → depth begun.1.observed <
        depth begun.1.checkpoint + trigger.get.toNat := by
  intro paces
  have few := paces ⟨2, by decide⟩ [(.advance ⟨.initial, (), "counted", ()⟩, .initial)]
    (.advance ⟨⟨2, by decide⟩, (), "counted", ()⟩) (by decide)
  exact absurd few (by decide)

end Mnesis.Projections
