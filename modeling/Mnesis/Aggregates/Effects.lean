import Mnesis.Aggregates.Replay
import Mnesis.Aggregates.Sessions
import Mnesis.Foundation.Indexed

/-!
# The effects of appends

The stream is the batches of the appends that took effect, one after the other,
and each of them built on the ones before it.  What a call knows of its own
append and of its root survives whatever others do meanwhile.
-/

namespace Mnesis.Aggregates

open Foundation Kernel Store

theorem eventsOf_append (effects more : List (Effect S)) :
    eventsOf (effects ++ more) = eventsOf effects ++ eventsOf more :=
  List.flatMap_append

theorem eventsOf_cons (effect : Effect S) (effects : List (Effect S)) :
    eventsOf (effect :: effects) = effect.batch.events ++ eventsOf effects :=
  List.flatMap_cons

theorem eventsOf_concat (effects : List (Effect S)) (effect : Effect S) :
    eventsOf (effects ++ [effect]) = eventsOf effects ++ effect.batch.events := by
  rw [eventsOf_append, eventsOf_cons]
  exact congrArg _ (List.append_nil _)

theorem envelopesOf_concat (effects : List (Effect S)) (effect : Effect S) :
    envelopesOf (effects ++ [effect]) = envelopesOf effects ++ effect.batch.envelopes.toList := by
  rw [envelopesOf, List.flatMap_append, List.flatMap_singleton]
  rfl

/-- What is known of an append and of the call that issued it. -/
structure Grounded (effects : List (Effect S)) (index : Nat) (attempt : Attempt S) : Prop where
  landed : attempt.fate = .landed ↔ ⟨index, attempt.batch⟩ ∈ effects
  encoded : Decodes S attempt.batch.envelopes.toList attempt.batch.events
  succeeded : attempt.outcome = .succeeded → attempt.fate = .landed
  conflict : attempt.outcome = .conflict → attempt.fate = .refused

/-- A stream that is the effects of its appends, with snapshots of it. -/
structure World.Valid (world : World S) : Prop where
  recorded : Recorded S world.history world.events
  stored : world.history = envelopesOf world.effects
  grounded : ∀ {index : Nat} {attempt : Attempt S},
    world.attempts[index]? = some attempt → Grounded world.effects index attempt
  issued : ∀ effect ∈ world.effects, ∃ attempt : Attempt S,
    world.attempts[effect.index]? = some attempt ∧ attempt.batch = effect.batch
  distinct : (world.effects.map Effect.index).Nodup
  based : ∀ {before : List (Effect S)} {effect : Effect S} {after : List (Effect S)},
    world.effects = before ++ effect :: after →
    depth effect.batch.expected = (eventsOf before).length
  snapshots : ∀ snapshot ∈ world.snapshots,
    snapshot.position.toNat ≤ world.events.length ∧
      snapshot.state = stateAfter S world.events snapshot.position.toNat

/-- What others may do while a call is suspended. -/
structure Later (before after : View S) : Prop where
  valid : after.world.Valid
  effects : before.world.effects <+: after.world.effects
  attempts : ∀ {index : Nat} {attempt : Attempt S},
    before.world.attempts[index]? = some attempt →
    ∃ later, after.world.attempts[index]? = some later ∧
      later.batch = attempt.batch ∧
      (attempt.fate ≠ .inFlight → later.fate = attempt.fate) ∧
      (before.issued = some index → later.outcome = attempt.outcome)
  issued : after.issued = before.issued

theorem Later.refl (valid : view.world.Valid) : Later view view where
  valid := valid
  effects := List.prefix_rfl
  attempts isAttempt := ⟨_, isAttempt, rfl, fun _ => rfl, fun _ => rfl⟩
  issued := rfl

theorem Later.trans (early : Later first second) (late : Later second third) :
    Later first third where
  valid := late.valid
  effects := early.effects.trans late.effects
  attempts := by
    intro index attempt isAttempt
    obtain ⟨middle, isMiddle, sameBatch, sameFate, sameOutcome⟩ := early.attempts isAttempt
    obtain ⟨last, isLast, lastBatch, lastFate, lastOutcome⟩ := late.attempts isMiddle
    refine ⟨last, isLast, lastBatch.trans sameBatch, ?_, ?_⟩
    · intro decided
      have decidedLater : middle.fate ≠ .inFlight := by
        rw [sameFate decided]
        exact decided
      rw [lastFate decidedLater, sameFate decided]
    · intro own
      rw [lastOutcome (early.issued.trans own), sameOutcome own]
  issued := late.issued.trans early.issued

theorem events_grow {before after : World S} (effects : before.effects <+: after.effects) :
    before.events <+: after.events := by
  obtain ⟨rest, isAppend⟩ := effects
  refine ⟨eventsOf rest, ?_⟩
  rw [World.events, World.events, ← isAppend, eventsOf_append]

theorem Faithful.later (faithful : Faithful before.world.events root) (later : Later before after) :
    Faithful after.world.events root :=
  faithful.mono (events_grow later.effects)

/-- A root that folds the events of an append that took effect is faithful if the
root it started from was. -/
theorem World.Valid.faithful_of_effect {world : World S} (valid : world.Valid)
    (took : effect ∈ world.effects) (faithful : Faithful world.events before)
    (base : effect.batch.expected = before.version) (usable : before.state? = some current)
    (folded : after.state? = some (effect.batch.events.foldl S.A.apply current))
    (number : depth after.version =
      depth before.version + effect.batch.events.length) :
    Faithful world.events after := by
  obtain ⟨earlier, later, isEffects⟩ := List.append_of_mem took
  have reached := valid.based isEffects
  have isEvents : world.events = eventsOf earlier ++ (effect.batch.events ++ eventsOf later) := by
    rw [World.events, isEffects, eventsOf_append, eventsOf_cons]
  rw [base] at reached
  refine ⟨?_, ?_⟩
  · rw [number, reached, isEvents, List.length_append, List.length_append]
    omega
  · have state := faithful.state
    rw [usable, Option.some_inj, stateAfter, isEvents, reached, List.take_left] at state
    rw [folded, stateAfter, isEvents, number, reached, List.take_length_add_append, List.take_left,
      List.foldl_append, state]

namespace World.Valid

variable {world : World S}

theorem initially : (⟨[], [], [], []⟩ : World S).Valid where
  recorded := .nil
  stored := rfl
  grounded isAttempt := by simp at isAttempt
  issued _ took := by simp at took
  distinct := List.nodup_nil
  based isEffects := by simp at isEffects
  snapshots _ committed := by simp at committed

section

variable (valid : world.Valid)
include valid

theorem not_mem_effects
    (isAttempt : world.attempts[index]? = some attempt) (notLanded : attempt.fate ≠ .landed) :
    index ∉ world.effects.map Effect.index := by
  intro present
  obtain ⟨effect, took, rfl⟩ := List.mem_map.mp present
  obtain ⟨same, isSame, sameBatch⟩ := valid.issued effect took
  rw [isAttempt, Option.some_inj] at isSame
  subst isSame
  apply notLanded
  rw [(valid.grounded isAttempt).landed, sameBatch]
  exact took

theorem appended (decodes : Decodes S batch.envelopes.toList batch.events) :
    ({ world with attempts := world.attempts ++ [⟨batch, .inFlight, .pending⟩] } :
      World S).Valid where
  recorded := valid.recorded
  stored := valid.stored
  grounded := by
    intro index attempt isAttempt
    rcases getElem?_concat_eq_some.mp isAttempt with old | ⟨rfl, rfl⟩
    · exact valid.grounded old
    · constructor
      · refine iff_of_false (fun impossible => nomatch impossible) fun took => ?_
        obtain ⟨old, isOld, _⟩ := valid.issued _ took
        rw [List.getElem?_eq_none (Nat.le_refl _)] at isOld
        cases isOld
      · exact decodes
      · rintro ⟨⟩
      · rintro ⟨⟩
  issued effect took := by
    obtain ⟨attempt, isAttempt, same⟩ := valid.issued effect took
    exact ⟨attempt, getElem?_concat_of_some isAttempt _, same⟩
  distinct := valid.distinct
  based := valid.based
  snapshots := valid.snapshots

theorem committed (within : snapshot.position.toNat ≤ world.events.length)
    (state : snapshot.state = stateAfter S world.events snapshot.position.toNat) :
    ({ world with snapshots := world.snapshots ++ [snapshot] } : World S).Valid where
  recorded := valid.recorded
  stored := valid.stored
  grounded := valid.grounded
  issued := valid.issued
  distinct := valid.distinct
  based := valid.based
  snapshots other present := by
    rcases List.mem_append.mp present with old | new
    · exact valid.snapshots other old
    · rw [List.mem_singleton.mp new]
      exact ⟨within, state⟩

theorem replaced (isOld : world.attempts[index]? = some old) (sameBatch : new.batch = old.batch)
    (grounded : Grounded world.effects index new) :
    ({ world with attempts := world.attempts.set index new } : World S).Valid where
  recorded := valid.recorded
  stored := valid.stored
  grounded := by
    intro other attempt isAttempt
    rcases (getElem?_set_eq_some isOld).mp isAttempt with ⟨rfl, rfl⟩ | ⟨_, isAttempt⟩
    · exact grounded
    · exact valid.grounded isAttempt
  issued effect took := by
    obtain ⟨attempt, isAttempt, same⟩ := valid.issued effect took
    by_cases own : effect.index = index
    · subst own
      rw [isOld, Option.some_inj] at isAttempt
      subst isAttempt
      exact ⟨new, (getElem?_set_eq_some isOld).mpr (.inl ⟨rfl, rfl⟩), sameBatch.trans same⟩
    · exact ⟨attempt, (getElem?_set_eq_some isOld).mpr (.inr ⟨own, isAttempt⟩), same⟩
  distinct := valid.distinct
  based := valid.based
  snapshots := valid.snapshots

/-- An attempt in flight takes effect. -/
theorem took
    (isAttempt : world.attempts[index]? = some attempt) (inFlight : attempt.fate = .inFlight)
    (base : depth attempt.batch.expected = world.events.length)
    (numbered : Numbered world.events.length attempt.batch.envelopes.toList) :
    ({ world with
      history := world.history ++ attempt.batch.envelopes.toList
      attempts := world.attempts.set index { attempt with fate := .landed }
      effects := world.effects ++ [⟨index, attempt.batch⟩] } : World S).Valid := by
  have known := valid.grounded isAttempt
  have fresh := valid.not_mem_effects isAttempt (by rw [inFlight]; decide)
  have isEvents : eventsOf (world.effects ++ [⟨index, attempt.batch⟩]) =
      world.events ++ attempt.batch.events := eventsOf_concat _ _
  constructor
  · rw [World.events, isEvents]
    exact valid.recorded.append numbered known.encoded
  · rw [envelopesOf_concat, ← valid.stored]
  · intro other present isPresent
    rcases (getElem?_set_eq_some isAttempt).mp isPresent with ⟨rfl, rfl⟩ | ⟨different, isPresent⟩
    · exact {
        landed := iff_of_true rfl (List.mem_append_right _ (List.mem_singleton_self _))
        encoded := known.encoded
        succeeded := fun _ => rfl
        conflict := fun isConflict =>
          absurd (known.conflict isConflict) (by rw [inFlight]; decide) }
    · have others := valid.grounded isPresent
      exact {
        landed := by
          rw [others.landed, List.mem_append, List.mem_singleton, Effect.mk.injEq]
          simp [different]
        encoded := others.encoded
        succeeded := others.succeeded
        conflict := others.conflict }
  · intro effect present
    rcases List.mem_append.mp present with old | new
    · obtain ⟨same, isSame, sameBatch⟩ := valid.issued effect old
      have different : effect.index ≠ index := by
        rintro rfl
        exact fresh (List.mem_map_of_mem old)
      exact ⟨same, (getElem?_set_eq_some isAttempt).mpr (.inr ⟨different, isSame⟩), sameBatch⟩
    · rw [List.mem_singleton.mp new]
      exact ⟨_, (getElem?_set_eq_some isAttempt).mpr (.inl ⟨rfl, rfl⟩), rfl⟩
  · rw [List.map_append, List.nodup_append]
    exact ⟨valid.distinct, by simp, by simpa using fresh⟩
  · intro before effect after isEffects
    rcases List.eq_nil_or_concat after with rfl | ⟨rest, last, rfl⟩
    · obtain ⟨rfl, same⟩ := List.append_inj' isEffects rfl
      rw [List.singleton_inj] at same
      rw [← same]
      exact base
    · rw [List.concat_eq_append, ← List.cons_append, ← List.append_assoc] at isEffects
      exact valid.based (List.append_inj' isEffects rfl).1
  · intro snapshot present
    obtain ⟨within, state⟩ := valid.snapshots snapshot present
    have isPrefix : world.events <+: world.events ++ attempt.batch.events := List.prefix_append _ _
    rw [World.events, isEvents, stateAfter_of_grown isPrefix within]
    exact ⟨Nat.le_trans within isPrefix.length_le, state⟩

theorem settle (stream : StreamKey)
    (isAttempt : world.attempts[index]? = some attempt) (inFlight : attempt.fate = .inFlight) :
    (world.settle stream index attempt).Valid := by
  have known := valid.grounded isAttempt
  unfold World.settle
  split
  next accepted =>
    obtain ⟨base, numbered⟩ := validateAppendVersions_eq_ok.mp accepted
    rw [World.head, valid.recorded.toNat_head, valid.recorded.length_eq] at base numbered
    exact valid.took isAttempt inFlight base numbered
  next =>
    refine valid.replaced isAttempt rfl ⟨?_, known.encoded, ?_, fun _ => rfl⟩
    · rw [← known.landed, inFlight]
      simp
    · intro succeeded
      rw [known.succeeded succeeded] at inFlight
      cases inFlight

theorem close {issued : Option Nat}
    (truthful : ∀ {index : Nat} {attempt : Attempt S}, issued = some index →
      world.attempts[index]? = some attempt →
      (outcome = .succeeded → attempt.fate = .landed) ∧
        (outcome = .conflict → attempt.fate = .refused)) :
    (world.close issued outcome).Valid := by
  cases issued with
  | none => exact valid
  | some index =>
    refine ⟨valid.recorded, valid.stored, ?_, ?_, valid.distinct, valid.based, valid.snapshots⟩
    · intro other attempt isAttempt
      obtain ⟨old, isOld, rfl⟩ := getElem?_modify_eq_some.mp isAttempt
      have known := valid.grounded isOld
      split
      next same =>
        subst same
        obtain ⟨succeeded, conflict⟩ := truthful rfl isOld
        exact ⟨known.landed, known.encoded, succeeded, conflict⟩
      next => exact known
    · intro effect took
      obtain ⟨attempt, isAttempt, same⟩ := valid.issued effect took
      refine ⟨_, getElem?_modify_eq_some.mpr ⟨attempt, isAttempt, rfl⟩, ?_⟩
      split <;> exact same

end

end World.Valid

section Interference

variable {world : World S}

theorem later_appended (valid : world.Valid)
    (decodes : Decodes S batch.envelopes.toList batch.events) :
    Later ⟨world, issued⟩
      ⟨{ world with attempts := world.attempts ++ [⟨batch, .inFlight, .pending⟩] }, issued⟩ where
  valid := valid.appended decodes
  effects := List.prefix_rfl
  attempts isAttempt := ⟨_, getElem?_concat_of_some isAttempt _, rfl, fun _ => rfl, fun _ => rfl⟩
  issued := rfl

theorem later_committed (valid : world.Valid)
    (within : snapshot.position.toNat ≤ world.events.length)
    (state : snapshot.state = stateAfter S world.events snapshot.position.toNat) :
    Later ⟨world, issued⟩ ⟨{ world with snapshots := world.snapshots ++ [snapshot] }, issued⟩ where
  valid := valid.committed within state
  effects := List.prefix_rfl
  attempts isAttempt := ⟨_, isAttempt, rfl, fun _ => rfl, fun _ => rfl⟩
  issued := rfl

/-- What the store does with an append is interference. -/
theorem later_settle (valid : world.Valid) (stream : StreamKey)
    (isAttempt : world.attempts[index]? = some attempt) (inFlight : attempt.fate = .inFlight) :
    Later ⟨world, issued⟩ ⟨world.settle stream index attempt, issued⟩ where
  valid := valid.settle stream isAttempt inFlight
  effects := by
    unfold World.settle
    split
    · exact List.prefix_append _ _
    · exact List.prefix_rfl
  attempts := by
    intro other old isOld
    have changed (fate : Fate) : ∃ later : Attempt S,
        (world.attempts.set index { attempt with fate })[other]? = some later ∧
          later.batch = old.batch ∧ (old.fate ≠ .inFlight → later.fate = old.fate) ∧
          (issued = some other → later.outcome = old.outcome) := by
      by_cases same : other = index
      · subst same
        rw [isAttempt, Option.some_inj] at isOld
        subst isOld
        exact ⟨_, (getElem?_set_eq_some isAttempt).mpr (.inl ⟨rfl, rfl⟩), rfl,
          fun decided => absurd inFlight decided, fun _ => rfl⟩
      · exact ⟨old, (getElem?_set_eq_some isAttempt).mpr (.inr ⟨same, isOld⟩), rfl,
          fun _ => rfl, fun _ => rfl⟩
    unfold World.settle
    split
    · exact changed .landed
    · exact changed .refused
  issued := rfl

theorem later_close (valid : (world.close closed outcome).Valid)
    (others : ∀ index, issued = some index → closed ≠ some index) :
    Later ⟨world, issued⟩ ⟨world.close closed outcome, issued⟩ := by
  cases closed with
  | none => exact .refl valid
  | some index =>
    refine ⟨valid, List.prefix_rfl, ?_, rfl⟩
    intro other attempt isAttempt
    refine ⟨_, getElem?_modify_eq_some.mpr ⟨attempt, isAttempt, rfl⟩, ?_⟩
    split
    next same =>
      subst same
      exact ⟨rfl, fun _ => rfl, fun own => absurd rfl (others _ own)⟩
    next => exact ⟨rfl, fun _ => rfl, fun _ => rfl⟩

end Interference

end Mnesis.Aggregates
