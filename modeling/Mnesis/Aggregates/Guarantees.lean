import Mathlib.Data.List.Nodup
import Mnesis.Aggregates.Runs

/-!
# What clients of one stream can rely on

The stream is the batches of the saves that took effect, in that order, and a
save knows what became of its batch unless its answer was lost.  Every intent that
a reaction returns carries the version at which its event is stored.
-/

namespace Mnesis.Aggregates

open Foundation Kernel Store

variable {S : EventStore} {Command Client : Type}
/-- A reply that does not know what became of the append of its call. -/
def Reply.Unknowing : Reply S Command → Prop
  | .saved (.error (.adapter _)) => True
  | .reacted (.error (.returned (.store (.adapter _)))) => True
  | _ => False

/-- A call ends without knowing what became of its append. -/
def Label.LosesAnswer : Label S Command Client → Prop
  | .abandon _ => True
  | .reply _ returned => returned.Unknowing
  | _ => False

section Lost

theorem Unsaved.unsent_or_adapter (unsaved : Unsaved view error)
    (uncertain : outcomeOfError error = .uncertain) :
    view.issued = none ∨ ∃ cause, error = .adapter cause := by
  cases unsaved with
  | unsent unsent => exact .inl unsent
  | conflict _ _ _ => cases uncertain
  | unknown => exact .inr ⟨_, rfl⟩

theorem ReactionEnds.unsent_or_unknowing
    (ends : ReactionEnds intentFor handler before result root view)
    (uncertain : (Reply.reacted result).outcome = .uncertain) :
    view.issued = none ∨ (Reply.reacted result).Unknowing := by
  match result, ends with
  | .ok _, _ => cases uncertain
  | .error (.returned (.store _)), ⟨_, _, unsaved⟩ =>
    rcases unsaved.unsent_or_adapter uncertain with unsent | ⟨_, rfl⟩
    · exact .inl unsent
    · exact .inr trivial
  | .error (.returned (.kernel _)), ⟨_, _, unsent⟩
  | .error (.returned (.react _)), ⟨_, _, unsent⟩
  | .error (.returned .versionOverflow), ⟨_, _, unsent⟩ => exact .inl unsent

theorem SaveEnds.unsent_or_unknowing (ends : SaveEnds before events result root view)
    (uncertain : (Reply.saved result : Reply S Command).outcome = .uncertain) :
    view.issued = none ∨ (Reply.saved result : Reply S Command).Unknowing := by
  cases result with
  | ok position => cases uncertain
  | error error =>
    rcases ends.2.2.unsent_or_adapter uncertain with unsent | ⟨_, rfl⟩
    · exact .inl unsent
    · exact .inr trivial

theorem Returned.unsent_or_unknowing
    (returned : Returned intentFor procedure before reply root view)
    (uncertain : reply.outcome = .uncertain) :
    view.issued = none ∨ reply.Unknowing := by
  cases returned with
  | load ends => exact .inl ends.standing.unsent
  | save ends => exact ends.unsent_or_unknowing uncertain
  | saveWith ends => exact ends.unsent_or_unknowing uncertain
  | react ends => exact ends.unsent_or_unknowing uncertain
  | dispatch ends => exact ends.unsent_or_unknowing uncertain

variable [DecidableEq Client] {system after : System S Command Client} {index : Nat}

theorem outcome_of_proceed
    (isAttempt : (system.proceed client procedure before root issued code).world.attempts[index]? =
      some attempt)
    (uncertain : attempt.outcome = .uncertain) :
    system.world.attempts[index]? = some attempt := by
  unfold System.proceed at isAttempt
  generalize code.advance root = advanced at isAttempt
  obtain ⟨root, pause⟩ := advanced
  cases pause with
  | finished reply => exact isAttempt
  | waiting call next =>
    cases call with
    | readStream start => exact isAttempt
    | hydrate schemaVersion => exact isAttempt
    | commit schemaVersion position state => exact isAttempt
    | append events expected envelopes =>
      rcases getElem?_concat_eq_some.mp isAttempt with old | ⟨_, rfl⟩
      · exact old
      · cases uncertain

theorem outcome_of_close {world : World S}
    (isAttempt : (world.close issued outcome).attempts[index]? = some attempt) :
    (issued = some index ∧ attempt.outcome = outcome) ∨ world.attempts[index]? = some attempt := by
  cases issued with
  | none => exact .inr isAttempt
  | some own =>
    obtain ⟨old, isOld, rfl⟩ := getElem?_modify_eq_some.mp isAttempt
    split
    next same => exact .inl ⟨congrArg some same, rfl⟩
    next => exact .inr isOld

theorem outcome_of_settle {world : World S} (isActed : world.attempts[own]? = some acted)
    (isAttempt : (world.settle stream own acted).attempts[index]? = some attempt) :
    ∃ old, world.attempts[index]? = some old ∧ old.outcome = attempt.outcome := by
  unfold World.settle at isAttempt
  split at isAttempt
  all_goals
    rcases (getElem?_set_eq_some isActed).mp isAttempt with ⟨rfl, rfl⟩ | ⟨_, isOld⟩
    · exact ⟨acted, isActed, rfl⟩
    · exact ⟨attempt, isOld, rfl⟩

/-- Only a lost answer leaves an outcome uncertain. -/
theorem Step.uncertain
    (valid : system.Valid intentFor) (taken : Step stream intentFor system label after)
    {attempt : Attempt S} (isAttempt : after.world.attempts[index]? = some attempt)
    (uncertain : attempt.outcome = .uncertain) :
    label.LosesAnswer ∨ ∃ old, system.world.attempts[index]? = some old ∧
      old.outcome = .uncertain := by
  cases taken with
  | create vacant => exact .inr ⟨attempt, isAttempt, uncertain⟩
  | call procedure starts =>
    exact .inr ⟨attempt, outcome_of_proceed isAttempt uncertain, uncertain⟩
  | answer waiting answers =>
    exact .inr ⟨attempt, outcome_of_proceed isAttempt uncertain, uncertain⟩
  | @reply client _ _ _ _ _ finished =>
    rcases outcome_of_close isAttempt with ⟨own, isOutcome⟩ | old
    · have held := valid.clients.held client
      rw [finished] at held
      have returned : Returned intentFor _ _ _ _ _ := held.2.2
      rcases returned.unsent_or_unknowing (isOutcome.symm.trans uncertain) with unsent | unknowing
      · rw [own] at unsent
        cases unsent
      · exact .inl unknowing
    · exact .inr ⟨attempt, old, uncertain⟩
  | abandon waiting => exact .inl trivial
  | discard holding => exact .inr ⟨attempt, isAttempt, uncertain⟩
  | settle isActed inFlight =>
    obtain ⟨old, isOld, same⟩ := outcome_of_settle isActed isAttempt
    exact .inr ⟨old, isOld, same.trans uncertain⟩

theorem exists_lost_answer (lawful : S.Lawful) (reachable : Reachable stream intentFor trace system)
    (isAttempt : system.world.attempts[index]? = some attempt)
    (uncertain : attempt.outcome = .uncertain) :
    ∃ label ∈ trace, label.LosesAnswer := by
  induction reachable generalizing attempt with
  | refl => cases isAttempt
  | snoc earlier taken found =>
    have valid := System.Valid.of_reachable lawful earlier
    rcases taken.uncertain valid isAttempt uncertain with lost | ⟨old, isOld, isUncertain⟩
    · exact ⟨_, List.mem_append_right _ (List.mem_singleton_self _), lost⟩
    · obtain ⟨label, present, lost⟩ := found isOld isUncertain
      exact ⟨label, List.mem_append_left _ present, lost⟩

end Lost

/-- The events that a procedure saves. -/
def Procedure.events : Procedure S → List S.A.Event
  | .save _ events => events.toList
  | .saveWith _ events => events.toList
  | _ => []

/-- A save took effect: its batch is among those of the stream, and its root is
where the stream was behind that batch. -/
def SavedAt (world : World S) (issued : Option Nat) (events : List S.A.Event) (root : S.Root) :
    Prop :=
  ∃ earlier effect later, world.effects = earlier ++ effect :: later ∧
    issued = some effect.index ∧ effect.batch.events = events ∧
    depth root.version = (eventsOf (earlier ++ [effect])).length ∧
    root.state? = some ((eventsOf (earlier ++ [effect])).foldl S.A.apply S.A.initial)

/-- A call has stored nothing and will not: it sent no append, or one that the
store has refused. -/
def StoredNothing (world : World S) (issued : Option Nat) : Prop :=
  ∀ index, issued = some index →
    (∃ attempt : Attempt S, world.attempts[index]? = some attempt ∧ attempt.fate = .refused) ∧
      index ∉ world.effects.map Effect.index

/-- The saves of a system, after a trace, are serial. -/
structure System.Serial (trace : List (Label S Command Client))
    (system : System S Command Client) : Prop where
  /-- The stream is the batches that took effect, one after the other. -/
  stored : system.world.history = envelopesOf system.world.effects
  decodes : Decodes S system.world.history (eventsOf system.world.effects)
  /-- Each append takes effect at most once, and exactly if the store accepted it. -/
  once : (system.world.effects.map Effect.index).Nodup
  landed : ∀ {index : Nat} {attempt : Attempt S}, system.world.attempts[index]? = some attempt →
    (attempt.fate = .landed ↔ ⟨index, attempt.batch⟩ ∈ system.world.effects)
  issued : ∀ effect ∈ system.world.effects, ∃ attempt : Attempt S,
    system.world.attempts[effect.index]? = some attempt ∧ attempt.batch = effect.batch
  /-- What took effect are the successful saves, those still running, and those
  whose answer was lost. -/
  told : ∀ {index : Nat} {attempt : Attempt S}, system.world.attempts[index]? = some attempt →
    (attempt.outcome = .succeeded → attempt.fate = .landed) ∧
      (attempt.fate = .landed → attempt.outcome = .succeeded ∨ attempt.outcome = .pending ∨
        attempt.outcome = .uncertain ∧ ∃ label ∈ trace, label.LosesAnswer)
  succeeded : ∀ {client : Client} {procedure : Procedure S} {before root : S.Root}
    {issued : Option Nat} {position : S.Position},
    system.clients client = .busy procedure before root issued (.finished (.saved (.ok position))) →
    SavedAt system.world issued procedure.events root
  failed : ∀ {client : Client} {procedure : Procedure S} {before root : S.Root}
    {issued : Option Nat} {error : S.Error},
    system.clients client = .busy procedure before root issued (.finished (.saved (.error error))) →
    root = before ∧ ((∃ cause, error = .adapter cause) ∨ StoredNothing system.world issued)

/-- A save that succeeded is one of the effects. -/
theorem Saved.savedAt (valid : view.world.Valid) (saved : Saved before events root view) :
    SavedAt view.world view.issued events root := by
  obtain ⟨index, attempt, issued, isAttempt, landed, isEvents, isExpected⟩ := saved.effect
  have took := (valid.grounded isAttempt).landed.mp landed
  obtain ⟨earlier, later, isEffects⟩ := List.append_of_mem took
  have based := valid.based isEffects
  have number : depth root.version =
      (eventsOf (earlier ++ [⟨index, attempt.batch⟩])).length := by
    rw [saved.number, eventsOf_concat, List.length_append, ← based, isExpected, isEvents]
  have isPrefix : eventsOf (earlier ++ [⟨index, attempt.batch⟩]) <+: view.world.events := by
    refine ⟨eventsOf later, ?_⟩
    rw [World.events, isEffects, ← eventsOf_append, List.append_assoc]
    rfl
  refine ⟨earlier, _, later, isEffects, issued, isEvents, number, ?_⟩
  rw [saved.faithful.state, number, stateAfter, ← List.prefix_iff_eq_take.mp isPrefix]

theorem Unsaved.storedNothing (valid : view.world.Valid) (unsaved : Unsaved view error) :
    (∃ cause, error = .adapter cause) ∨ StoredNothing view.world view.issued := by
  cases unsaved with
  | unsent unsent =>
    refine .inr fun index issued => ?_
    rw [unsent] at issued
    cases issued
  | @conflict _ _ _ own attempt issued isAttempt refused =>
    refine .inr fun index isIndex => ?_
    rw [issued, Option.some_inj] at isIndex
    subst isIndex
    exact ⟨⟨attempt, isAttempt, refused⟩, valid.not_mem_effects isAttempt (by rw [refused]; decide)⟩
  | unknown => exact .inl ⟨_, rfl⟩

theorem Returned.saveEnds
    (returned : Returned intentFor procedure before (.saved result) root view) :
    SaveEnds before procedure.events result root view := by
  cases returned with
  | save ends => exact ends
  | saveWith ends => exact ends

/-- However the calls of the clients interleave, and whatever the store does with
their appends and when, their saves are serial. -/
theorem saves_are_serial [DecidableEq Client] (lawful : S.Lawful)
    {trace : List (Label S Command Client)} {system : System S Command Client}
    (reachable : Reachable stream intentFor trace system) :
    system.Serial trace := by
  have valid := System.Valid.of_reachable lawful reachable
  have ends {client : Client} {procedure : Procedure S} {before root : S.Root}
      {issued : Option Nat} {result : Except S.Error S.Position}
      (finished : system.clients client =
        .busy procedure before root issued (.finished (.saved result))) :
      SaveEnds before procedure.events result root ⟨system.world, issued⟩ := by
    have held := valid.clients.held client
    rw [finished] at held
    have returned : Returned intentFor _ _ _ _ _ := held.2.2
    exact returned.saveEnds
  constructor
  · exact valid.world.stored
  · exact valid.world.recorded.decodes
  · exact valid.world.distinct
  · intro index attempt isAttempt
    exact (valid.world.grounded isAttempt).landed
  · exact valid.world.issued
  · intro index attempt isAttempt
    have grounded := valid.world.grounded isAttempt
    refine ⟨grounded.succeeded, fun landed => ?_⟩
    cases isOutcome : attempt.outcome with
    | succeeded => exact .inl rfl
    | pending => exact .inr (.inl rfl)
    | uncertain => exact .inr (.inr ⟨rfl, exists_lost_answer lawful reachable isAttempt isOutcome⟩)
    | conflict =>
      rw [grounded.conflict isOutcome] at landed
      cases landed
  · intro client procedure before root issued position finished
    exact Saved.savedAt valid.world (ends finished)
  · intro client procedure before root issued error finished
    obtain ⟨same, _, unsaved⟩ := ends finished
    exact ⟨same, unsaved.storedNothing valid.world⟩

/-- A sum of numbers, each stored as a payload of its length. -/
def tally : EventStore where
  A := {
    State := Nat
    Event := Nat
    Error := Unit
    initial := 0
    apply := Nat.add
    maxRehydrationEvents := 12
    maxRehydrationEvents_pos := by decide
    maxRehydrationEvents_lt := by decide }
  AdapterError := Unit
  EncodeError := Unit
  DecodeError := Unit
  SnapshotError := Unit
  Position := Unit
  codec := {
    name := fun _ => .fromStaticStr "added" (by decide)
    encode := fun event => .ok (List.replicate event 0)
    decode := fun row => .ok row.payload.asSlice.length }
  metadata := fun _ _ _ => none

theorem tally_lawful : tally.Lawful := by
  rintro event bytes envelope ⟨⟩ isPayload _
  exact congrArg Except.ok ((congrArg List.length isPayload).trans (List.length_replicate ..))

/-- A handler that always produces two numbers. -/
def twoNumbers : Nat → Except Unit (Option (Events Nat 1)) :=
  fun _ => .ok (some ⟨2, [3], by decide⟩)

theorem tally_reacts :
    ∃ (trace : List (Label tally Nat Unit)) (system : System tally Nat Unit),
      Reachable [] (some : Nat → Option Nat) trace system ∧
        system.world.events = ([2, 3] : List Nat) ∧
        system.intents.map ProjectedIntent.numbered = [(1, 2), (2, 3)] := by
  have start : Reachable [] (some : Nat → Option Nat) [] (System.initial tally Nat Unit) := .refl
  have created := start.snoc (@Step.create _ _ _ _ _ _ _ () rfl)
  have called := created.snoc (@Step.call _ _ _ _ _ _ _ () _ (.react .eventStore twoNumbers) rfl)
  have settled := called.snoc (@Step.settle _ _ _ _ _ _ _ 0 _ rfl rfl)
  have answered := settled.snoc
    (@Step.answer _ _ _ _ _ _ _ () _ _ _ _ _ _ _ rfl (.appended () rfl rfl rfl))
  have replied := answered.snoc (@Step.reply _ _ _ _ _ _ _ () _ _ _ _ _ rfl)
  exact ⟨_, _, replied, rfl, rfl⟩

/-- A client of a counting aggregate saves one event. -/
theorem tally_saves_are_serial :
    ∃ (trace : List (Label tally Nat Unit)) (system : System tally Nat Unit),
      Reachable [] (some : Nat → Option Nat) trace system ∧
        system.world.events = ([2, 3] : List Nat) ∧ system.Serial trace := by
  obtain ⟨trace, system, reachable, isEvents, _⟩ := tally_reacts
  exact ⟨trace, system, reachable, isEvents, saves_are_serial tally_lawful reachable⟩

/-- The procedures that let a saga react with a handler. -/
inductive Procedure.ReactsWith {N : Nat}
    (handler : S.Handler N) : Procedure S → Prop
  | react (repo : Repo) : ReactsWith handler (.react repo handler)
  | dispatch (repo : Repo) : ReactsWith handler (.dispatch repo handler)

/-- What a successful reaction returns: the intents of the produced events in
order, each with the version at which its event is stored, and the version of the
last of them. -/
def Reacted (intentFor : S.A.Event → Option Command) (world : World S)
    (produced : List S.A.Event) (version : Version) (intents : List (ProjectedIntent Command)) :
    Prop :=
  ∃ earlier, intents.map ProjectedIntent.numbered = intentsFrom intentFor (earlier + 1) produced ∧
    version.toNat = earlier + produced.length ∧
    ∀ {offset : Nat} {event : S.A.Event}, produced[offset]? = some event →
      ∃ row, world.history[earlier + offset]? = some row ∧
        row.version.toNat = earlier + 1 + offset ∧ S.codec.decode row = .ok event

/-- The reactions of a saga and the intents that they returned. -/
structure System.Reacts (intentFor : S.A.Event → Option Command)
    (system : System S Command Client) : Prop where
  reacted : ∀ {client : Client} {procedure : Procedure S} {before root : S.Root}
    {issued : Option Nat} {N : Nat} {version : Version} {position : S.Position}
    {intents : ProjectedIntents Command N},
    system.clients client = .busy procedure before root issued
      (.finished (.reacted (.ok (.reacted version position intents)))) →
    ∃ (handler : S.Handler N)
      (base : S.Root) (produced : Events S.A.Event N),
      procedure.ReactsWith handler ∧ Decides handler base (some produced) ∧
        Reacted intentFor system.world produced.toList version intents.toList
  ignored : ∀ {client : Client} {procedure : Procedure S} {before root : S.Root}
    {issued : Option Nat} {N : Nat},
    system.clients client = .busy procedure before root issued
      (.finished (.reacted (.ok .ignored : Saga.Result S Command N))) →
    StoredNothing system.world issued
  /-- A reaction never panics, and only the adapter can fail without saying whether
  something was stored. -/
  failed : ∀ {client : Client} {procedure : Procedure S} {before root : S.Root}
    {issued : Option Nat} {N : Nat} {failure : ReactionFailure S},
    system.clients client = .busy procedure before root issued
      (.finished (.reacted (.error failure : Saga.Result S Command N))) →
    ∃ error, failure = .returned error ∧
      ((∃ cause, error = .store (.adapter cause)) ∨ StoredNothing system.world issued)
  distinct : (system.intents.map ProjectedIntent.sourceVersion).Nodup

section Reactions

variable {handler : S.Handler N}

theorem storedNothing_of_unsent (unsent : issued = none) : StoredNothing world issued := by
  intro index isIssued
  rw [unsent] at isIssued
  cases isIssued

/-- The events of a save are stored behind its root. -/
theorem Saved.exists_row (valid : view.world.Valid) (saved : Saved before events root view)
    (isEvent : events[offset]? = some event) :
    ∃ row, view.world.history[depth before.version + offset]? = some row ∧
      row.version.toNat = depth before.version + 1 + offset ∧
      S.codec.decode row = .ok event := by
  obtain ⟨index, attempt, _, isAttempt, landed, isEvents, isExpected⟩ := saved.effect
  obtain ⟨earlier, later, isEffects⟩ :=
    List.append_of_mem ((valid.grounded isAttempt).landed.mp landed)
  have based := valid.based isEffects
  have stored : view.world.events[depth before.version + offset]? = some event := by
    rw [← isExpected, based, World.events, isEffects, eventsOf_append, eventsOf_cons, isEvents,
      List.getElem?_append_right (Nat.le_add_right _ _), Nat.add_sub_cancel_left,
      List.getElem?_append_left (List.getElem?_eq_some_iff.mp isEvent).1, isEvent]
  obtain ⟨row, isRow, number, decoded⟩ := valid.recorded.exists_row stored
  exact ⟨row, isRow, by omega, decoded⟩

theorem ReactionEnds.reacted {intents : ProjectedIntents Command N} (valid : view.world.Valid)
    (ends : ReactionEnds intentFor handler before (.ok (.reacted version position intents)) root
      view) :
    ∃ produced, Decides handler before (some produced) ∧
      Reacted intentFor view.world produced.toList version intents.toList := by
  obtain ⟨produced, decided, saved, isVersion, isIntents⟩ := ends
  have number := saved.number
  rw [isVersion, depth_some] at number
  exact ⟨produced, decided, depth before.version, isIntents, number,
    fun isEvent => saved.exists_row valid isEvent⟩

theorem ReactionEnds.failed {failure : ReactionFailure S} (valid : view.world.Valid)
    (ends : ReactionEnds intentFor handler before (.error failure : Saga.Result S Command N) root
      view) :
    ∃ error, failure = .returned error ∧
      ((∃ cause, error = .store (.adapter cause)) ∨ StoredNothing view.world view.issued) := by
  match failure, ends with
  | .returned (.store error), ⟨_, _, unsaved⟩ =>
    refine ⟨_, rfl, ?_⟩
    rcases unsaved.storedNothing valid with ⟨cause, rfl⟩ | nothing
    · exact .inl ⟨cause, rfl⟩
    · exact .inr nothing
  | .returned (.kernel _), ⟨_, _, unsent⟩
  | .returned (.react _), ⟨_, _, unsent⟩
  | .returned .versionOverflow, ⟨_, _, unsent⟩ =>
    exact ⟨_, rfl, .inr (storedNothing_of_unsent unsent)⟩

theorem Returned.reactionEnds
    (returned : Returned intentFor procedure before (.reacted result) root view) :
    ∃ (handler : S.Handler N) (base : S.Root),
      procedure.ReactsWith handler ∧ ReactionEnds intentFor handler base result root view := by
  cases returned with
  | react ends => exact ⟨_, _, .react _, ends⟩
  | dispatch ends => exact ⟨_, _, .dispatch _, ends⟩

end Reactions

/-- However many reactors dispatch to one saga, every intent they are given
carries the version of its event, and no two the same. -/
theorem reactions_number_their_intents [DecidableEq Client] (lawful : S.Lawful)
    {trace : List (Label S Command Client)} {system : System S Command Client}
    (reachable : Reachable stream intentFor trace system) :
    system.Reacts intentFor := by
  have valid := System.Valid.of_reachable lawful reachable
  have ends {client : Client} {procedure : Procedure S} {before root : S.Root}
      {issued : Option Nat} {N : Nat} {result : Saga.Result S Command N}
      (finished : system.clients client =
        .busy procedure before root issued (.finished (.reacted result))) :
      ∃ (handler : S.Handler N) (base : S.Root),
        procedure.ReactsWith handler ∧
          ReactionEnds intentFor handler base result root ⟨system.world, issued⟩ := by
    have held := valid.clients.held client
    rw [finished] at held
    have returned : Returned intentFor _ _ _ _ _ := held.2.2
    exact returned.reactionEnds
  constructor
  · intro client procedure before root issued N version position intents finished
    obtain ⟨handler, base, reacts, ends⟩ := ends finished
    obtain ⟨produced, decided, reacted⟩ := ends.reacted valid.world
    exact ⟨handler, base, produced, reacts, decided, reacted⟩
  · intro client procedure before root issued N finished
    obtain ⟨handler, base, _, _, _, _, unsent⟩ := ends finished
    exact storedNothing_of_unsent unsent
  · intro client procedure before root issued N failure finished
    obtain ⟨handler, base, _, ends⟩ := ends finished
    exact ends.failed valid.world
  · apply List.Nodup.of_map Version.toNat
    rw [List.map_map]
    exact valid.intents.distinct

/-- The reaction of a counting saga returns the intent of its only event. -/
theorem tally_reactions_number_their_intents :
    ∃ (trace : List (Label tally Nat Unit)) (system : System tally Nat Unit),
      Reachable [] (some : Nat → Option Nat) trace system ∧
        system.intents.map ProjectedIntent.numbered = [(1, 2), (2, 3)] ∧
        system.Reacts (some : Nat → Option Nat) := by
  obtain ⟨trace, system, reachable, _, isIntents⟩ := tally_reacts
  exact ⟨trace, system, reachable, isIntents, reactions_number_their_intents tally_lawful reachable⟩

end Mnesis.Aggregates
