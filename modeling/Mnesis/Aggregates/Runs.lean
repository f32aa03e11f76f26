import Mnesis.Aggregates.Reactions

/-!
# Runs of clients over one stream

What is known of each client survives the steps of the others, and each step of
a client itself is justified by the safety of the code it runs.  No two calls own
the same append, so no two intents that were returned have the same version.
-/

namespace Mnesis.Aggregates

open Foundation Kernel Store

variable {S : EventStore} {Command : Type} {intentFor : S.A.Event → Option Command}

/-- How a procedure ends that started from the root `before`. -/
inductive Returned (intentFor : S.A.Event → Option Command) :
    Procedure S → S.Root → Reply S Command → S.Root → View S → Prop
  | load {repo : Repo} {before root : S.Root} {result : Except S.Error S.Root} {view : View S}
      (ends : LoadEnds before result root view) :
      Returned intentFor (.load repo) before (.loaded result) root view
  | save {N : Nat} {events : Events S.A.Event N}
      (ends : SaveEnds before events.toList result root view) :
      Returned intentFor (.save repo events) before (.saved result) root view
  | saveWith {N : Nat} {events : Events S.A.Event N}
      (ends : SaveEnds before events.toList result root view) :
      Returned intentFor (.saveWith schemas events) before (.saved result) root view
  | react {N : Nat} {handler : S.Handler N}
      {result : Saga.Result S Command N}
      (ends : ReactionEnds intentFor handler before result root view) :
      Returned intentFor (.react repo handler) before (.reacted result) root view
  | dispatch {N : Nat} {handler : S.Handler N}
      {result : Saga.Result S Command N}
      (ends : ReactionEnds intentFor handler base result root view) :
      Returned intentFor (.dispatch repo handler) before (.reacted result) root view

/-- The code of every procedure is safe under interference. -/
theorem safe_code (lawful : S.Lawful) (standing : Standing before view) (procedure : Procedure S) :
    Program.Safe (contract S) (Returned intentFor procedure before)
      (procedure.code intentFor) before view := by
  cases procedure with
  | load repo =>
    rw [Procedure.code, Program.safe_bind]
    apply (safe_repo_load repo standing).mono
    intro result root later ends
    exact .load ends
  | save repo events =>
    rw [Procedure.code, Program.safe_bind]
    apply (safe_repo_save repo lawful standing events).mono
    intro result root later ends
    exact .save ends.2
  | saveWith schemas events =>
    rw [Procedure.code, Program.safe_bind]
    apply (safe_saveEvents lawful standing schemas events).mono
    intro result root later ends
    exact .saveWith ends.2
  | react repo handler =>
    rw [Procedure.code, Program.safe_bind]
    apply (safe_reactAndSave lawful standing repo).mono
    intro result root later ends
    exact .react ends
  | dispatch repo handler =>
    rw [Procedure.code, Program.safe_bind]
    apply (safe_dispatch lawful standing repo).mono
    rintro result root later ⟨base, ends⟩
    exact .dispatch ends

namespace Returned

theorem later (returned : Returned intentFor procedure before reply root view)
    (during : Later view after) :
    Returned intentFor procedure before reply root after := by
  cases returned with
  | load ends => exact .load (ends.later during)
  | save ends => exact .save (ends.later during)
  | saveWith ends => exact .saveWith (ends.later during)
  | react ends => exact .react (ends.later during)
  | dispatch ends => exact .dispatch (ends.later during)

theorem faithful (returned : Returned intentFor procedure before reply root view) :
    Faithful view.world.events root := by
  cases returned with
  | load ends =>
    rw [ends.same]
    exact ends.standing.faithful
  | save ends => exact ends.faithful
  | saveWith ends => exact ends.faithful
  | react ends => exact ends.faithful
  | dispatch ends => exact ends.faithful

end Returned

/-- An outcome that is true of the append of a call. -/
def Truthful (view : View S) (outcome : Outcome) : Prop :=
  ∀ (index : Nat) (attempt : Attempt S), view.issued = some index →
    view.world.attempts[index]? = some attempt →
    (outcome = .succeeded → attempt.fate = .landed) ∧
      (outcome = .conflict → attempt.fate = .refused)

theorem truthful_uncertain (view : View S) : Truthful view .uncertain :=
  fun _ _ _ _ => ⟨by rintro ⟨⟩, by rintro ⟨⟩⟩

theorem truthful_of_unsent (unsent : view.issued = none) (outcome : Outcome) :
    Truthful view outcome := by
  intro index attempt issued
  rw [unsent] at issued
  cases issued

theorem Saved.truthful (saved : Saved before events root view) : Truthful view .succeeded := by
  obtain ⟨own, landed, issued, isOwn, isLanded, _, _⟩ := saved.effect
  intro index attempt isIssued isAttempt
  rw [issued, Option.some_inj] at isIssued
  subst isIssued
  rw [isOwn, Option.some_inj] at isAttempt
  subst isAttempt
  exact ⟨fun _ => isLanded, by rintro ⟨⟩⟩

theorem Unsaved.truthful (unsaved : Unsaved view error) : Truthful view (outcomeOfError error) := by
  cases unsaved with
  | unsent unsent => exact truthful_of_unsent unsent _
  | conflict issued isOwn refused =>
    intro index attempt isIssued isAttempt
    rw [issued, Option.some_inj] at isIssued
    subst isIssued
    rw [isOwn, Option.some_inj] at isAttempt
    subst isAttempt
    exact ⟨by rintro ⟨⟩, fun _ => refused⟩
  | unknown => exact truthful_uncertain view

theorem SaveEnds.truthful (ends : SaveEnds before events result root view) :
    Truthful view (Reply.saved result : Reply S Command).outcome := by
  cases result with
  | ok position => exact Saved.truthful ends
  | error error => exact ends.2.2.truthful

theorem ReactionEnds.truthful (ends : ReactionEnds intentFor handler before result root view) :
    Truthful view (Reply.reacted result).outcome := by
  match result, ends with
  | .ok .ignored, ⟨_, _, _, unsent⟩ => exact truthful_of_unsent unsent _
  | .ok (.reacted _ _ _), ⟨_, _, saved, _, _⟩ => exact saved.truthful
  | .error (.returned (.store _)), ⟨_, _, unsaved⟩ => exact unsaved.truthful
  | .error (.returned (.kernel _)), _
  | .error (.returned (.react _)), _
  | .error (.returned .versionOverflow), _ => exact truthful_uncertain view

theorem Returned.truthful (returned : Returned intentFor procedure before reply root view) :
    Truthful view reply.outcome := by
  cases returned with
  | load ends => exact truthful_uncertain view
  | save ends => exact ends.truthful
  | saveWith ends => exact ends.truthful
  | react ends => exact ends.truthful
  | dispatch ends => exact ends.truthful

/-- The numbers of the events of an append that took effect. -/
def Covers (effect : Effect S) (number : Nat) : Prop :=
  depth effect.batch.expected < number ∧
    number ≤ depth effect.batch.expected + effect.batch.events.length

section Intents

variable {world : World S}

theorem World.Valid.not_covers_of_earlier (valid : world.Valid)
    (isEffects : world.effects = before ++ first :: (between ++ second :: after))
    (covers : Covers first number) :
    ¬ Covers second number := by
  have early := valid.based isEffects
  have isEffects' : world.effects = (before ++ first :: between) ++ second :: after := by
    rw [isEffects, List.append_assoc, List.cons_append]
  have late := valid.based isEffects'
  rw [eventsOf_append, eventsOf_cons, List.length_append, List.length_append] at late
  intro again
  have upper := covers.2
  have lower := again.1
  omega

theorem World.Valid.eq_of_covers (valid : world.Valid)
    (firstTook : first ∈ world.effects) (secondTook : second ∈ world.effects)
    (firstCovers : Covers first number) (secondCovers : Covers second number) :
    first = second := by
  obtain ⟨before, after, isEffects⟩ := List.append_of_mem firstTook
  rw [isEffects, List.mem_append, List.mem_cons] at secondTook
  rcases secondTook with earlier | same | later
  · obtain ⟨start, between, isBefore⟩ := List.append_of_mem earlier
    rw [isBefore, List.append_assoc, List.cons_append] at isEffects
    exact absurd firstCovers (valid.not_covers_of_earlier isEffects secondCovers)
  · exact same.symm
  · obtain ⟨between, rest, isAfter⟩ := List.append_of_mem later
    rw [isAfter] at isEffects
    exact absurd secondCovers (valid.not_covers_of_earlier isEffects firstCovers)

theorem Saved.covers
    (valid : view.world.Valid) (saved : Saved before events root view) {number : Nat}
    (present : (number, intent) ∈ intentsFrom intentFor (depth before.version + 1) events) :
    ∃ effect ∈ view.world.effects, view.issued = some effect.index ∧ Covers effect number := by
  obtain ⟨index, attempt, issued, isAttempt, landed, isEvents, isExpected⟩ := saved.effect
  obtain ⟨behind, event, isEvent, _⟩ := (mem_intentsFrom intentFor).mp present
  have within := (List.getElem?_eq_some_iff.mp isEvent).1
  refine ⟨⟨index, attempt.batch⟩, (valid.grounded isAttempt).landed.mp landed, issued, ?_⟩
  rw [Covers, isExpected, isEvents]
  omega

/-- What is known of the intents that were returned. -/
structure Intents (world : World S) (intents : List (ProjectedIntent Command)) : Prop where
  /-- Each comes from the append of a call that has ended. -/
  projected : ∀ intent ∈ intents, ∃ effect ∈ world.effects,
    Covers effect intent.sourceVersion.toNat ∧
      ∃ attempt : Attempt S, world.attempts[effect.index]? = some attempt ∧
        attempt.outcome ≠ .pending
  distinct : (intents.map fun intent => intent.sourceVersion.toNat).Nodup

theorem Intents.later
    (known : Intents world intents) (during : ∀ issued, Later ⟨world, issued⟩ ⟨after, issued⟩) :
    Intents after intents where
  projected intent present := by
    obtain ⟨effect, took, covers, attempt, isAttempt, ended⟩ := known.projected intent present
    have later := during (some effect.index)
    obtain ⟨attempt', isAttempt', _, _, sameOutcome⟩ := later.attempts isAttempt
    refine ⟨effect, later.effects.subset took, covers, attempt', isAttempt', ?_⟩
    rw [sameOutcome rfl]
    exact ended
  distinct := known.distinct

theorem Intents.close (known : Intents world intents)
    (issued : Option Nat) (ended : outcome ≠ .pending) :
    Intents (world.close issued outcome) intents := by
  cases issued with
  | none => exact known
  | some index =>
    refine ⟨?_, known.distinct⟩
    intro intent present
    obtain ⟨effect, took, covers, attempt, isAttempt, already⟩ := known.projected intent present
    refine ⟨effect, took, covers, _, getElem?_modify_eq_some.mpr ⟨attempt, isAttempt, rfl⟩, ?_⟩
    split
    · exact ended
    · exact already

/-- Further intents of one append whose call has just ended. -/
theorem Intents.append {intents more : List (ProjectedIntent Command)} (valid : world.Valid)
    (known : Intents world intents)
    (isAttempt : world.attempts[index]? = some attempt) (pending : attempt.outcome = .pending)
    (ended : outcome ≠ .pending)
    (own : ∀ intent ∈ more, ∃ effect ∈ world.effects, effect.index = index ∧
      Covers effect intent.sourceVersion.toNat)
    (distinct : (more.map fun intent => intent.sourceVersion.toNat).Nodup) :
    Intents (world.close (some index) outcome) (intents ++ more) := by
  have closed := known.close (some index) ended
  constructor
  · intro intent present
    rcases List.mem_append.mp present with old | new
    · exact closed.projected intent old
    · obtain ⟨effect, took, rfl, covers⟩ := own intent new
      refine ⟨effect, took, covers, _, getElem?_modify_eq_some.mpr ⟨attempt, isAttempt, rfl⟩, ?_⟩
      rw [if_pos rfl]
      exact ended
  · rw [List.map_append, List.nodup_append]
    refine ⟨known.distinct, distinct, ?_⟩
    intro number isOld other isNew same
    subst same
    obtain ⟨old, oldPresent, rfl⟩ := List.mem_map.mp isOld
    obtain ⟨new, newPresent, sameNumber⟩ := List.mem_map.mp isNew
    obtain ⟨effect, took, covers, other, isOther, already⟩ := known.projected old oldPresent
    obtain ⟨owned, ownedTook, rfl, ownedCovers⟩ := own new newPresent
    rw [sameNumber] at ownedCovers
    -- The old intent would come from the append whose call is only ending now.
    rw [valid.eq_of_covers took ownedTook covers ownedCovers, isAttempt, Option.some_inj] at isOther
    subst isOther
    exact already pending

end Intents

/-- The append that a client's call has issued. -/
def Control.issued : Control S Command → Option Nat
  | .busy _ _ _ issued _ => issued
  | _ => none

/-- The call with this append has not ended. -/
def Pending (view : View S) : Prop :=
  ∀ index, view.issued = some index →
    ∃ attempt : Attempt S, view.world.attempts[index]? = some attempt ∧ attempt.outcome = .pending

/-- What is known of a client. -/
def Control.Held (intentFor : S.A.Event → Option Command) (world : World S) :
    Control S Command → Prop
  | .vacant => True
  | .holding root => Faithful world.events root
  | .busy procedure before root issued pause =>
    Faithful world.events root ∧ Pending ⟨world, issued⟩ ∧
      pause.Holds (contract S) (Returned intentFor procedure before) root ⟨world, issued⟩

variable {control : Control S Command}

section Clients

variable {Client : Type}

theorem Pending.later (pending : Pending ⟨world, issued⟩)
    (during : Later ⟨world, issued⟩ ⟨after, issued⟩) :
    Pending ⟨after, issued⟩ := by
  intro index isIssued
  obtain ⟨attempt, isAttempt, isPending⟩ := pending index isIssued
  obtain ⟨attempt', isAttempt', _, _, sameOutcome⟩ := during.attempts isAttempt
  exact ⟨attempt', isAttempt', (sameOutcome isIssued).trans isPending⟩

theorem Control.Held.later (held : control.Held intentFor world)
    (during : Later ⟨world, control.issued⟩ ⟨after, control.issued⟩) :
    control.Held intentFor after := by
  cases control with
  | vacant => trivial
  | holding root =>
    have faithful : Faithful world.events root := held
    exact faithful.mono (events_grow during.effects)
  | busy procedure before root issued pause =>
    obtain ⟨faithful, pending, holds⟩ := held
    refine ⟨faithful.later during, pending.later during, ?_⟩
    exact holds.stable (fun returned later => Returned.later returned later) during

/-- What is known of all clients. -/
structure Clients (intentFor : S.A.Event → Option Command) (world : World S)
    (clients : Client → Control S Command) : Prop where
  held : ∀ client, (clients client).Held intentFor world
  separate : ∀ {first second : Client} {index : Nat},
    (clients first).issued = some index → (clients second).issued = some index → first = second

/-- One client moves; the others see only what they may see. -/
theorem Clients.update [DecidableEq Client] {clients : Client → Control S Command}
    (known : Clients intentFor world clients) (held : control.Held intentFor after)
    (others : ∀ other, other ≠ client →
      Later ⟨world, (clients other).issued⟩ ⟨after, (clients other).issued⟩)
    (own : ∀ other, other ≠ client → ∀ index,
      control.issued = some index → (clients other).issued ≠ some index) :
    Clients intentFor after (Function.update clients client control) := by
  constructor
  · intro other
    by_cases same : other = client
    · subst same
      rw [Function.update_self]
      exact held
    · rw [Function.update_of_ne same]
      exact (known.held other).later (others other same)
  · intro first second index isFirst isSecond
    by_cases firstSame : first = client <;> by_cases secondSame : second = client
    · rw [firstSame, secondSame]
    · subst firstSame
      rw [Function.update_self] at isFirst
      rw [Function.update_of_ne secondSame] at isSecond
      exact absurd isSecond (own second secondSame index isFirst)
    · subst secondSame
      rw [Function.update_self] at isSecond
      rw [Function.update_of_ne firstSame] at isFirst
      exact absurd isFirst (own first firstSame index isSecond)
    · rw [Function.update_of_ne firstSame] at isFirst
      rw [Function.update_of_ne secondSame] at isSecond
      exact known.separate isFirst isSecond

theorem Clients.issued_lt (known : Clients intentFor world clients)
    (issued : (clients client).issued = some index) :
    index < world.attempts.length := by
  have held := known.held client
  cases isControl : clients client with
  | vacant => rw [isControl] at issued; cases issued
  | holding root => rw [isControl] at issued; cases issued
  | busy procedure before root own pause =>
    rw [isControl] at issued held
    obtain ⟨attempt, isAttempt, _⟩ := held.2.1 index issued
    exact (List.getElem?_eq_some_iff.mp isAttempt).1

theorem Clients.later {clients : Client → Control S Command}
    (known : Clients intentFor world clients)
    (during : ∀ issued, Later ⟨world, issued⟩ ⟨after, issued⟩) :
    Clients intentFor after clients where
  held client := (known.held client).later (during _)
  separate := known.separate

end Clients

section Calls

variable {procedure : Procedure S}

/-- Issuing a call is harmless to everybody, and the caller knows its append. -/
theorem entered {pause : Pause S.Root (Call S) Call.Answer (Reply S Command)}
    (valid : view.world.Valid) (guarded : pause.Guarded (contract S) root view) :
    (∀ issued, Later ⟨view.world, issued⟩ ⟨(pause.enter issue view).world, issued⟩) ∧
      ((pause.enter issue view).issued = view.issued ∨
        (pause.enter issue view).issued = some view.world.attempts.length) ∧
      (Pending view → Pending (pause.enter issue view)) := by
  cases pause with
  | finished reply => exact ⟨fun _ => .refl valid, .inl rfl, id⟩
  | waiting call next =>
    obtain ⟨_, admissible⟩ := guarded
    cases call with
    | readStream start => exact ⟨fun _ => .refl valid, .inl rfl, id⟩
    | hydrate schemaVersion => exact ⟨fun _ => .refl valid, .inl rfl, id⟩
    | commit schemaVersion position state =>
      exact ⟨fun _ => later_committed valid admissible.1 admissible.2, .inl rfl, id⟩
    | append events expected envelopes =>
      refine ⟨fun _ => later_appended valid admissible.1, .inr rfl, ?_⟩
      rintro _ _ ⟨⟩
      exact ⟨_, getElem?_concat_eq_some.mpr (.inr ⟨rfl, rfl⟩), rfl⟩

theorem Control.Held.start
    (held : control.Held intentFor world) (starts : procedure.start control = some root) :
    Faithful world.events root := by
  cases procedure <;> cases control <;> cases starts
  case load.vacant => exact faithful_new _
  case dispatch.vacant => exact faithful_new _
  all_goals exact held

theorem Reply.outcome_ne_pending (reply : Reply S Command) : reply.outcome ≠ .pending := by
  have ofError (error : S.Error) : outcomeOfError error ≠ .pending := by
    cases error <;> exact Outcome.noConfusion
  unfold Reply.outcome
  split
  case h_3 => exact ofError _
  case h_5 => exact ofError _
  all_goals exact Outcome.noConfusion

@[simp] theorem Procedure.issued_release (procedure : Procedure S) (root : S.Root)
    (reply : Reply S Command) :
    (procedure.release root reply).issued = none := by
  unfold release
  split
  · rfl
  · rfl
  · split <;> rfl

@[simp] theorem Procedure.issued_abandoned (procedure : Procedure S) (root : S.Root) :
    (procedure.abandoned root : Control S Command).issued = none := by
  cases procedure <;> rfl

theorem Returned.held (returned : Returned intentFor procedure before reply root view) :
    (procedure.release root reply).Held intentFor view.world := by
  have faithful := returned.faithful
  cases returned with
  | @load _ _ _ result _ ends =>
    cases result with
    | ok loaded => exact ends.loaded loaded rfl
    | error error => trivial
  | save ends => exact faithful
  | saveWith ends => exact faithful
  | react ends => exact faithful
  | dispatch ends => trivial

theorem Procedure.held_abandoned (procedure : Procedure S) (faithful : Faithful world.events root) :
    (procedure.abandoned root : Control S Command).Held intentFor world := by
  cases procedure with
  | load repo => trivial
  | dispatch repo handler => trivial
  | save repo events => exact faithful
  | saveWith schemas events => exact faithful
  | react repo handler => exact faithful

/-- Intents carry the versions of stored events. -/
theorem ReactionEnds.intents (valid : view.world.Valid)
    (ends : ReactionEnds intentFor handler before result root view) :
    (∀ intent ∈ (Reply.reacted result).intents, ∃ effect ∈ view.world.effects,
      view.issued = some effect.index ∧ Covers effect intent.sourceVersion.toNat) ∧
    ((Reply.reacted result).intents.map fun intent => intent.sourceVersion.toNat).Nodup := by
  match result, ends with
  | .ok (.reacted _ _ intents), ⟨produced, _, saved, _, isIntents⟩ =>
    constructor
    · intro intent present
      have numbered : intent.numbered ∈ intents.toList.map ProjectedIntent.numbered :=
        List.mem_map_of_mem present
      rw [isIntents] at numbered
      exact saved.covers valid numbered
    · have distinct :=
        nodup_intentsFrom intentFor (depth before.version + 1) produced.toList
      rw [← isIntents, List.map_map] at distinct
      exact distinct
  | .ok .ignored, _
  | .error (.returned _), _
  | .error .panicked, _ => exact ⟨by simp [Reply.intents], by simp [Reply.intents]⟩

theorem Returned.intents (valid : view.world.Valid)
    (returned : Returned intentFor procedure before reply root view) :
    (∀ intent ∈ reply.intents, ∃ effect ∈ view.world.effects,
      view.issued = some effect.index ∧ Covers effect intent.sourceVersion.toNat) ∧
    (reply.intents.map fun intent => intent.sourceVersion.toNat).Nodup := by
  cases returned with
  | load ends => exact ⟨by simp [Reply.intents], by simp [Reply.intents]⟩
  | save ends => exact ⟨by simp [Reply.intents], by simp [Reply.intents]⟩
  | saveWith ends => exact ⟨by simp [Reply.intents], by simp [Reply.intents]⟩
  | react ends => exact ends.intents valid
  | dispatch ends => exact ends.intents valid

end Calls

section System

variable {Client : Type}

/-- What is known of a system. -/
structure System.Valid (intentFor : S.A.Event → Option Command)
    (system : System S Command Client) : Prop where
  world : system.world.Valid
  clients : Clients intentFor system.world system.clients
  intents : Intents system.world system.intents

namespace System.Valid

variable {system : System S Command Client}
theorem initially : (System.initial S Command Client).Valid intentFor where
  world := World.Valid.initially
  clients := ⟨fun _ => trivial, by rintro _ _ _ ⟨⟩⟩
  intents := ⟨by rintro _ ⟨⟩, List.nodup_nil⟩

variable [DecidableEq Client]

theorem place (valid : system.Valid intentFor)
    (held : control.Held intentFor system.world) (idle : control.issued = none) :
    (system.place client control).Valid intentFor where
  world := valid.world
  clients := by
    apply valid.clients.update held
    · intro other _
      exact .refl valid.world
    · intro other _ index issued
      rw [idle] at issued
      cases issued
  intents := valid.intents

/-- A client goes on with code that is safe. -/
theorem proceed (valid : system.Valid intentFor) {code : Code S (Reply S Command)}
    (owned : issued = none ∨ issued = (system.clients client).issued)
    (pending : Pending ⟨system.world, issued⟩)
    (safe : Program.Safe (contract S) (Returned intentFor procedure before) code root
      ⟨system.world, issued⟩) :
    (system.proceed client procedure before root issued code).Valid intentFor := by
  obtain ⟨guarded, holds⟩ := safe.advance
  unfold System.proceed
  generalize code.advance root = advanced at guarded holds ⊢
  obtain ⟨root, pause⟩ := advanced
  obtain ⟨grows, isIssued, stillPending⟩ := entered valid.world guarded
  refine ⟨(grows none).valid, ?_, valid.intents.later grows⟩
  apply valid.clients.update
  · refine ⟨?_, stillPending pending, holds⟩
    cases pause with
    | finished reply => exact Returned.faithful holds
    | waiting call next => exact guarded.1.mono (events_grow (grows none).effects)
  · intro other _
    exact grows _
  · intro other different index isOwn isOther
    rcases isIssued with same | new
    · change (pause.enter issue ⟨system.world, issued⟩).issued = some index at isOwn
      rw [same] at isOwn
      rcases owned with rfl | rfl
      · cases isOwn
      · exact different (valid.clients.separate isOther isOwn)
    · change (pause.enter issue ⟨system.world, issued⟩).issued = some index at isOwn
      rw [new, Option.some_inj] at isOwn
      have below := valid.clients.issued_lt isOther
      exact absurd below (by rw [isOwn]; exact Nat.lt_irrefl _)

/-- A call of a client ends, with a reply or without one. -/
theorem close (valid : system.Valid intentFor) {outcome : Outcome}
    (owned : (system.clients client).issued = issued)
    (pending : Pending ⟨system.world, issued⟩) (truthful : Truthful ⟨system.world, issued⟩ outcome)
    (ended : outcome ≠ .pending) (held : control.Held intentFor system.world)
    (idle : control.issued = none)
    (own : ∀ intent ∈ more, ∃ effect ∈ system.world.effects,
      issued = some effect.index ∧ Covers effect intent.sourceVersion.toNat)
    (distinct : (more.map fun intent => intent.sourceVersion.toNat).Nodup) :
    ({ system with
        world := system.world.close issued outcome
        intents := system.intents ++ more }.place client control).Valid intentFor := by
  have closed : (system.world.close issued outcome).Valid :=
    valid.world.close fun isIssued isAttempt => truthful _ _ isIssued isAttempt
  refine ⟨closed, ?_, ?_⟩
  · apply valid.clients.update
    · apply held.later
      rw [idle]
      exact later_close closed fun _ impossible => nomatch impossible
    · intro other different
      apply later_close closed
      intro index isOther isOwn
      exact different (valid.clients.separate isOther (owned.trans isOwn))
    · intro other _ index isOwn
      rw [idle] at isOwn
      cases isOwn
  · cases issued with
    | none =>
      have isNil : more = [] := by
        apply List.eq_nil_iff_forall_not_mem.mpr
        intro intent present
        obtain ⟨_, _, impossible, _⟩ := own intent present
        cases impossible
      subst isNil
      rw [List.append_nil]
      exact valid.intents
    | some index =>
      obtain ⟨attempt, isAttempt, isPending⟩ := pending index rfl
      apply valid.intents.append valid.world isAttempt isPending ended _ distinct
      intro intent present
      obtain ⟨effect, took, isIndex, covers⟩ := own intent present
      exact ⟨effect, took, (Option.some_inj.mp isIndex).symm, covers⟩

/-- Every step keeps the system valid. -/
theorem step (lawful : S.Lawful) {stream : StreamKey} {after : System S Command Client}
    (valid : system.Valid intentFor)
    (taken : Step stream intentFor system label after) :
    after.Valid intentFor := by
  cases taken with
  | create vacant => exact valid.place (faithful_new _) rfl
  | call procedure starts =>
    have faithful := (valid.clients.held _).start starts
    apply valid.proceed (.inl rfl)
    · rintro _ ⟨⟩
    · exact safe_code lawful ⟨valid.world, rfl, faithful⟩ procedure
  | @answer client _ _ _ _ _ _ _ waiting answers =>
    have held := valid.clients.held client
    rw [waiting] at held
    obtain ⟨_, pending, holds⟩ := held
    apply valid.proceed (.inr (by rw [waiting]; rfl)) pending
    exact holds (.refl valid.world) ⟨answers, rfl⟩
  | @reply client _ _ _ _ _ finished =>
    have held := valid.clients.held client
    rw [finished] at held
    obtain ⟨_, pending, returned⟩ := held
    have returned : Returned intentFor _ _ _ _ _ := returned
    obtain ⟨own, distinct⟩ := returned.intents valid.world
    exact valid.close (by rw [finished]; rfl) pending returned.truthful
      (Reply.outcome_ne_pending _) returned.held (Procedure.issued_release _ _ _) own distinct
  | @abandon client procedure _ root issued _ _ waiting =>
    have held := valid.clients.held client
    rw [waiting] at held
    obtain ⟨faithful, pending, _⟩ := held
    have owned : (system.clients client).issued = issued := by
      rw [waiting]
      rfl
    have noIntents : ∀ intent ∈ ([] : List (ProjectedIntent Command)),
        ∃ effect ∈ system.world.effects,
          issued = some effect.index ∧ Covers effect intent.sourceVersion.toNat := by
      simp
    have closed := valid.close owned pending (truthful_uncertain _) Outcome.noConfusion
      (procedure.held_abandoned faithful) (procedure.issued_abandoned root) noIntents
      List.nodup_nil
    rw [List.append_nil] at closed
    exact closed
  | discard holding => exact valid.place trivial rfl
  | @settle index attempt isAttempt inFlight =>
    have grows (issued : Option Nat) :
        Later ⟨system.world, issued⟩ ⟨system.world.settle stream index attempt, issued⟩ :=
      later_settle valid.world stream isAttempt inFlight
    exact ⟨(grows none).valid, valid.clients.later grows, valid.intents.later grows⟩

theorem of_reachable (lawful : S.Lawful) (reachable : Reachable stream intentFor trace system) :
    system.Valid intentFor :=
  Run.invariant initially (fun valid taken => valid.step lawful taken) reachable

end System.Valid

end System

end Mnesis.Aggregates
