import Mnesis.Aggregates.Saves

/-!
# Reactions under interference

The versions that a reaction attaches to its intents are counted from the root it
started with.  They are the versions behind that root for as many events as were
produced, and the capacity and the version ceiling that the save has checked are
those that the projection needs.
-/

namespace Mnesis.Aggregates

open Foundation Kernel Store

variable {S : EventStore} {Command : Type}

/-- The number and the intent of a projected intent. -/
def ProjectedIntent.numbered (projected : ProjectedIntent Command) : Nat × Command :=
  (projected.sourceVersion.toNat, projected.intent)

/-- The intents of events, each with the number of its event; the first event has
the number `start`. -/
def intentsFrom (intentFor : S.A.Event → Option Command) (start : Nat)
    (events : List S.A.Event) : List (Nat × Command) :=
  (events.zipIdx start).filterMap fun event =>
    (intentFor event.1).map fun intent => (event.2, intent)

section Projection

variable (intentFor : S.A.Event → Option Command)

theorem intentsFrom_cons (start : Nat) (event : S.A.Event) (events : List S.A.Event) :
    intentsFrom intentFor start (event :: events) =
      ((intentFor event).map fun intent => (start, intent)).toList ++
        intentsFrom intentFor (start + 1) events := by
  rw [intentsFrom, List.zipIdx_cons]
  cases isIntent : intentFor event with
  | none => simp [isIntent, intentsFrom]
  | some intent => simp [isIntent, intentsFrom]

theorem mem_intentsFrom :
    (number, intent) ∈ intentsFrom intentFor start events ↔
      start ≤ number ∧ ∃ event, events[number - start]? = some event ∧
        intentFor event = some intent := by
  simp only [intentsFrom, List.mem_filterMap, Option.map_eq_some_iff, Prod.mk.injEq]
  constructor
  · rintro ⟨⟨event, index⟩, present, _, isIntent, rfl, rfl⟩
    obtain ⟨behind, isEvent⟩ := List.mk_mem_zipIdx_iff_le_and_getElem?_sub.mp present
    exact ⟨behind, event, isEvent, isIntent⟩
  · rintro ⟨behind, event, isEvent, isIntent⟩
    exact ⟨(event, number), List.mk_mem_zipIdx_iff_le_and_getElem?_sub.mpr ⟨behind, isEvent⟩,
      intent, isIntent, rfl, rfl⟩

theorem nodup_intentsFrom (start : Nat) (events : List S.A.Event) :
    ((intentsFrom intentFor start events).map Prod.fst).Nodup := by
  induction events generalizing start with
  | nil => exact List.nodup_nil
  | cons event events distinct =>
    rw [intentsFrom_cons, List.map_append, List.nodup_append]
    refine ⟨?_, distinct (start + 1), ?_⟩
    · cases intentFor event <;> simp
    · intro own isOwn other isOther same
      subst same
      obtain ⟨⟨number, intent⟩, present, rfl⟩ := List.mem_map.mp isOther
      have behind := ((mem_intentsFrom intentFor).mp present).1
      cases isIntent : intentFor event with
      | none => simp [isIntent] at isOwn
      | some projected =>
        have same : number = start := by simpa [isIntent] using isOwn
        omega

end Projection

variable {intents : ProjectedIntents Command N}

namespace ProjectedIntents

/-- The first place is filled before the others. -/
def Packed (intents : ProjectedIntents Command N) : Prop :=
  intents.first = none → intents.rest = []

theorem exists_push (packed : intents.Packed)
    (room : intents.toList.length ≤ N) (intent : ProjectedIntent Command) :
    ∃ result, intents.push intent = some result ∧ result.Packed ∧
      result.toList = intents.toList ++ [intent] := by
  obtain ⟨first, rest, capacity⟩ := intents
  cases first with
  | none =>
    cases packed rfl
    exact ⟨_, rfl, by rintro ⟨⟩, rfl⟩
  | some first =>
    have free : rest.length < N := by
      simpa [toList, Nat.add_one_le_iff] using room
    exact ⟨_, dif_pos free, by rintro ⟨⟩, rfl⟩

end ProjectedIntents

namespace Saga

variable (intentFor : S.A.Event → Option Command)

theorem exists_pushIntent (packed : intents.Packed)
    (room : intents.toList.length ≤ N) (recorded : S.A.Event) (current : Version) :
    ∃ result, pushIntent intentFor recorded current intents = .ok result ∧ result.Packed ∧
      result.toList.length ≤ intents.toList.length + 1 ∧
      result.toList.map ProjectedIntent.numbered =
        intents.toList.map ProjectedIntent.numbered ++
          ((intentFor recorded).map fun intent => (current.toNat, intent)).toList := by
  unfold pushIntent
  cases intentFor recorded with
  | none => exact ⟨intents, rfl, packed, Nat.le_succ _, (List.append_nil _).symm⟩
  | some intent =>
    obtain ⟨result, pushed, packed', isList⟩ :=
      ProjectedIntents.exists_push packed room ⟨current, intent⟩
    refine ⟨result, ?_, packed', ?_, ?_⟩
    · dsimp only
      rw [pushed]
      rfl
    · simp [isList]
    · rw [isList, List.map_append]
      rfl

/-- Projecting events that fit below the capacity and the version ceiling yields
the intents of all of them, and the version of the last. -/
theorem exists_projectIntents (nonempty : events ≠ []) (packed : intents.Packed)
    (room : intents.toList.length + events.length ≤ N + 1)
    (below : current.toNat + events.length ≤ 2 ^ 64) :
    ∃ last result, projectIntents intentFor events current intents = .ok (last, result) ∧
      last.toNat + 1 = current.toNat + events.length ∧
      result.toList.map ProjectedIntent.numbered =
        intents.toList.map ProjectedIntent.numbered ++
          intentsFrom intentFor current.toNat events := by
  induction events generalizing current intents with
  | nil => exact absurd rfl nonempty
  | cons recorded rest project =>
    rw [List.length_cons] at room below
    obtain ⟨pushed, isPushed, packed', grown, isList⟩ :=
      exists_pushIntent intentFor packed (by omega) recorded current
    rw [intentsFrom_cons, ← List.append_assoc, ← isList]
    cases rest with
    | nil =>
      refine ⟨current, pushed, ?_, rfl, (List.append_nil _).symm⟩
      rw [projectIntents, isPushed]
      rfl
    | cons next rest =>
      rw [List.length_cons] at room below
      have fits : current.toNat + 1 < 2 ^ 64 := by omega
      obtain ⟨following, isFollowing⟩ := Version.exists_toNat_eq (Nat.succ_pos _) fits
      have isNext : current.next = some following := Version.next_eq_some.mpr isFollowing
      have belowRest : following.toNat + (next :: rest).length ≤ 2 ^ 64 := by
        rw [List.length_cons]
        omega
      obtain ⟨last, result, projected, number, isResult⟩ :=
        project (List.cons_ne_nil _ _) packed' (by rw [List.length_cons]; omega) belowRest
      refine ⟨last, result, ?_, ?_, ?_⟩
      · rw [projectIntents, isPushed, ok_bind, isNext]
        exact projected
      · simp only [List.length_cons] at number ⊢
        omega
      · rw [isResult, isFollowing]

end Saga

/-- What a handler decides on the state of a root. -/
def Decides (handler : S.Handler N)
    (root : S.Root) (decided : Option (Events S.A.Event N)) : Prop :=
  ∃ state, root.state? = some state ∧ handler state = .ok decided

/-- How a reaction ends that started from the root `before`. -/
def ReactionEnds (intentFor : S.A.Event → Option Command)
    (handler : S.Handler N) (before : S.Root) :
    Saga.Result S Command N → S.Root → View S → Prop
  | .ok .ignored, root, view =>
    Decides handler before none ∧
      root = before ∧ Faithful view.world.events root ∧ view.issued = none
  | .ok (.reacted version _ intents), root, view =>
    ∃ produced, Decides handler before (some produced) ∧
      Saved before produced.toList root view ∧ root.version = some version ∧
      intents.toList.map ProjectedIntent.numbered =
        intentsFrom intentFor (depth before.version + 1) produced.toList
  | .error (.returned (.store error)), root, view =>
    root = before ∧ Faithful view.world.events root ∧ Unsaved view error
  | .error (.returned _), root, view =>
    root = before ∧ Faithful view.world.events root ∧ view.issued = none
  | .error .panicked, _, _ => False

theorem ReactionEnds.later
    (ends : ReactionEnds intentFor handler before result root view) (later : Later view after) :
    ReactionEnds intentFor handler before result root after := by
  match result, ends with
  | .ok .ignored, ⟨decided, same, faithful, unsent⟩ =>
    exact ⟨decided, same, faithful.later later, later.issued.trans unsent⟩
  | .ok (.reacted _ _ _), ⟨produced, decided, saved, isVersion, isIntents⟩ =>
    exact ⟨produced, decided, saved.later later, isVersion, isIntents⟩
  | .error (.returned (.store _)), ⟨same, faithful, unsaved⟩ =>
    exact ⟨same, faithful.later later, unsaved.later later⟩
  | .error (.returned (.kernel _)), ⟨same, faithful, unsent⟩
  | .error (.returned (.react _)), ⟨same, faithful, unsent⟩
  | .error (.returned .versionOverflow), ⟨same, faithful, unsent⟩ =>
    exact ⟨same, faithful.later later, later.issued.trans unsent⟩

theorem ReactionEnds.faithful (ends : ReactionEnds intentFor handler before result root view) :
    Faithful view.world.events root := by
  match result, ends with
  | .ok .ignored, ⟨_, _, faithful, _⟩ => exact faithful
  | .ok (.reacted _ _ _), ⟨_, _, saved, _, _⟩ => exact saved.faithful
  | .error (.returned (.store _)), ⟨_, faithful, _⟩
  | .error (.returned (.kernel _)), ⟨_, faithful, _⟩
  | .error (.returned (.react _)), ⟨_, faithful, _⟩
  | .error (.returned .versionOverflow), ⟨_, faithful, _⟩ => exact faithful

/-- After a save, the projection of what was saved cannot fail. -/
theorem Saved.exists_projectIntents (intentFor : S.A.Event → Option Command)
    {produced : Events S.A.Event N} (saved : Saved before produced.toList root view)
    (isFirst : first.toNat = depth before.version + 1) :
    ∃ last intents,
      Saga.projectIntents intentFor produced.toList first (.new : ProjectedIntents Command N) =
        .ok (last, intents) ∧
      root.version = some last ∧
      intents.toList.map ProjectedIntent.numbered =
        intentsFrom intentFor (depth before.version + 1) produced.toList := by
  have number := saved.number
  have ceiling := depth_lt root.version
  have capacity := produced.capacity
  have length : produced.toList.length = produced.rest.length + 1 := rfl
  have nonempty : produced.toList ≠ [] := List.cons_ne_nil _ _
  have below : first.toNat + produced.toList.length ≤ 2 ^ 64 := by omega
  have room : (ProjectedIntents.new : ProjectedIntents Command N).toList.length +
      produced.toList.length ≤ N + 1 := by
    change 0 + produced.toList.length ≤ N + 1
    omega
  obtain ⟨last, intents, projected, isLast, isIntents⟩ :=
    Saga.exists_projectIntents intentFor nonempty (fun _ => rfl) room below
  refine ⟨last, intents, projected, depth_injective ?_, ?_⟩
  · rw [depth_some]
    omega
  · rw [isIntents, isFirst]
    rfl

/-- A reaction is safe under interference. -/
theorem safe_reactAndSave (lawful : S.Lawful) (standing : Standing before view) (repo : Repo) :
    Program.Safe (contract S) (ReactionEnds intentFor handler before)
      (Saga.reactAndSave repo intentFor handler) before view := by
  unfold Saga.reactAndSave
  rw [Program.safe_get_bind]
  cases decided : before.handle (fun state _ => handler state) () with
  | error error =>
    cases error with
    | kernel cause => exact ⟨rfl, standing.faithful, standing.unsent⟩
    | domain cause => exact ⟨rfl, standing.faithful, standing.unsent⟩
  | ok decision =>
    have decides := AggregateRoot.handle_eq_ok.mp decided
    cases decision with
    | none => exact ⟨decides, rfl, standing.faithful, standing.unsent⟩
    | some produced =>
      cases isFirst : following before.version with
      | none => exact ⟨rfl, standing.faithful, standing.unsent⟩
      | some first =>
        dsimp only
        rw [Program.safe_bind]
        apply (safe_repo_save repo lawful standing produced).mono
        rintro result root later ⟨_, ends⟩
        cases result with
        | error error => exact ends
        | ok position =>
          obtain ⟨last, intents, projected, isVersion, isIntents⟩ :=
            Saved.exists_projectIntents intentFor ends (following_eq_some.mp isFirst)
          dsimp only
          rw [projected]
          exact ⟨produced, decides, ends, isVersion, isIntents⟩

theorem safe_dispatch (lawful : S.Lawful) (standing : Standing before view) (repo : Repo) :
    Program.Safe (contract S)
      (fun result root later => ∃ base, ReactionEnds intentFor handler base result root later)
      (Saga.dispatch repo intentFor handler) before view := by
  unfold Saga.dispatch
  rw [Program.safe_bind]
  apply (safe_repo_load repo standing).mono
  intro result root later ends
  cases result with
  | error error =>
    refine ⟨before, ends.same, ?_, .unsent ends.standing.unsent⟩
    rw [ends.same]
    exact ends.standing.faithful
  | ok loaded =>
    dsimp only
    rw [Program.safe_set_bind]
    have standing' : Standing loaded later :=
      ⟨ends.standing.valid, ends.standing.unsent, ends.loaded loaded rfl⟩
    apply (safe_reactAndSave lawful standing' repo).mono
    intro result root last ends
    exact ⟨loaded, ends⟩

end Mnesis.Aggregates
