import Mathlib.Data.List.Nodup
import Mnesis.Transforms.Graph

/-!
# Upcasting

The macro accepts exactly the declarations that can be followed from schema 1 to
the latest schema of every name.  What it generates for them follows the chain of
an event's node, and neither depends on the order of the declarations.
-/

namespace Mnesis.Transforms

open Foundation Store

variable {E : Type} {definitions : List (Transform E)}

theorem foldlM_collect_eq_ok :
    definitions.foldlM collect (sources, versions) = .ok result ↔
      (definitions.map Transform.source).Nodup ∧
        (∀ edge ∈ definitions, edge.source ∉ sources) ∧
        result = ((definitions.map Transform.source).reverse ++ sources,
          (declared definitions).foldl Versions.enter versions) := by
  induction definitions generalizing sources versions with
  | nil => simp [declared, eq_comm]
  | cons edge rest collected =>
    rw [List.foldlM_cons, collect, bind_eq_ok]
    simp only [rejectIf_bind_eq_ok, pure_eq_ok, Except.ok.injEq]
    constructor
    · rintro ⟨_, ⟨fresh, rfl⟩, others⟩
      obtain ⟨distinct, notSeen, rfl⟩ := collected.mp others
      refine ⟨?_, ?_, by simp [declared]⟩
      · rw [List.map_cons, List.nodup_cons, not_mem_sources]
        refine ⟨?_, distinct⟩
        intro other isOther same
        exact notSeen other isOther (by simp [same])
      · rw [List.forall_mem_cons]
        refine ⟨fresh, ?_⟩
        intro other isOther seen
        exact notSeen other isOther (List.mem_cons_of_mem _ seen)
    · rintro ⟨distinct, notSeen, rfl⟩
      rw [List.map_cons, List.nodup_cons, not_mem_sources] at distinct
      rw [List.forall_mem_cons] at notSeen
      refine ⟨_, ⟨notSeen.1, rfl⟩, collected.mpr ⟨distinct.2, ?_, by simp [declared]⟩⟩
      intro other isOther seen
      rcases List.mem_cons.mp seen with same | old
      · exact distinct.1 other isOther same
      · exact notSeen.2 other isOther old

theorem checkProduced_eq_ok :
    checkProduced targets edge = .ok () ↔ edge.fromVersion.get = 1 ∨ edge.source ∈ targets := by
  rw [checkProduced, rejectIf_eq_ok, not_and_or, not_not, not_not]

theorem checkComplete_eq_ok (latest : Latest (declared definitions) versions)
    (isDeclared : node ∈ declared definitions) :
    checkComplete sources versions edge node = .ok () ↔
      node ∈ sources ∨ Highest definitions node := by
  obtain ⟨found, isFound, below⟩ := latest.bound node isDeclared
  rw [checkComplete, rejectIf_eq_ok, isFound, Option.any_some, decide_eq_true_iff, not_and_or,
    not_not, UInt32.not_lt, or_comm]
  refine or_congr_right ⟨?_, ?_⟩
  · intro above
    refine ⟨isDeclared, ?_⟩
    intro other isOther sameName
    obtain ⟨again, isAgain, otherBelow⟩ := latest.bound other isOther
    rw [sameName, isFound, Option.some_inj] at isAgain
    rw [isAgain] at above
    exact UInt32.le_trans otherBelow above
  · intro highest
    exact highest.highest _ (latest.present isFound) rfl

/-- The graph check passes exactly for checked declarations. -/
theorem validateGraph_eq_ok :
    validateGraph definitions = .ok versions ↔
      Checked definitions ∧
        versions = (declared definitions).foldl Versions.enter fun _ => none := by
  have latest := Latest.nil.foldl (declared definitions)
  rw [List.nil_append] at latest
  have complete (edge : Transform E) {node : Node} (isDeclared : node ∈ declared definitions) :
      checkComplete ((definitions.map Transform.source).reverse ++ [])
        ((declared definitions).foldl Versions.enter fun _ => none) edge node = .ok () ↔
      node ∈ definitions.map Transform.source ∨ Highest definitions node := by
    rw [checkComplete_eq_ok latest isDeclared]
    simp
  simp only [validateGraph, bind_eq_ok, foldlM_collect_eq_ok, forM_eq_ok, checkProduced_eq_ok,
    pure_eq_ok, Except.ok.injEq]
  constructor
  · rintro ⟨_, ⟨distinct, _, rfl⟩, _, produced, _, finished, rfl⟩
    refine ⟨⟨distinct, produced, ?_⟩, rfl⟩
    intro node isDeclared
    obtain ⟨edge, isEdge, isNode⟩ := List.mem_flatMap.mp isDeclared
    exact (complete edge isDeclared).mp (finished edge isEdge node isNode)
  · rintro ⟨checked, rfl⟩
    refine ⟨_, ⟨checked.distinct, by simp, rfl⟩, (), checked.produced, (), ?_, rfl⟩
    intro edge isEdge node isNode
    have isDeclared : node ∈ declared definitions := List.mem_flatMap.mpr ⟨edge, isEdge, isNode⟩
    exact (complete edge isDeclared).mpr (checked.finished node isDeclared)

/-- What is known of an expansion. -/
structure Expansion.Valid (definitions : List (Transform E)) (expansion : Expansion E) : Prop where
  same : expansion.definitions = definitions
  checked : Checked definitions
  latest : Latest (declared definitions) expansion.versions

theorem expand_eq_ok :
    expand definitions = .ok expansion ↔
      Checked definitions ∧
        expansion = ⟨definitions, (declared definitions).foldl Versions.enter fun _ => none⟩ := by
  simp only [expand, bind_eq_ok, validateGraph_eq_ok, pure_eq_ok, Except.ok.injEq]
  constructor
  · rintro ⟨_, ⟨checked, rfl⟩, rfl⟩
    exact ⟨checked, rfl⟩
  · rintro ⟨checked, rfl⟩
    exact ⟨_, ⟨checked, rfl⟩, rfl⟩

theorem Expansion.valid_of_expand (expanded : expand definitions = .ok expansion) :
    expansion.Valid definitions := by
  obtain ⟨checked, rfl⟩ := expand_eq_ok.mp expanded
  have latest := Latest.nil.foldl (declared definitions)
  rw [List.nil_append] at latest
  exact ⟨rfl, checked, latest⟩

/-- The functions of a chain, one after the other. -/
def runAll (edges : List (Transform E)) (payload : Bytes) : Except (TransformError E) Bytes :=
  edges.foldlM (fun payload edge => (edge.run payload).mapError .transform) payload

/-- The event at a node. -/
def Node.morsel (node : Node) (payload : Bytes) : EventMorsel := ⟨node.1, node.2, payload⟩

@[simp] theorem Node.node_morsel (node : Node) (payload : Bytes) :
    (node.morsel payload).node = node := rfl

@[simp] theorem Node.payload_morsel (node : Node) (payload : Bytes) :
    (node.morsel payload).payload = payload := rfl

@[simp] theorem Node.eventType_morsel (node : Node) (payload : Bytes) :
    (node.morsel payload).eventType = node.1 := rfl

@[simp] theorem Node.schemaVersion_morsel (node : Node) (payload : Bytes) :
    (node.morsel payload).schemaVersion = node.2 := rfl

theorem find_source (distinct : (definitions.map Transform.source).Nodup)
    (isEdge : edge ∈ definitions) :
    (definitions.find? fun other => other.source = edge.source) = some edge := by
  cases isFound : definitions.find? fun other => other.source = edge.source with
  | none => simpa using List.find?_eq_none.mp isFound edge isEdge
  | some found =>
    have same : found.source = edge.source := by simpa using List.find?_some isFound
    rw [Option.some_inj]
    exact List.inj_on_of_nodup_map distinct (List.mem_of_find?_eq_some isFound) isEdge same

namespace Expansion

variable {expansion : Expansion E}

section Steps

variable {node : Node}

section

variable (valid : expansion.Valid definitions)
include valid

theorem find_of_source (isEdge : edge ∈ definitions) (payload : Bytes) :
    (expansion.definitions.find? fun other => other.source = (edge.source.morsel payload).node) =
      some edge := by
  rw [valid.same]
  exact find_source valid.checked.distinct isEdge

theorem find_of_not_source (noEdge : ∀ edge ∈ definitions, edge.source ≠ node) (payload : Bytes) :
    (expansion.definitions.find? fun other => other.source = (node.morsel payload).node) =
      none := by
  rw [valid.same, List.find?_eq_none]
  intro edge isEdge
  rw [decide_eq_true_iff]
  exact noEdge edge isEdge

theorem upcastStep_of_run (isEdge : edge ∈ definitions) (ran : edge.run payload = .ok changed) :
    expansion.upcastStep (edge.source.morsel payload) = .again (edge.target.morsel changed) := by
  unfold upcastStep
  rw [find_of_source valid isEdge payload]
  simp only [Node.payload_morsel, ran]
  rfl

theorem upcastStep_of_failed (isEdge : edge ∈ definitions)
    (failed : edge.run payload = .error error) :
    expansion.upcastStep (edge.source.morsel payload) = .stop (.error (.transform error)) := by
  unfold upcastStep
  rw [find_of_source valid isEdge payload]
  simp only [Node.payload_morsel, failed]

theorem upcastStep_of_highest
    (noEdge : ∀ edge ∈ definitions, edge.source ≠ node) (highest : Highest definitions node) :
    expansion.upcastStep (node.morsel payload) = .stop (.ok (node.morsel payload)) := by
  have isLatest := valid.latest.highest_iff.mp highest
  unfold upcastStep
  rw [find_of_not_source valid noEdge payload]
  simp [isLatest]

theorem upcastStep_of_undeclared_schema (undeclared : node ∉ declared definitions)
    (isDeclared : other ∈ declared definitions) (sameName : other.1 = node.1) :
    expansion.upcastStep (node.morsel payload) =
      .stop (.error (.unsupportedSchema node.1 node.2)) := by
  have noEdge : ∀ edge ∈ definitions, edge.source ≠ node := by
    rintro edge isEdge rfl
    exact undeclared (source_mem_declared isEdge)
  obtain ⟨latest, isLatest, _⟩ := valid.latest.bound other isDeclared
  rw [sameName] at isLatest
  have different : node.2 ≠ latest := by
    rintro rfl
    exact undeclared (valid.latest.present isLatest)
  unfold upcastStep
  rw [find_of_not_source valid noEdge payload]
  simp [isLatest, different]

theorem upcastStep_of_undeclared_name
    (undeclared : ∀ other ∈ declared definitions, other.1 ≠ node.1) :
    expansion.upcastStep (node.morsel payload) = .stop (.ok (node.morsel payload)) := by
  have noEdge : ∀ edge ∈ definitions, edge.source ≠ node := by
    rintro edge isEdge rfl
    exact undeclared _ (source_mem_declared isEdge) rfl
  unfold upcastStep
  rw [find_of_not_source valid noEdge payload]
  cases isLatest : expansion.versions node.1 with
  | none => simp [isLatest]
  | some latest => exact absurd rfl (undeclared (node.1, latest) (valid.latest.present isLatest))

end

theorem schema_of_upcastStep (isAgain : expansion.upcastStep morsel = .again next) :
    next.schemaVersion.get.toNat = morsel.schemaVersion.get.toNat + 1 := by
  unfold upcastStep at isAgain
  split at isAgain
  next edge isFound =>
    have starts : edge.source = morsel.node := by simpa using List.find?_some isFound
    have sameSchema : edge.fromVersion = morsel.schemaVersion := congrArg Prod.snd starts
    split at isAgain
    next => cases isAgain
    next =>
      cases isAgain
      rw [← sameSchema]
      exact edge.contiguous
  next =>
    split at isAgain
    next => split at isAgain <;> cases isAgain
    next => cases isAgain

end Steps

theorem upcast_returns (expansion : Expansion E) (morsel : EventMorsel) :
    ∃ result, Returns expansion.upcastStep morsel result := by
  apply exists_returns fun morsel => 2 ^ 32 - morsel.schemaVersion.get.toNat
  intro morsel next isAgain
  have raised := schema_of_upcastStep isAgain
  have bounded := next.schemaVersion.get.toNat_lt
  omega

/-- The generated function follows the chain of a node. -/
theorem returns_of_chain (valid : expansion.Valid definitions)
    (isDeclared : node ∈ declared definitions)
    (chain : Chain definitions node edges last) (payload : Bytes) :
    Returns expansion.upcastStep (node.morsel payload)
      ((runAll edges payload).map last.morsel) := by
  induction chain generalizing payload with
  | stop noEdge =>
    have highest := valid.checked.complete isDeclared (.stop noEdge)
    exact returns_of_stop (upcastStep_of_highest valid noEdge highest)
  | @step edge rest last isEdge _ follow =>
    rw [runAll, List.foldlM_cons]
    cases ran : edge.run payload with
    | error error => exact returns_of_stop (upcastStep_of_failed valid isEdge ran)
    | ok changed =>
      apply returns_of_again (upcastStep_of_run valid isEdge ran)
      exact follow (target_mem_declared isEdge) changed

end Expansion

theorem exists_chain (definitions : List (Transform E)) (node : Node) :
    ∃ edges last, Chain definitions node edges last := by
  induction isRoom : 2 ^ 32 - node.2.get.toNat using Nat.strongRecOn generalizing node with
  | _ room shorter =>
    by_cases isSource : node ∈ definitions.map Transform.source
    · obtain ⟨edge, isEdge, rfl⟩ := List.mem_map.mp isSource
      have raised : edge.target.2.get.toNat = edge.source.2.get.toNat + 1 := edge.contiguous
      have bounded := edge.target.2.get.toNat_lt
      obtain ⟨edges, last, chain⟩ := shorter _ (by omega) edge.target rfl
      exact ⟨edge :: edges, last, .step isEdge chain⟩
    · exact ⟨[], node, .stop (not_mem_sources.mp isSource)⟩

theorem Chain.last_not_source (chain : Chain definitions node edges last) :
    ∀ edge ∈ definitions, edge.source ≠ last := by
  induction chain with
  | stop noEdge => exact noEdge
  | step _ _ ends => exact ends

theorem mem_declared_of_perm (same : permuted.Perm definitions) (node : Node) :
    node ∈ declared permuted ↔ node ∈ declared definitions :=
  (same.flatMap_right Transform.nodes).mem_iff

theorem Highest.of_perm (highest : Highest definitions node) (same : permuted.Perm definitions) :
    Highest permuted node where
  isDeclared := (mem_declared_of_perm same node).mpr highest.isDeclared
  highest other isDeclared :=
    highest.highest other ((mem_declared_of_perm same other).mp isDeclared)

theorem Checked.of_perm (checked : Checked definitions) (same : permuted.Perm definitions) :
    Checked permuted where
  distinct := (same.map Transform.source).nodup_iff.mpr checked.distinct
  produced edge isEdge := by
    rw [(same.map Transform.target).mem_iff]
    exact checked.produced edge (same.mem_iff.mp isEdge)
  finished node isDeclared := by
    rw [(same.map Transform.source).mem_iff]
    have finished := checked.finished node ((mem_declared_of_perm same node).mp isDeclared)
    exact finished.imp_right fun highest => highest.of_perm same

theorem Expansion.upcastStep_of_perm {expansion reordered : Expansion E}
    (valid : expansion.Valid definitions) (valid' : reordered.Valid permuted)
    (same : permuted.Perm definitions) :
    reordered.upcastStep = expansion.upcastStep := by
  have sameVersions : reordered.versions = expansion.versions :=
    valid'.latest.unique valid.latest (mem_declared_of_perm same)
  funext morsel
  have sameArm : (reordered.definitions.find? fun edge => edge.source = morsel.node) =
      expansion.definitions.find? fun edge => edge.source = morsel.node := by
    by_cases isSource : morsel.node ∈ definitions.map Transform.source
    · obtain ⟨edge, isEdge, starts⟩ := List.mem_map.mp isSource
      rw [valid.same, valid'.same, ← starts, find_source valid.checked.distinct isEdge,
        find_source valid'.checked.distinct (same.mem_iff.mpr isEdge)]
    · have noEdge := not_mem_sources.mp isSource
      have noEdge' : ∀ edge ∈ permuted, edge.source ≠ morsel.node := fun edge isEdge =>
        noEdge edge (same.mem_iff.mp isEdge)
      exact (find_of_not_source valid' noEdge' morsel.payload).trans
        (find_of_not_source valid noEdge morsel.payload).symm
  unfold upcastStep
  rw [sameArm, sameVersions]

/-- What the generated code does with every event. -/
structure Expansion.Upcasts (definitions : List (Transform E)) (expansion : Expansion E) :
    Prop where
  /-- It returns, and what it returns does not depend on the bound. -/
  returns : ∀ morsel, ∃ result, Returns expansion.upcastStep morsel result ∧
    ∀ other, Returns expansion.upcastStep morsel other → other = result
  unknown : ∀ {morsel : EventMorsel},
    (∀ node ∈ declared definitions, node.1 ≠ morsel.eventType) →
    Returns expansion.upcastStep morsel (.ok morsel)
  refused : ∀ {morsel : EventMorsel} {node : Node}, node ∈ declared definitions →
    node.1 = morsel.eventType → morsel.node ∉ declared definitions →
    Returns expansion.upcastStep morsel
      (.error (.unsupportedSchema morsel.eventType morsel.schemaVersion))
  /-- From a declared node it runs the functions of the chain and ends at a current
  schema, where it stays. -/
  followed : ∀ {morsel : EventMorsel}, morsel.node ∈ declared definitions →
    ∃ edges last, Chain definitions morsel.node edges last ∧
      Returns expansion.upcastStep morsel ((runAll edges morsel.payload).map last.morsel) ∧
      expansion.currentVersion last.1 = some last.2 ∧
      ∀ payload, Returns expansion.upcastStep (last.morsel payload) (.ok (last.morsel payload))

theorem Expansion.Valid.upcasts {expansion : Expansion E} (valid : expansion.Valid definitions) :
    expansion.Upcasts definitions where
  returns morsel := by
    obtain ⟨result, returns⟩ := expansion.upcast_returns morsel
    exact ⟨result, returns, fun other again => again.unique returns⟩
  unknown := by
    intro morsel undeclared
    have stops : expansion.upcastStep (morsel.node.morsel morsel.payload) = .stop (.ok morsel) :=
      upcastStep_of_undeclared_name valid undeclared
    exact returns_of_stop stops
  refused isDeclared sameName undeclared :=
    returns_of_stop (upcastStep_of_undeclared_schema valid undeclared isDeclared sameName)
  followed := by
    intro morsel isDeclared
    obtain ⟨edges, last, chain⟩ := exists_chain definitions morsel.node
    have highest := valid.checked.complete isDeclared chain
    refine ⟨edges, last, chain, returns_of_chain valid isDeclared chain morsel.payload,
      valid.latest.highest_iff.mp highest, ?_⟩
    intro payload
    exact returns_of_stop (upcastStep_of_highest valid chain.last_not_source highest)

/-- The macro accepts exactly the declarations that can be followed from schema 1 to
the latest schema of every name; what it generates then upcasts along them, and
their order does not matter. -/
theorem macro_upcasts_along_accepted_graphs (definitions : List (Transform E)) :
    ((∃ expansion, expand definitions = .ok expansion) ↔ WellFormed definitions) ∧
      ∀ expansion, expand definitions = .ok expansion →
        expansion.Upcasts definitions ∧
          ∀ permuted : List (Transform E), permuted.Perm definitions →
            ∃ reordered, expand permuted = .ok reordered ∧
              reordered.currentVersion = expansion.currentVersion ∧
              reordered.upcast = expansion.upcast := by
  constructor
  · rw [← checked_iff_wellFormed]
    constructor
    · rintro ⟨expansion, expanded⟩
      exact (expand_eq_ok.mp expanded).1
    · intro checked
      exact ⟨_, expand_eq_ok.mpr ⟨checked, rfl⟩⟩
  · intro expansion expanded
    have valid := Expansion.valid_of_expand expanded
    refine ⟨valid.upcasts, ?_⟩
    intro permuted same
    have expanded' := expand_eq_ok.mpr ⟨valid.checked.of_perm same, rfl⟩
    have valid' := Expansion.valid_of_expand expanded'
    refine ⟨_, expanded', ?_, ?_⟩
    · exact valid'.latest.unique valid.latest (mem_declared_of_perm same)
    · unfold Expansion.upcast
      rw [Expansion.upcastStep_of_perm valid valid' same]

/-- Two steps, of which the later is declared first and renames the event. -/
def accountSteps : List (Transform Unit) :=
  [{  method := "rename_account"
      event := "opened"
      fromVersion := ⟨2, by decide⟩
      toVersion := ⟨3, by decide⟩
      rename := some "created"
      run := fun payload => .ok (payload ++ [2])
      contiguous := rfl },
    { method := "add_currency"
      event := "opened"
      fromVersion := .initial
      toVersion := ⟨2, by decide⟩
      rename := none
      run := fun payload => .ok (payload ++ [1])
      contiguous := rfl }]

/-- Two declarations of an account. -/
theorem account_steps_upcast :
    ∃ expansion, expand accountSteps = .ok expansion ∧ expansion.Upcasts accountSteps ∧
      expansion.upcast 3 ⟨"opened", .initial, []⟩ =
        some (.ok ⟨"created", ⟨3, by decide⟩, [1, 2]⟩) := by
  have expanded : ∃ expansion, expand accountSteps = .ok expansion := ⟨_, rfl⟩
  obtain ⟨expansion, isExpansion⟩ := expanded
  refine ⟨expansion, isExpansion,
    ((macro_upcasts_along_accepted_graphs accountSteps).2 expansion isExpansion).1, ?_⟩
  obtain ⟨_, rfl⟩ := expand_eq_ok.mp isExpansion
  rfl

end Mnesis.Transforms
