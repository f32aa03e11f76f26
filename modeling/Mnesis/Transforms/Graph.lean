import Mathlib.Logic.Relation
import Mathlib.Tactic.SplitIfs
import Mnesis.Foundation.Machine
import Mnesis.Store.Envelope

/-!
# The transforms macro and its graph

A transform declaration moves an event from one schema version to the next,
possibly under a new name.  The macro checks the declarations as the edges of a
graph whose nodes are names with schema versions, and generates an upcasting
function that follows the edges from any node.  The sets of the source are lists here
and its map a function, since only membership and lookup matter.

The graph check looks at single edges and nodes.  Together its checks say that
every declared node is reached from schema 1, and that following the edges from
any declared node ends at the latest schema of a name.
-/

namespace Mnesis.Transforms

open Foundation Store

/-- An event name at a schema version. -/
abbrev Node := String × SchemaVersion

/-- A declared transform. -/
structure Transform (E : Type) where
  method : String
  event : String
  fromVersion : SchemaVersion
  toVersion : SchemaVersion
  rename : Option String
  /-- The function that the method names. -/
  run : Bytes → Except E Bytes
  contiguous : toVersion.get.toNat = fromVersion.get.toNat + 1

/-- Why a declaration or a list of them is refused. -/
inductive Diagnostic
  | numberTooLarge
  | fromZero
  | toZero
  | pastMaximum
  | nonContiguous (destination next : Nat)
  | duplicate (event : String) (source : Nat)
  | unproduced (event : String) (source : Nat)
  | stopsEarly (name : String) (schema : Nat)
  deriving DecidableEq

/-- The text of a diagnostic. -/
def Diagnostic.text : Diagnostic → String
  | .numberTooLarge => "number too large to fit in target type"
  | .fromZero => "from version must be >= 1"
  | .toZero => "to version must be >= 1"
  | .pastMaximum => "schema version cannot advance past u32::MAX"
  | .nonContiguous destination next =>
    s!"non-contiguous version: to ({destination}) must equal from + 1 ({next})"
  | .duplicate event source =>
    s!"duplicate transform for event '{event}' at source version {source}"
  | .unproduced event source =>
    s!"transform chain gap: no transform produces '{event}@{source}'; chains must start at schema 1"
  | .stopsEarly name schema =>
    s!"transform chain gap: '{name}@{schema}' stops before its latest declared schema"

namespace Transform

variable {E : Type}

/-- The name after the transform. -/
def destination (edge : Transform E) : String :=
  edge.rename.getD edge.event

/-- Where an edge starts. -/
def source (edge : Transform E) : Node := (edge.event, edge.fromVersion)

/-- Where an edge ends. -/
def target (edge : Transform E) : Node := (edge.destination, edge.toVersion)

/-- The nodes that an edge declares. -/
def nodes (edge : Transform E) : List Node := [edge.source, edge.target]

end Transform

variable {E : Type}

/-- The largest schema version. -/
def maxSchema : Nat := 2 ^ 32 - 1

/-- A declaration from its attribute, whose version numbers are literals. -/
def transform (method event : String) (source destination : Nat) (rename : Option String)
    (run : Bytes → Except E Bytes) : Except Diagnostic (Transform E) :=
  if maxSchema < source then
    .error .numberTooLarge
  else if positive : source = 0 then
    .error .fromZero
  else if maxSchema < destination then
    .error .numberTooLarge
  else if destination = 0 then
    .error .toZero
  else if fits : maxSchema < source + 1 then
    .error .pastMaximum
  else if different : destination ≠ source + 1 then
    .error (.nonContiguous destination (source + 1))
  else
    have small : source + 1 < 2 ^ 32 := by
      unfold maxSchema at fits
      omega
    have fromNat : (UInt32.ofNat source).toNat = source :=
      UInt32.toNat_ofNat_of_lt' (Nat.lt_of_succ_lt small)
    have toNat : (UInt32.ofNat destination).toNat = source + 1 := by
      rw [Decidable.not_not.mp different]
      exact UInt32.toNat_ofNat_of_lt' small
    .ok {
      method
      event
      fromVersion := ⟨UInt32.ofNat source, by
        rw [ne_eq, ← UInt32.toNat_inj, fromNat]
        exact positive⟩
      toVersion := ⟨UInt32.ofNat destination, by
        rw [ne_eq, ← UInt32.toNat_inj, toNat]
        exact Nat.succ_ne_zero source⟩
      rename
      run
      contiguous := by rw [toNat, fromNat] }

/-- The latest declared schema version of each name. -/
abbrev Versions := String → Option SchemaVersion

/-- The later of two schema versions. -/
def SchemaVersion.later (first second : SchemaVersion) : SchemaVersion :=
  if first.get ≤ second.get then second else first

/-- Enter a node into the latest versions. -/
def Versions.enter (versions : Versions) (node : Node) : Versions :=
  fun name =>
    if name = node.1 then
      match versions name with
      | none => some node.2
      | some latest => some (SchemaVersion.later latest node.2)
    else
      versions name

/-- A refused list of declarations: the method that is blamed, and why. -/
structure Rejection where
  method : String
  diagnostic : Diagnostic
  deriving DecidableEq

/-- Enter one edge into the sources and the latest versions. -/
def collect (collected : List Node × Versions) (edge : Transform E) :
    Except Rejection (List Node × Versions) := do
  rejectIf (edge.source ∈ collected.1)
    ⟨edge.method, .duplicate edge.event edge.fromVersion.get.toNat⟩
  return (edge.source :: collected.1, edge.nodes.foldl Versions.enter collected.2)

/-- Some edge leads to the source of this one, unless it is at schema 1. -/
def checkProduced (targets : List Node) (edge : Transform E) : Except Rejection Unit :=
  rejectIf (edge.fromVersion.get ≠ 1 ∧ edge.source ∉ targets)
    ⟨edge.method, .unproduced edge.event edge.fromVersion.get.toNat⟩

/-- A node below the latest version of its name is a source. -/
def checkComplete (sources : List Node) (versions : Versions) (edge : Transform E) (node : Node) :
    Except Rejection Unit :=
  rejectIf ((versions node.1).any (fun latest => node.2.get < latest.get) ∧ node ∉ sources)
    ⟨edge.method, .stopsEarly node.1 node.2.get.toNat⟩

/-- Check the declarations; the result is the latest version of each name. -/
def validateGraph (definitions : List (Transform E)) : Except Rejection Versions := do
  let targets := definitions.map Transform.target
  let (sources, versions) ← definitions.foldlM collect ([], fun _ => none)
  definitions.forM (checkProduced targets)
  definitions.forM fun edge => edge.nodes.forM (checkComplete sources versions edge)
  return versions

/-- An event as it flows through the transforms. -/
structure EventMorsel where
  eventType : String
  schemaVersion : SchemaVersion
  payload : Bytes
  deriving DecidableEq

/-- The node of an event. -/
def EventMorsel.node (morsel : EventMorsel) : Node :=
  (morsel.eventType, morsel.schemaVersion)

/-- Failures of the generated function. -/
inductive TransformError (E : Type)
  | transform (error : E)
  | unsupportedSchema (eventType : String) (schema : SchemaVersion)
  deriving DecidableEq

/-- What the macro generates for checked declarations. -/
structure Expansion (E : Type) where
  definitions : List (Transform E)
  versions : Versions

/-- Expand declarations. -/
def expand (definitions : List (Transform E)) : Except Rejection (Expansion E) := do
  let versions ← validateGraph definitions
  return ⟨definitions, versions⟩

namespace Expansion

/-- One repetition of `upcast`: the first match arm of an edge that starts at the
event, then the guard of its name, then the arm for all other names. -/
def upcastStep (expansion : Expansion E) (morsel : EventMorsel) :
    Flow EventMorsel (Except (TransformError E) EventMorsel) :=
  match expansion.definitions.find? fun edge => edge.source = morsel.node with
  | some edge =>
    match edge.run morsel.payload with
    | .error error => .stop (.error (.transform error))
    | .ok payload => .again ⟨edge.destination, edge.toVersion, payload⟩
  | none =>
    match expansion.versions morsel.eventType with
    | some latest =>
      if morsel.schemaVersion = latest then
        .stop (.ok morsel)
      else
        .stop (.error (.unsupportedSchema morsel.eventType morsel.schemaVersion))
    | none => .stop (.ok morsel)

/-- Apply the chain of transforms of an event, in at most so many repetitions. -/
def upcast (expansion : Expansion E) (bound : Nat) (morsel : EventMorsel) :
    Option (Except (TransformError E) EventMorsel) :=
  loop expansion.upcastStep bound morsel

/-- The latest declared schema version of a name. -/
def currentVersion (expansion : Expansion E) (eventType : String) : Option SchemaVersion :=
  expansion.versions eventType

end Expansion

variable {definitions : List (Transform E)}

/-- All nodes that declarations mention. -/
def declared (definitions : List (Transform E)) : List Node :=
  definitions.flatMap Transform.nodes

/-- One declared step. -/
def Leads (definitions : List (Transform E)) (node next : Node) : Prop :=
  ∃ edge ∈ definitions, edge.source = node ∧ edge.target = next

/-- A node is reached from schema 1. -/
def Rooted (definitions : List (Transform E)) (node : Node) : Prop :=
  ∃ root : Node, root.2.get = 1 ∧ Relation.ReflTransGen (Leads definitions) root node

/-- Following declared steps as long as there are any. -/
inductive Chain (definitions : List (Transform E)) : Node → List (Transform E) → Node → Prop
  | stop (last : ∀ edge ∈ definitions, edge.source ≠ node) : Chain definitions node [] node
  | step {edge : Transform E} {rest : List (Transform E)} {last : Node}
      (isEdge : edge ∈ definitions) (chain : Chain definitions edge.target rest last) :
      Chain definitions edge.source (edge :: rest) last

/-- A node at the highest declared schema of its name. -/
structure Highest (definitions : List (Transform E)) (node : Node) : Prop where
  isDeclared : node ∈ declared definitions
  highest : ∀ other ∈ declared definitions, other.1 = node.1 → other.2.get ≤ node.2.get

/-- Declarations that can be followed from schema 1 to the latest schema. -/
structure WellFormed (definitions : List (Transform E)) : Prop where
  distinct : (definitions.map Transform.source).Nodup
  rooted : ∀ node ∈ declared definitions, Rooted definitions node
  complete : ∀ {node last : Node} {edges : List (Transform E)}, node ∈ declared definitions →
    Chain definitions node edges last → Highest definitions last

/-- The checks of single edges and nodes. -/
structure Checked (definitions : List (Transform E)) : Prop where
  distinct : (definitions.map Transform.source).Nodup
  produced : ∀ edge ∈ definitions,
    edge.fromVersion.get = 1 ∨ edge.source ∈ definitions.map Transform.target
  finished : ∀ node ∈ declared definitions,
    node ∈ definitions.map Transform.source ∨ Highest definitions node

@[simp] theorem mem_declared :
    node ∈ declared definitions ↔
      ∃ edge ∈ definitions, node = edge.source ∨ node = edge.target := by
  simp [declared, Transform.nodes]

theorem source_mem_declared (isEdge : edge ∈ definitions) : edge.source ∈ declared definitions :=
  mem_declared.mpr ⟨edge, isEdge, .inl rfl⟩

theorem target_mem_declared (isEdge : edge ∈ definitions) : edge.target ∈ declared definitions :=
  mem_declared.mpr ⟨edge, isEdge, .inr rfl⟩

theorem not_mem_sources :
    node ∉ definitions.map Transform.source ↔ ∀ edge ∈ definitions, edge.source ≠ node := by
  simp

namespace Checked

theorem rooted_source (checked : Checked definitions) (isEdge : edge ∈ definitions) :
    Rooted definitions edge.source := by
  induction isSchema : edge.fromVersion.get.toNat using Nat.strongRecOn generalizing edge with
  | _ schema earlier =>
    rcases checked.produced edge isEdge with first | isTarget
    · exact ⟨edge.source, first, .refl⟩
    · obtain ⟨previous, isPrevious, meets⟩ := List.mem_map.mp isTarget
      have sameSchema : previous.toVersion = edge.fromVersion := congrArg Prod.snd meets
      have below := previous.contiguous
      rw [sameSchema, isSchema] at below
      obtain ⟨root, atOne, reached⟩ := earlier _ (by omega) isPrevious rfl
      exact ⟨root, atOne, reached.tail ⟨previous, isPrevious, rfl, meets⟩⟩

theorem rooted (checked : Checked definitions) (isDeclared : node ∈ declared definitions) :
    Rooted definitions node := by
  obtain ⟨edge, isEdge, rfl | rfl⟩ := mem_declared.mp isDeclared
  · exact checked.rooted_source isEdge
  · obtain ⟨root, atOne, reached⟩ := checked.rooted_source isEdge
    exact ⟨root, atOne, reached.tail ⟨edge, isEdge, rfl, rfl⟩⟩

theorem complete (checked : Checked definitions)
    (isDeclared : node ∈ declared definitions) (chain : Chain definitions node edges last) :
    Highest definitions last := by
  induction chain with
  | stop noEdge =>
    exact (checked.finished _ isDeclared).resolve_left (not_mem_sources.mpr noEdge)
  | step isEdge _ ends => exact ends (target_mem_declared isEdge)

end Checked

theorem checked_iff_wellFormed : Checked definitions ↔ WellFormed definitions := by
  constructor
  · intro checked
    exact ⟨checked.distinct, fun _ => checked.rooted, checked.complete⟩
  · intro wellFormed
    refine ⟨wellFormed.distinct, ?_, ?_⟩
    · intro edge isEdge
      obtain ⟨root, atOne, reached⟩ := wellFormed.rooted _ (source_mem_declared isEdge)
      cases reached with
      | refl => exact .inl atOne
      | tail _ last =>
        obtain ⟨previous, isPrevious, _, meets⟩ := last
        exact .inr (List.mem_map.mpr ⟨previous, isPrevious, meets⟩)
    · intro node isDeclared
      by_cases isSource : node ∈ definitions.map Transform.source
      · exact .inl isSource
      · exact .inr (wellFormed.complete isDeclared (.stop (not_mem_sources.mp isSource)))

/-- A map from each name among nodes to the highest schema it has there. -/
structure Latest (nodes : List Node) (versions : Versions) : Prop where
  present : ∀ {name : String} {schema : SchemaVersion}, versions name = some schema →
    (name, schema) ∈ nodes
  bound : ∀ node ∈ nodes, ∃ latest, versions node.1 = some latest ∧ node.2.get ≤ latest.get

namespace Latest

theorem nil : Latest [] (fun _ => none) := ⟨by simp, by simp⟩

theorem le_later_left (first second : SchemaVersion) :
    first.get ≤ (SchemaVersion.later first second).get := by
  unfold SchemaVersion.later
  split
  next below => exact below
  next => exact UInt32.le_refl _

theorem le_later_right (first second : SchemaVersion) :
    second.get ≤ (SchemaVersion.later first second).get := by
  unfold SchemaVersion.later
  split
  next => exact UInt32.le_refl _
  next above => exact UInt32.le_of_lt (UInt32.not_le.mp above)

theorem later_cases (first second : SchemaVersion) :
    SchemaVersion.later first second = first ∨ SchemaVersion.later first second = second := by
  unfold SchemaVersion.later
  split
  · exact .inr rfl
  · exact .inl rfl

theorem enter (latest : Latest nodes versions) (node : Node) :
    Latest (nodes ++ [node]) (versions.enter node) := by
  constructor
  · intro name schema isSchema
    rw [List.mem_append, List.mem_singleton]
    unfold Versions.enter at isSchema
    split at isSchema
    next same =>
      subst same
      cases isLatest : versions node.1 with
      | none =>
        rw [isLatest, Option.some_inj] at isSchema
        exact .inr (Prod.ext rfl isSchema.symm)
      | some current =>
        rw [isLatest, Option.some_inj] at isSchema
        rcases later_cases current node.2 with isFirst | isSecond
        · rw [← isSchema, isFirst]
          exact .inl (latest.present isLatest)
        · rw [← isSchema, isSecond]
          exact .inr rfl
    next => exact .inl (latest.present isSchema)
  · intro entered present
    unfold Versions.enter
    rw [List.mem_append, List.mem_singleton] at present
    by_cases same : entered.1 = node.1
    · rw [if_pos same, same]
      cases isLatest : versions node.1 with
      | none =>
        rcases present with old | rfl
        · obtain ⟨current, isCurrent, _⟩ := latest.bound entered old
          rw [same, isLatest] at isCurrent
          cases isCurrent
        · exact ⟨entered.2, rfl, UInt32.le_refl _⟩
      | some current =>
        refine ⟨_, rfl, ?_⟩
        rcases present with old | rfl
        · obtain ⟨known, isKnown, below⟩ := latest.bound entered old
          rw [same, isLatest, Option.some_inj] at isKnown
          subst isKnown
          exact UInt32.le_trans below (le_later_left _ _)
        · exact le_later_right _ _
    · rw [if_neg same]
      rcases present with old | rfl
      · exact latest.bound entered old
      · exact absurd rfl same

theorem foldl (latest : Latest nodes versions) (more : List Node) :
    Latest (nodes ++ more) (more.foldl Versions.enter versions) := by
  induction more generalizing nodes versions with
  | nil => simpa using latest
  | cons node more entered =>
    have next := entered (latest.enter node)
    rwa [List.append_assoc, List.singleton_append] at next

theorem unique (latest : Latest nodes versions)
    (latest' : Latest permuted other) (same : ∀ node, node ∈ nodes ↔ node ∈ permuted) :
    versions = other := by
  have forward {nodes permuted : List Node} {versions other : Versions} {name : String}
      {schema : SchemaVersion} (latest : Latest nodes versions) (latest' : Latest permuted other)
      (same : ∀ node, node ∈ nodes ↔ node ∈ permuted) (isSchema : versions name = some schema) :
      other name = some schema := by
    obtain ⟨found, isFound, below⟩ := latest'.bound _ ((same _).mp (latest.present isSchema))
    obtain ⟨again, isAgain, above⟩ := latest.bound _ ((same _).mpr (latest'.present isFound))
    rw [isSchema, Option.some_inj] at isAgain
    subst isAgain
    have equal : schema.get = found.get := UInt32.le_antisymm below above
    rw [isFound, Option.some_inj]
    cases schema
    cases found
    cases equal
    rfl
  funext name
  ext schema
  exact ⟨forward latest latest' same, forward latest' latest fun node => (same node).symm⟩

theorem highest_iff (latest : Latest (declared definitions) versions) :
    Highest definitions node ↔ versions node.1 = some node.2 := by
  constructor
  · intro highest
    obtain ⟨found, isFound, below⟩ := latest.bound node highest.isDeclared
    have above := highest.highest _ (latest.present isFound) rfl
    have equal : node.2.get = found.get := UInt32.le_antisymm below above
    rw [isFound, Option.some_inj]
    obtain ⟨name, schema⟩ := node
    cases schema
    cases found
    cases equal
    rfl
  · intro isLatest
    refine ⟨latest.present isLatest, ?_⟩
    intro other isDeclared sameName
    obtain ⟨found, isFound, below⟩ := latest.bound other isDeclared
    rw [sameName, isLatest, Option.some_inj] at isFound
    rw [isFound]
    exact below

end Latest

end Mnesis.Transforms
