import Mnesis.Foundation.Indexed
import Mnesis.Store.Envelope

/-!
# Checkpoints

A checkpoint record is the state of a projection with the position of the last event
it represents, the schema version of the state, and a revision that counts the
writes of the record.  A write names the revision it expects to replace, and the
in-memory store holds its lock from the comparison to the replacement.

What the stores are for is a register per id.
-/

namespace Mnesis.Checkpoints

open Foundation Kernel Store

/-- The number of a write: not zero, and of 64 bits. -/
abbrev Revision := Version

/-- What a store finds under an id, for a schema version. -/
inductive CheckpointHydrated (S P : Type)
  | absent
  | stale (revision : Revision) (storedSchema : SchemaVersion)
  | found (revision : Revision) (position : P) (state : S)
  deriving DecidableEq

/-- Whether a write advances the same schema version or replaces another one. -/
inductive CheckpointMode
  | advance
  | rebuild
  deriving DecidableEq

/-- A proposed record, with the revision it may replace. -/
structure CheckpointWrite (S P : Type) where
  expected : Option Revision
  schemaVersion : SchemaVersion
  position : P
  state : S
  mode : CheckpointMode
  deriving DecidableEq

/-- Why a write is refused. -/
inductive CheckpointRejection
  | conflict (expected actual : Option Revision)
  | schemaMismatch (stored requested : SchemaVersion)
  | invalidRebuild
  | nonIncreasingPosition
  | revisionOverflow
  deriving DecidableEq

/-- A failure of the store, whose outcome may be uncertain, or a refused write. -/
inductive CheckpointError (E : Type)
  | store (error : E)
  | rejected (rejection : CheckpointRejection)
  deriving DecidableEq

/-- A stored record. -/
structure Record (S P : Type) where
  revision : Revision
  schemaVersion : SchemaVersion
  position : P
  state : S
  deriving DecidableEq

variable {S P E : Type}

/-- What a write is checked against. -/
def Record.metadata (record : Record S P) : Revision × SchemaVersion × P :=
  (record.revision, record.schemaVersion, record.position)

namespace CheckpointWrite

section Checks

variable [LinearOrder P]

/-- Whether the mode of a write fits what it replaces. -/
def checkMode (write : CheckpointWrite S P) :
    Option (Revision × SchemaVersion × P) → Except CheckpointRejection Unit
  | some (_, schema, position) =>
    match write.mode with
    | .advance => do
      rejectIf (schema ≠ write.schemaVersion) (.schemaMismatch schema write.schemaVersion)
      rejectIf (write.position ≤ position) .nonIncreasingPosition
    | .rebuild => rejectIf (schema = write.schemaVersion) .invalidRebuild
  | none => rejectIf (write.mode = .rebuild) .invalidRebuild

/-- Check a write against what is stored, and number it. -/
def nextRevision (write : CheckpointWrite S P)
    (current : Option (Revision × SchemaVersion × P)) : Except CheckpointRejection Revision := do
  let actual := current.map Prod.fst
  rejectIf (write.expected ≠ actual) (.conflict write.expected actual)
  write.checkMode current
  let next := actual.elim (some 1) fun revision => checkedAdd revision.asU64 1
  okOr (next.bind Version.new) .revisionOverflow

end Checks

/-- The record of a write. -/
def record (write : CheckpointWrite S P) (revision : Revision) : Record S P :=
  ⟨revision, write.schemaVersion, write.position, write.state⟩

end CheckpointWrite

/-- What a read for a schema version returns of a record. -/
def hydrated (schemaVersion : SchemaVersion) : Option (Record S P) → CheckpointHydrated S P
  | none => .absent
  | some record =>
    if record.schemaVersion ≠ schemaVersion then
      .stale record.revision record.schemaVersion
    else
      .found record.revision record.position record.state

theorem exists_of_hydrated_found
    (isFound : hydrated schema current = .found revision position state) :
    ∃ record, current = some record ∧ record.schemaVersion = schema ∧ record.position = position ∧
      record.state = state := by
  cases current with
  | none => cases isFound
  | some record =>
    rw [hydrated] at isFound
    split at isFound
    next => cases isFound
    next same =>
      cases isFound
      exact ⟨record, rfl, Decidable.not_not.mp same, rfl, rfl⟩

namespace CheckpointWrite

variable [LinearOrder P]

/-- The schema version and the position of a write go with what it replaces. -/
def Suits (write : CheckpointWrite S P) : Option (Record S P) → Prop
  | none => write.mode = .advance
  | some record =>
    write.mode = .advance ∧ record.schemaVersion = write.schemaVersion ∧
        record.position < write.position ∨
      write.mode = .rebuild ∧ record.schemaVersion ≠ write.schemaVersion

/-- The write replaces what it expects, and suits it. -/
def Permitted (write : CheckpointWrite S P) (current : Option (Record S P)) : Prop :=
  write.expected = current.map Record.revision ∧ write.Suits current

instance (write : CheckpointWrite S P) :
    (current : Option (Record S P)) → Decidable (write.Suits current)
  | none => inferInstanceAs (Decidable (_ = _))
  | some _ => inferInstanceAs (Decidable (_ ∨ _))

instance (write : CheckpointWrite S P) (current : Option (Record S P)) :
    Decidable (write.Permitted current) :=
  inferInstanceAs (Decidable (_ ∧ _))

/-- What a write stores: the next record, if it is permitted and the revisions are not
exhausted. -/
def replace (write : CheckpointWrite S P) (current : Option (Record S P)) :
    Option (Record S P) :=
  if write.Permitted current then
    (following (current.map Record.revision)).map write.record
  else
    none

end CheckpointWrite

/-- A call of a store. -/
inductive Call (S P : Type)
  | commitCheckpoint (id : Bytes) (write : CheckpointWrite S P)
  | hydrateCheckpoint (id : Bytes) (schemaVersion : SchemaVersion)

/-- The answer of the registers: the revision of an accepted write, or what is read. -/
inductive Answer (S P : Type)
  | committed (revision : Option Revision)
  | hydrated (found : CheckpointHydrated S P)

/-- What a call does to the registers. -/
def serve [LinearOrder P] (registers : Registers Bytes (Record S P)) :
    Call S P → Answer S P × Registers Bytes (Record S P)
  | .commitCheckpoint id write =>
    match write.replace (registers id) with
    | some record => (.committed (some record.revision), registers.put id record)
    | none => (.committed none, registers)
  | .hydrateCheckpoint id schemaVersion =>
    (.hydrated (hydrated schemaVersion (registers id)), registers)

/-- What a store replies to a call. -/
inductive Reply (E S P : Type)
  | committed (result : Except (CheckpointError E) Revision)
  | hydrated (result : Except E (CheckpointHydrated S P))

/-- The answer in a reply; a failure of the store is none. -/
def Reply.answer : Reply E S P → Option (Answer S P)
  | .committed (.ok revision) => some (.committed (some revision))
  | .committed (.error (.rejected _)) => some (.committed none)
  | .committed (.error (.store _)) => none
  | .hydrated (.ok found) => some (.hydrated found)
  | .hydrated (.error _) => none

section Decides

variable [LinearOrder P] {write : CheckpointWrite S P}

theorem checkMode_eq_ok :
    write.checkMode (current.map Record.metadata) = .ok result ↔ write.Suits current := by
  cases current with
  | none =>
    cases isMode : write.mode <;> simp [CheckpointWrite.checkMode, CheckpointWrite.Suits, isMode]
  | some record =>
    cases isMode : write.mode <;>
      simp [CheckpointWrite.checkMode, CheckpointWrite.Suits, Record.metadata, isMode, bind_eq_ok]

theorem number_eq_following (actual : Option Revision) :
    (actual.elim (some 1) fun revision => checkedAdd revision.asU64 1).bind Version.new =
      following actual := by
  cases actual <;> rfl

theorem nextRevision_eq_ok :
    write.nextRevision (current.map Record.metadata) = .ok revision ↔
      write.replace current = some (write.record revision) := by
  have actual : (current.map Record.metadata).map Prod.fst = current.map Record.revision := by
    cases current <;> rfl
  unfold CheckpointWrite.nextRevision CheckpointWrite.replace
  simp only [actual, number_eq_following, bind_eq_ok, rejectIf_eq_ok, checkMode_eq_ok, okOr_eq_ok,
    exists_and_left, ne_eq, Decidable.not_not]
  by_cases permitted : write.Permitted current
  · simp [permitted, permitted.1, permitted.2, CheckpointWrite.record]
  · simp only [permitted, if_false]
    refine iff_of_false ?_ (by simp)
    rintro ⟨expected, suits, _⟩
    exact permitted ⟨expected, suits⟩

/-- A permitted write stores a whole record with the next revision. -/
theorem replace_eq_some :
    write.replace current = some record ↔
      write.Permitted current ∧ write.record record.revision = record ∧
        record.revision.toNat = depth (current.map Record.revision) + 1 := by
  simp only [CheckpointWrite.replace, Option.ite_none_right_eq_some, Option.map_eq_some_iff,
    following_eq_some]
  refine and_congr_right fun _ => ⟨?_, ?_⟩
  · rintro ⟨revision, isNext, rfl⟩
    exact ⟨rfl, isNext⟩
  · rintro ⟨whole, isNext⟩
    exact ⟨record.revision, isNext, whole⟩

theorem replace_eq_none_of_error
    (refused : write.nextRevision (current.map Record.metadata) = .error rejection) :
    write.replace current = none := by
  cases isReplaced : write.replace current with
  | none => rfl
  | some record =>
    have whole := (replace_eq_some.mp isReplaced).2.1
    rw [← whole] at isReplaced
    simp [nextRevision_eq_ok.mpr isReplaced] at refused

end Decides

namespace InMemory

variable {S P : Type}

/-- The records by the bytes of their ids. -/
abbrev InMemoryCheckpointStore (S P : Type) := Registers Bytes (Record S P)

/-- Read one checkpoint. -/
def hydrateCheckpoint (id : Bytes) (schemaVersion : SchemaVersion) :
    Locked (InMemoryCheckpointStore S P) Empty (CheckpointHydrated S P) := do
  let records ← get
  match records id with
  | none => return .absent
  | some record =>
    if record.schemaVersion ≠ schemaVersion then
      return .stale record.revision record.schemaVersion
    else
      return .found record.revision record.position record.state

variable [LinearOrder P]

/-- Compare and replace one checkpoint. -/
def commitCheckpoint (id : Bytes) (write : CheckpointWrite S P) :
    Locked (InMemoryCheckpointStore S P) (CheckpointError Empty) Revision := do
  let records ← get
  let current := (records id).map fun record =>
    (record.revision, record.schemaVersion, record.position)
  let revision ← Locked.ofResult ((write.nextRevision current).mapError .rejected)
  set (records.put id ⟨revision, write.schemaVersion, write.position, write.state⟩)
  return revision

/-- What a call does to the store. -/
def serve (records : InMemoryCheckpointStore S P) :
    Call S P → Reply Empty S P × InMemoryCheckpointStore S P
  | .commitCheckpoint id write =>
    let served := (commitCheckpoint id write).exec records
    (.committed served.1, served.2)
  | .hydrateCheckpoint id schemaVersion =>
    let served := (hydrateCheckpoint id schemaVersion).exec records
    (.hydrated served.1, served.2)

/-- The in-memory store is a register per id. -/
theorem serve_agrees (records : InMemoryCheckpointStore S P) (call : Call S P) :
    (serve records call).1.answer = some (Checkpoints.serve records call).1 ∧
      (serve records call).2 = (Checkpoints.serve records call).2 := by
  cases call with
  | hydrateCheckpoint id schemaVersion =>
    cases isRecord : records id with
    | none => simp [serve, Checkpoints.serve, hydrateCheckpoint, hydrated, isRecord, Reply.answer]
    | some record =>
      by_cases same : record.schemaVersion = schemaVersion <;>
        simp [serve, Checkpoints.serve, hydrateCheckpoint, hydrated, isRecord, Reply.answer, same]
  | commitCheckpoint id write =>
    cases isNext : write.nextRevision ((records id).map Record.metadata) with
    | error rejection =>
      have refused := replace_eq_none_of_error isNext
      unfold Record.metadata at isNext
      simp [serve, Checkpoints.serve, commitCheckpoint, isNext, refused, Reply.answer]
    | ok revision =>
      have accepted := nextRevision_eq_ok.mp isNext
      unfold Record.metadata at isNext
      have stored : (commitCheckpoint id write).exec records =
          (.ok revision, records.put id (write.record revision)) := by
        simp only [commitCheckpoint, exec_get_bind, isNext, mapError_ok,
          exec_ofResult_ok_bind, exec_set_bind, exec_pure]
        rfl
      simp [serve, Checkpoints.serve, stored, accepted, Reply.answer, CheckpointWrite.record]

end InMemory

end Mnesis.Checkpoints
