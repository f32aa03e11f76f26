import Mathlib.Data.List.Nodup
import Mathlib.Logic.Function.Basic
import Mnesis.Foundation.Machine
import Mnesis.Store.Envelope

/-!
# The database

The two tables of the store, and the sessions with their transactions.  Only
committed rows are in the tables.  A transaction takes its id before its first
row, larger than every id taken before.  It commits all its rows, and only if the
constraints of the schema hold then; or it aborts and leaves nothing.
-/

namespace Mnesis.Postgres

open Foundation Kernel Store

/-- A row of the table of keys. -/
structure KeyRow where
  number : Nat
  value : Bytes
  deriving DecidableEq

/-- A row of the table of events. -/
structure EventRow where
  globalSeq : Nat
  version : Nat
  txid : Nat
  eventType : Bytes
  schemaVersion : Nat
  payload : Bytes
  metadata : Option Bytes
  streamId : Nat
  deriving DecidableEq

namespace EventRow

/-- The checks on the columns. -/
structure Checked (row : EventRow) : Prop where
  globalSeq_pos : 0 < row.globalSeq
  globalSeq_lt : row.globalSeq < 2 ^ 63
  version_pos : 0 < row.version
  version_lt : row.version < 2 ^ 64
  schemaVersion_pos : 0 < row.schemaVersion
  schemaVersion_lt : row.schemaVersion < 2 ^ 32
  txid_lt : row.txid < 2 ^ 64

/-- The order of positions: by transaction, then by sequence number. -/
def Before (row other : EventRow) : Prop :=
  row.txid < other.txid ∨ row.txid = other.txid ∧ row.globalSeq < other.globalSeq

instance (row other : EventRow) : Decidable (row.Before other) :=
  inferInstanceAs (Decidable (_ ∨ _))

/-- What must be unique about a row: its stream with its version. -/
def place (row : EventRow) : Nat × Nat := (row.streamId, row.version)

end EventRow

/-- A transaction in progress: its id, once it has one, and the rows it wrote. -/
structure Transaction where
  txid : Option Nat
  keys : List KeyRow
  events : List EventRow
  deriving DecidableEq

namespace Transaction

/-- A transaction that wrote nothing. -/
def new : Transaction := ⟨none, [], []⟩

/-- The transaction with its id. -/
def identify (tx : Transaction) (txid : Nat) : Transaction := { tx with txid := some txid }

/-- The transaction with one more key. -/
def addKey (tx : Transaction) (key : KeyRow) : Transaction := { tx with keys := tx.keys ++ [key] }

/-- The transaction with one more event. -/
def addEvent (tx : Transaction) (row : EventRow) : Transaction :=
  { tx with events := tx.events ++ [row] }

end Transaction

/-- The committed rows, the next transaction id, and the transactions in progress
by session. -/
structure Database (Session : Type) where
  nextTxid : Nat
  keys : List KeyRow
  events : List EventRow
  active : Session → Option Transaction

/-- The constraints of the schema. -/
structure Constraints (keys : List KeyRow) (events : List EventRow) : Prop where
  keysPkey : (keys.map KeyRow.number).Nodup
  keysValueKey : (keys.map KeyRow.value).Nodup
  eventsPkey : (events.map EventRow.globalSeq).Nodup
  eventsStreamIdVersionKey : (events.map EventRow.place).Nodup
  eventsStreamIdFkey : ∀ row ∈ events, row.streamId ∈ keys.map KeyRow.number

namespace Database

variable {Session : Type}

/-- No rows and no transactions. -/
def empty : Database Session where
  nextTxid := 1
  keys := []
  events := []
  active _ := none

variable [DecidableEq Session]

/-- Set the transaction of a session. -/
def put (db : Database Session) (session : Session) (tx : Option Transaction) :
    Database Session :=
  { db with active := Function.update db.active session tx }

/-- Give a transaction its id. -/
def identify (db : Database Session) (session : Session) (tx : Transaction) (txid : Nat) :
    Database Session :=
  { db.put session (some (tx.identify txid)) with nextTxid := txid + 1 }

/-- Add the rows of a transaction to the tables. -/
def commit (db : Database Session) (session : Session) (tx : Transaction) : Database Session :=
  { db.put session none with
    keys := db.keys ++ tx.keys
    events := db.events ++ tx.events }

/-- The steps of the database, each of them by one session. -/
inductive Step : Transition (Database Session) Session
  | begin (idle : db.active session = none) : Step db session (db.put session (some .new))
  | identify {db : Database Session} {session : Session} {tx : Transaction} {txid : Nat}
      (active : db.active session = some tx) (first : tx.txid = none) (later : db.nextTxid ≤ txid) :
      Step db session (db.identify session tx txid)
  | addKey (key : KeyRow) (active : db.active session = some tx)
      (identified : tx.txid = some txid) :
      Step db session (db.put session (some (tx.addKey key)))
  | addEvent (active : db.active session = some tx) (identified : tx.txid = some row.txid)
      (checked : row.Checked)
      (increases : ∀ earlier ∈ tx.events, earlier.globalSeq < row.globalSeq) :
      Step db session (db.put session (some (tx.addEvent row)))
  | commit {db : Database Session} {session : Session} {tx : Transaction}
      (active : db.active session = some tx)
      (constraints : Constraints (db.keys ++ tx.keys) (db.events ++ tx.events)) :
      Step db session (db.commit session tx)
  | abort (active : db.active session = some tx) : Step db session (db.put session none)

end Database

/-- What holds of a transaction in progress. -/
structure Transaction.Sound (tx : Transaction) (nextTxid : Nat) : Prop where
  known : ∀ txid, tx.txid = some txid → txid < nextTxid
  own : ∀ row ∈ tx.events, tx.txid = some row.txid
  checked : ∀ row ∈ tx.events, row.Checked
  increasing : tx.events.Pairwise fun row other => row.globalSeq < other.globalSeq

theorem Transaction.Sound.new (nextTxid : Nat) : Transaction.new.Sound nextTxid where
  known := by simp [Transaction.new]
  own := by simp [Transaction.new]
  checked := by simp [Transaction.new]
  increasing := .nil

theorem Transaction.Sound.mono {tx : Transaction}
    (sound : tx.Sound nextTxid) (le : nextTxid ≤ larger) :
    tx.Sound larger where
  known txid isTxid := Nat.lt_of_lt_of_le (sound.known txid isTxid) le
  own := sound.own
  checked := sound.checked
  increasing := sound.increasing

theorem Transaction.Sound.events_eq_nil {tx : Transaction}
    (sound : tx.Sound nextTxid) (unidentified : tx.txid = none) :
    tx.events = [] := by
  apply List.eq_nil_iff_forall_not_mem.mpr
  intro row present
  cases unidentified.symm.trans (sound.own row present)

/-- A transaction may add a row with its id. -/
theorem Transaction.Sound.addEvent {tx : Transaction}
    (sound : tx.Sound nextTxid) (identified : tx.txid = some row.txid) (checked : row.Checked)
    (increases : ∀ earlier ∈ tx.events, earlier.globalSeq < row.globalSeq) :
    (tx.addEvent row).Sound nextTxid where
  known := sound.known
  own := List.forall_mem_append.mpr ⟨sound.own, List.forall_mem_singleton.mpr identified⟩
  checked := List.forall_mem_append.mpr ⟨sound.checked, List.forall_mem_singleton.mpr checked⟩
  increasing := by
    refine List.pairwise_append.mpr ⟨sound.increasing, List.pairwise_singleton _ _, ?_⟩
    intro earlier present other isOther
    cases List.mem_singleton.mp isOther
    exact increases earlier present

namespace Database

variable {Session : Type}

/-- What holds of a database in every state. -/
structure Sound (db : Database Session) : Prop where
  assigned : ∀ row ∈ db.events, row.txid < db.nextTxid
  checked : ∀ row ∈ db.events, row.Checked
  constraints : Constraints db.keys db.events
  active : ∀ session tx, db.active session = some tx → tx.Sound db.nextTxid

theorem sound_empty : (empty : Database Session).Sound where
  assigned := by simp [empty]
  checked := by simp [empty]
  constraints := ⟨.nil, .nil, .nil, .nil, by simp [empty]⟩
  active _ _ absent := by cases absent

theorem Sound.reserve {db : Database Session} (sound : db.Sound) {nextTxid : Nat}
    (later : db.nextTxid ≤ nextTxid) :
    Sound { db with nextTxid := nextTxid } where
  assigned row present := Nat.lt_of_lt_of_le (sound.assigned row present) later
  checked := sound.checked
  constraints := sound.constraints
  active session tx active := (sound.active session tx active).mono later

variable [DecidableEq Session] {db after : Database Session}

@[simp] theorem put_active_self (tx : Option Transaction) :
    (db.put session tx).active session = tx :=
  Function.update_self ..

theorem put_active_of_ne (different : other ≠ session) (tx : Option Transaction) :
    (db.put session tx).active other = db.active other :=
  Function.update_of_ne different ..

theorem put_active_eq_some (isFound : (db.put session tx).active other = some found) :
    other = session ∧ tx = some found ∨ other ≠ session ∧ db.active other = some found := by
  by_cases same : other = session
  · subst same
    rw [put_active_self] at isFound
    exact .inl ⟨rfl, isFound⟩
  · rw [put_active_of_ne same] at isFound
    exact .inr ⟨same, isFound⟩

theorem Sound.put (sound : db.Sound) (soundTx : ∀ new, tx = some new → new.Sound db.nextTxid) :
    (db.put session tx).Sound where
  assigned := sound.assigned
  checked := sound.checked
  constraints := sound.constraints
  active other found isFound := by
    rcases put_active_eq_some isFound with ⟨_, isNew⟩ | ⟨_, isFound⟩
    · exact soundTx found isNew
    · exact sound.active other found isFound

/-- A new id is larger than all ids before. -/
theorem Sound.identify (sound : db.Sound) {tx : Transaction}
    (active : db.active session = some tx) (first : tx.txid = none) (later : db.nextTxid ≤ txid) :
    (db.identify session tx txid).Sound where
  assigned row present := Nat.lt_succ_of_lt (Nat.lt_of_lt_of_le (sound.assigned row present) later)
  checked := sound.checked
  constraints := sound.constraints
  active other found isFound := by
    rcases put_active_eq_some isFound with ⟨_, isNew⟩ | ⟨_, isFound⟩
    · cases isNew
      have noEvents := (sound.active session tx active).events_eq_nil first
      constructor <;> simp [Transaction.identify, Database.identify, noEvents]
    · exact (sound.active other found isFound).mono (Nat.le_succ_of_le later)

/-- A commit that keeps the constraints is sound. -/
theorem Sound.commit (sound : db.Sound) (active : db.active session = some tx)
    (constraints : Constraints (db.keys ++ tx.keys) (db.events ++ tx.events)) :
    (db.commit session tx).Sound where
  assigned := by
    have soundTx := sound.active session tx active
    apply List.forall_mem_append.mpr ⟨sound.assigned, ?_⟩
    intro row present
    exact soundTx.known row.txid (soundTx.own row present)
  checked := List.forall_mem_append.mpr ⟨sound.checked, (sound.active session tx active).checked⟩
  constraints := constraints
  active other found isFound := by
    rcases put_active_eq_some isFound with ⟨_, impossible⟩ | ⟨_, isFound⟩
    · cases impossible
    · exact sound.active other found isFound

/-- Every step keeps the database sound. -/
theorem Sound.step (sound : db.Sound) (step : Step db session after) : after.Sound := by
  cases step with
  | begin idle =>
    apply sound.put
    rintro _ ⟨⟩
    exact .new _
  | identify active first later => exact sound.identify active first later
  | addKey key active identified =>
    apply sound.put
    rintro _ ⟨⟩
    have soundTx := sound.active session _ active
    exact ⟨soundTx.known, soundTx.own, soundTx.checked, soundTx.increasing⟩
  | addEvent active identified checked increases =>
    apply sound.put
    rintro _ ⟨⟩
    exact (sound.active session _ active).addEvent identified checked increases
  | commit active constraints => exact sound.commit active constraints
  | abort active =>
    apply sound.put
    rintro _ ⟨⟩

/-- The tables only grow, and so does the next transaction id. -/
structure Grows (db after : Database Session) : Prop where
  keys : db.keys <+: after.keys
  events : db.events <+: after.events
  nextTxid : db.nextTxid ≤ after.nextTxid

/-- Committed rows stay. -/
theorem Step.grows (step : Step db session after) : db.Grows after := by
  cases step with
  | identify active first later =>
    exact ⟨List.prefix_refl _, List.prefix_refl _, Nat.le_succ_of_le later⟩
  | commit active constraints =>
    exact ⟨List.prefix_append .., List.prefix_append .., Nat.le_refl _⟩
  | begin _ => exact ⟨List.prefix_refl _, List.prefix_refl _, Nat.le_refl _⟩
  | addKey _ _ _ => exact ⟨List.prefix_refl _, List.prefix_refl _, Nat.le_refl _⟩
  | addEvent _ _ _ _ => exact ⟨List.prefix_refl _, List.prefix_refl _, Nat.le_refl _⟩
  | abort _ => exact ⟨List.prefix_refl _, List.prefix_refl _, Nat.le_refl _⟩

end Database

end Mnesis.Postgres
