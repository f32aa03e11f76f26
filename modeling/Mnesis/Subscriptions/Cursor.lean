import Mnesis.Foundation.Growing
import Mnesis.Foundation.Indexed
import Mnesis.Store.Append
import Mnesis.Store.Persisted

/-!
# The wake registry and the live cursor

A registry holds one watch channel for each stream with live registrations, and
one for all streams together.  A wake changes the value of the channel of its
stream, if there is one, and then that of the channel for all streams.

A subscription reads the events that are there and then waits for further ones.  It
reads in scans, each of which it opens behind the last event it delivered.  When a scan
ends, it arms a wait, opens another scan to confirm that there is nothing more, and only
then parks.  The loop is code that suspends whenever it opens a scan, asks one for its
next event, arms a wait or parks.
-/

namespace Mnesis.Subscriptions

open Foundation Store

/-- A channel of `tokio::sync::watch`: its value, its version, which counts the changes
of the value without a bound, and whether all senders are dropped. -/
structure Channel where
  generation : UInt64
  changes : Nat
  closed : Bool
  deriving DecidableEq

namespace Channel

def new : Channel := ⟨0, 0, false⟩

/-- Change the value; the generation wraps around. -/
def bump (channel : Channel) : Channel :=
  { channel with generation := channel.generation + 1, changes := channel.changes + 1 }

/-- The sender is gone. -/
def close (channel : Channel) : Channel :=
  { channel with closed := true }

end Channel

/-- A channel of a registry: that for all streams, or one that was created for a
stream. -/
inductive ChannelRef
  | all
  | entry (index : Nat)
  deriving DecidableEq

/-- A receiver of `tokio::sync::watch`, and the version that it has seen last.  Its
`changed` returns when the channel has another version, and fails when it is closed. -/
structure Receiver where
  channel : ChannelRef
  seen : Nat
  deriving DecidableEq

/-- The channel of a stream and its number of live registrations. -/
structure Entry where
  genTx : Nat
  subscribers : UInt64
  deriving DecidableEq

/-- Failures of a registration. -/
inductive NotifyError
  | subscriberOverflow
  deriving DecidableEq

/-- A registration.  The guard names the stream whose entry is released when the
registration is dropped. -/
structure WakeReg where
  rx : Receiver
  guard : Option StreamKey
  deriving DecidableEq

/-- A registry.  Of the channels for streams, those that were removed are kept, since
receivers may still refer to them. -/
structure StreamNotifiers where
  map : StreamKey → Option Entry
  channels : List Channel
  allGenTx : Channel

namespace StreamNotifiers

def new : StreamNotifiers := ⟨fun _ => none, [], .new⟩

/-- Replace what is entered for a stream. -/
def enter (notifiers : StreamNotifiers) (stream : StreamKey) (entry : Option Entry) :
    StreamNotifiers :=
  { notifiers with map := Function.update notifiers.map stream entry }

/-- The channel that a receiver refers to. -/
def channel (notifiers : StreamNotifiers) : ChannelRef → Option Channel
  | .all => some notifiers.allGenTx
  | .entry index => notifiers.channels[index]?

/-- How often a channel was changed. -/
def changes (notifiers : StreamNotifiers) (reference : ChannelRef) : Nat :=
  ((notifiers.channel reference).map Channel.changes).getD 0

/-- A receiver is signalled. -/
def signalled (notifiers : StreamNotifiers) (receiver : Receiver) : Prop :=
  notifiers.changes receiver.channel ≠ receiver.seen ∨
    (notifiers.channel receiver.channel).any Channel.closed = true

instance (notifiers : StreamNotifiers) (receiver : Receiver) :
    Decidable (notifiers.signalled receiver) :=
  inferInstanceAs (Decidable (_ ∨ _))

/-- A receiver that was marked now. -/
def subscribe (notifiers : StreamNotifiers) (reference : ChannelRef) : Receiver :=
  ⟨reference, notifiers.changes reference⟩

/-- Find the entry of a stream, or insert one with a new channel. -/
def orInsert (notifiers : StreamNotifiers) (stream : StreamKey) : Entry × StreamNotifiers :=
  match notifiers.map stream with
  | some entry => (entry, notifiers)
  | none =>
    let entry : Entry := ⟨notifiers.channels.length, 0⟩
    let grown : StreamNotifiers :=
      { notifiers with channels := notifiers.channels ++ [Channel.new] }
    (entry, grown.enter stream (some entry))

/-- Register interest in a stream. -/
def registerEntry (notifiers : StreamNotifiers) (stream : StreamKey) :
    Except NotifyError WakeReg × StreamNotifiers :=
  let found := notifiers.orInsert stream
  match checkedAdd found.1.subscribers 1 with
  | none => (.error .subscriberOverflow, found.2)
  | some subscribers =>
    (.ok ⟨found.2.subscribe (.entry found.1.genTx), some stream⟩,
      found.2.enter stream (some { found.1 with subscribers }))

/-- Register interest in a stream, or in all of them. -/
def register (notifiers : StreamNotifiers) :
    Option StreamKey → Except NotifyError WakeReg × StreamNotifiers
  | none => (.ok ⟨notifiers.subscribe .all, none⟩, notifiers)
  | some stream => notifiers.registerEntry stream

/-- The first half of a wake, under the lock of the map. -/
def wakeStream (notifiers : StreamNotifiers) (stream : StreamKey) : StreamNotifiers :=
  match notifiers.map stream with
  | none => notifiers
  | some entry =>
    { notifiers with channels := notifiers.channels.modify entry.genTx Channel.bump }

/-- The second half of a wake. -/
def wakeAll (notifiers : StreamNotifiers) : StreamNotifiers :=
  { notifiers with allGenTx := notifiers.allGenTx.bump }

/-- Remove an entry, and with it the sender of its channel. -/
def remove (notifiers : StreamNotifiers) (stream : StreamKey) (entry : Entry) :
    StreamNotifiers :=
  let closed : StreamNotifiers :=
    { notifiers with channels := notifiers.channels.modify entry.genTx Channel.close }
  closed.enter stream none

/-- A guard is dropped. -/
def release (notifiers : StreamNotifiers) (stream : StreamKey) : StreamNotifiers :=
  match notifiers.map stream with
  | none => notifiers
  | some entry =>
    match checkedSub entry.subscribers 1 with
    | none => notifiers.remove stream entry
    | some remaining =>
      if remaining = 0 then
        notifiers.remove stream entry
      else
        notifiers.enter stream (some { entry with subscribers := remaining })

end StreamNotifiers

namespace WakeReg

/-- Arm a wait: a receiver of the same channel, marked now. -/
def arm (registration : WakeReg) (notifiers : StreamNotifiers) : Receiver :=
  notifiers.subscribe registration.rx.channel

/-- A registration is dropped. -/
def drop (registration : WakeReg) (notifiers : StreamNotifiers) : StreamNotifiers :=
  registration.guard.elim notifiers notifiers.release

end WakeReg

section

open Foundation Kernel Store

/-- A stored event, with its position among the events of all streams. -/
structure Row (P : Type) where
  position : P
  stream : StreamKey
  envelope : PersistedEnvelope
  deriving DecidableEq

/-- What a subscription follows. -/
inductive Target
  | stream (id : StreamKey)
  | all
  deriving DecidableEq

namespace Target

variable {P : Type}

/-- What a target is registered under. -/
def key : Target → Option StreamKey
  | .stream id => some id
  | .all => none

/-- The positions that a subscription resumes from. -/
def Position (P : Type) : Target → Type
  | .stream _ => Version
  | .all => P

instance [LinearOrder P] : (target : Target) → LinearOrder (target.Position P)
  | .stream _ => inferInstanceAs (LinearOrder Version)
  | .all => inferInstanceAs (LinearOrder P)

/-- Which rows a target has. -/
def covers : Target → Row P → Bool
  | .stream id, row => row.stream = id
  | .all, _ => true

/-- The rows of a target. -/
def rows (target : Target) (rows : List (Row P)) : List (Row P) :=
  rows.filter target.covers

/-- The position of a delivered event. -/
def positionOf : (target : Target) → Row P → target.Position P
  | .stream _, row => row.envelope.version
  | .all, row => row.position

end Target

/-- Which scan is opened: of a stream from a version on, of all streams behind a
position, or one of nothing. -/
inductive Request (P : Type)
  | readStream (id : StreamKey) (start : Version)
  | readAll (start : Option P)
  | empty

section Scans

variable {P : Type} [LinearOrder P]

/-- The rows that a scan asks for. -/
def Request.rows : Request P → List (Row P) → List (Row P)
  | .readStream id start, rows =>
    rows.filter fun row => row.stream = id ∧ start.toNat ≤ row.envelope.version.toNat
  | .readAll start, rows => behind Row.position start rows
  | .empty, _ => []

/-- The scan of the events strictly behind a position.  The read of a stream is
inclusive, so it starts at the next version; behind the last version there is
nothing. -/
def Target.readAfter : (target : Target) → Option (target.Position P) → Request P
  | .stream id, last =>
    match following last with
    | some start => .readStream id start
    | none => .empty
  | .all, last => .readAll last

end Scans

/-- An open scan: the rows that were there when it was opened, and how many of those
it asks for it has delivered. -/
structure Scan (P : Type) where
  request : Request P
  opened : List (Row P)
  taken : Nat

/-- One item of a subscription. -/
inductive Step (T : Type)
  | event (item : T)
  | caughtUp

/-- What a poll returns. -/
abbrev Item (P E : Type) := Except E (Step (Row P))

/-- The state of the loop. -/
structure LiveState (P : Type) (target : Target) where
  readFrom : Option (target.Position P)
  scan : Option (Scan P)
  drainedInChunk : Nat
  caughtUp : Bool

/-- Where the loop suspends. -/
inductive Suspension (P : Type)
  | readAfter (request : Request P)
  | next (scan : Scan P)
  | arm
  | wait (receiver : Receiver)

/-- What the loop is resumed with. -/
def Suspension.Answer (E : Type) {P : Type} : Suspension P → Type
  | .readAfter _ => Except E (Scan P)
  | .next _ => Option (Except E (Row P)) × Scan P
  | .arm => Receiver
  | .wait _ => Unit

/-- Code of the loop. -/
abbrev Code (P E : Type) (target : Target) :=
  Program (LiveState P target) (Suspension P) (Suspension.Answer E)

/-- After so many rows a scan is dropped and opened again. -/
def catchupChunk : Nat := 1024

section Loop

variable {P E : Type} [LinearOrder P]

/-- A subscription that starts behind a position. -/
def LiveState.new (target : Target) (start : Option (target.Position P)) : LiveState P target :=
  ⟨start, none, 0, false⟩

/-- (1) Ensure an open scan. -/
def ensureScan (target : Target) : Code P E target (Except E Unit) := do
  let s ← Program.get
  match s.scan with
  | some _ => return .ok ()
  | none =>
    .await (.readAfter (target.readAfter s.readFrom)) fun
      | .ok scan => do
        Program.set { s with scan := some scan, drainedInChunk := 0 }
        return .ok ()
      | .error error => return .error error

/-- Nothing is left: say so the first time, and park afterwards. -/
def park {target : Target} (s : LiveState P target) (wait : Receiver) :
    Code P E target (Flow Unit (Item P E)) :=
  if s.caughtUp then
    .await (.wait wait) fun _ => return .again ()
  else do
    Program.set { s with caughtUp := true }
    return .stop (.ok .caughtUp)

/-- (3) The scan has ended: arm a wait, and park only if another scan is empty. -/
def confirm (target : Target) : Code P E target (Flow Unit (Item P E)) := do
  let s ← Program.get
  let s := { s with scan := none }
  Program.set s
  .await .arm fun wait =>
    .await (.readAfter (target.readAfter s.readFrom)) fun
      | .error error => return .stop (.error error)
      | .ok probe =>
        .await (.next probe) fun
          | (some (.ok row), probe) => do
            Program.set { s with
              readFrom := some (target.positionOf row)
              scan := some probe
              drainedInChunk := 1 }
            return .stop (.ok (.event row))
          | (some (.error error), _) => return .stop (.error error)
          | (none, _) => park s wait

/-- (2) Take one item from the scan. -/
def drain (target : Target) : Code P E target (Flow Unit (Item P E)) := do
  let s ← Program.get
  match s.scan with
  | none => return .again ()
  | some scan =>
    .await (.next scan) fun
      | (some (.ok row), scan) => do
        let drained := s.drainedInChunk + 1
        Program.set { s with
          readFrom := some (target.positionOf row)
          drainedInChunk := drained
          scan := if catchupChunk ≤ drained then none else some scan }
        return .stop (.ok (.event row))
      | (some (.error error), _) => do
        Program.set { s with scan := none }
        return .stop (.error error)
      | (none, _) => confirm target

/-- One repetition of the loop. -/
def liveStepped (target : Target) : Code P E target (Flow Unit (Item P E)) := do
  match ← ensureScan target with
  | .error error => return .stop (.error error)
  | .ok () => drain target

end Loop

end

end Mnesis.Subscriptions
