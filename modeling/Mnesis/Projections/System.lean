import Mnesis.Projections.Projection

/-!
# Instances of one projection

Any number of instances with the same id share one checkpoint store.  They may be of different
schema versions, and each is fed the events behind the position it was loaded at.  A write that
was sent takes effect at most once, at any time or never, and what its caller is told of it may
be anything.
-/

namespace Mnesis.Projections

open Foundation Kernel Store Checkpoints

/-- Events in the order of their positions. -/
structure EventLog (Pos Key Event : Type) [LT Pos] where
  items : List (Item Pos Key Event)
  increasing : items.Pairwise fun first second => first.position < second.position

/-- An instance, the number of events it was fed or loaded with, and the write that its call
waits for. -/
structure Instance (State Pos : Type) where
  projection : Projection State Pos
  fed : Nat
  waiting : Option (CheckpointWrite State Pos)

/-- The store, the instances, the writes that were sent and have not taken effect, and the
records that were stored. -/
structure World (State Pos : Type) where
  records : InMemory.InMemoryCheckpointStore State Pos
  instances : List (Instance State Pos)
  sent : List (CheckpointWrite State Pos)
  stored : List (Record State Pos)

/-- What happens: an instance is loaded, is fed its next event, or is flushed; a write takes
effect; a call is answered, or its caller goes away. -/
inductive WorldEvent (Pos E : Type)
  | load (schemaVersion : SchemaVersion) (mode : CheckpointMode)
  | advance (index : Nat) (shouldPersist : PersistTrigger Pos)
  | flush (index : Nat)
  | land (index : Nat)
  | answer (index : Nat) (result : Except (CheckpointError E) Revision)
  | cancel (index : Nat)

variable {Key Event State Pos Failure E : Type} [LinearOrder Pos]

/-- The events up to a position. -/
def EventLog.upTo (log : EventLog Pos Key Event) (position : Option Pos) :
    List (Item Pos Key Event) :=
  log.items.filter fun item => position.any fun last => item.position ≤ last

/-- Fold events from the beginning. -/
def Projector.fold (projector : Projector Key Event State Failure)
    (items : List (Item Pos Key Event)) : Except Failure State :=
  items.foldlM (fun state item => projector.applyAttributed state item.key item.event)
    projector.initial

namespace World

/-- Nothing is stored or loaded. -/
def new : World State Pos where
  records _ := none
  instances := []
  sent := []
  stored := []

/-- A call of an instance has come to its result, or has sent a write. -/
def called (world : World State Pos) (index : Nat) (loaded : Instance State Pos) (fed : Nat) :
    Projection State Pos × Progress State Pos Failure E → World State Pos
  | (projection, .returned _) =>
    { world with instances := world.instances.set index { loaded with projection, fed } }
  | (projection, .awaiting write) =>
    { world with
      instances := world.instances.set index { projection, fed, waiting := some write }
      sent := world.sent ++ [write] }

variable (id : Bytes) (log : EventLog Pos Key Event)
  (projectors : SchemaVersion → Projector Key Event State Failure)

/-- Load an instance, which is then fed what lies behind its checkpoint. -/
def load (schemaVersion : SchemaVersion) (mode : CheckpointMode) (world : World State Pos) :
    World State Pos :=
  match (InMemory.serve world.records (.hydrateCheckpoint id schemaVersion)).1 with
  | .hydrated (.ok found) =>
    match Projection.assemble (projectors schemaVersion) schemaVersion mode found with
    | .ok projection =>
      { world with
        instances := world.instances ++
          [⟨projection, (log.upTo projection.checkpoint).length, none⟩] }
    | .error _ => world
  | _ => world

/-- A write takes effect as a whole, or is refused. -/
def land (index : Nat) (write : CheckpointWrite State Pos) (world : World State Pos) :
    World State Pos :=
  match InMemory.serve world.records (.commitCheckpoint id write) with
  | (.committed (.ok _), records) =>
    { world with
      records
      sent := world.sent.eraseIdx index
      stored := world.stored ++ (records id).toList }
  | (_, records) => { world with records, sent := world.sent.eraseIdx index }

/-- One event.  An instance is not called while it waits. -/
def step (world : World State Pos) : WorldEvent Pos E → World State Pos
  | .load schemaVersion mode => world.load id log projectors schemaVersion mode
  | .advance index shouldPersist =>
    match world.instances[index]? with
    | some ⟨projection, fed, none⟩ =>
      match log.items[fed]? with
      | some item =>
        world.called index ⟨projection, fed, none⟩ (fed + 1)
          (advance (projectors projection.schemaVersion) shouldPersist item projection :
            _ × Progress State Pos Failure E)
      | none => world
    | _ => world
  | .flush index =>
    match world.instances[index]? with
    | some ⟨projection, fed, none⟩ =>
      world.called index ⟨projection, fed, none⟩ fed
        (flush projection : _ × Progress State Pos Failure E)
    | _ => world
  | .land index =>
    match world.sent[index]? with
    | some write => world.land id index write
    | none => world
  | .answer index result =>
    match world.instances[index]? with
    | some ⟨projection, fed, some write⟩ =>
      let settled : _ × Except (ProjectionError Failure E) Unit := settle write result projection
      { world with instances := world.instances.set index ⟨settled.1, fed, none⟩ }
    | _ => world
  | .cancel index =>
    match world.instances[index]? with
    | some loaded =>
      { world with instances := world.instances.set index { loaded with waiting := none } }
    | none => world

/-- Some events. -/
def run (world : World State Pos) (events : List (WorldEvent Pos E)) : World State Pos :=
  events.foldl (step id log projectors) world

end World

/-- The position of the last of some first events. -/
inductive EventLog.At (log : EventLog Pos Key Event) : Nat → Option Pos → Prop
  | start : At log 0 none
  | item {index : Nat} {item : Item Pos Key Event} (isItem : log.items[index]? = some item) :
      At log (index + 1) (some item.position)

variable {log : EventLog Pos Key Event}

theorem EventLog.At.upTo (isAt : log.At fed position) : log.upTo position = log.items.take fed := by
  cases isAt with
  | start => simp [EventLog.upTo]
  | @item index item isItem =>
    have inside := (List.getElem?_eq_some_iff.mp isItem).1
    have isTake := List.take_append_drop (index + 1) log.items
    have sorted := log.increasing
    rw [← isTake, List.pairwise_append] at sorted
    have last : item ∈ log.items.take (index + 1) := List.mem_take_iff_getElem.mpr
      ⟨index, by omega, (List.getElem?_eq_some_iff.mp isItem).2⟩
    have before : ∀ other ∈ log.items.take (index + 1), other.position ≤ item.position := by
      intro other isOther
      obtain ⟨place, bound, rfl⟩ := List.mem_take_iff_getElem.mp isOther
      obtain ⟨_, rfl⟩ := List.getElem?_eq_some_iff.mp isItem
      obtain rfl | less : place = index ∨ place < index := by omega
      · exact le_rfl
      · exact (List.pairwise_iff_getElem.mp log.increasing place index _ _ less).le
    have behind : ∀ other ∈ log.items.drop (index + 1), ¬ other.position ≤ item.position :=
      fun other isOther => not_le.mpr (sorted.2.2 item last other isOther)
    rw [EventLog.upTo]
    conv_lhs => rw [← isTake]
    rw [List.filter_append, List.filter_eq_self.mpr (by simpa using before),
      List.filter_eq_nil_iff.mpr (by simpa using behind), List.append_nil]

theorem EventLog.At.length_upTo (isAt : log.At fed position) :
    (log.upTo position).length = fed := by
  rw [isAt.upTo, List.length_take]
  cases isAt with
  | start => exact Nat.zero_min _
  | item isItem => exact Nat.min_eq_left (List.getElem?_eq_some_iff.mp isItem).1

section Exact

variable (log) (projectors : SchemaVersion → Projector Key Event State Failure)

/-- A state is that of the events up to a position. -/
structure Exact (schemaVersion : SchemaVersion) (position : Option Pos) (state : State) : Prop where
  isAt : ∃ fed, log.At fed position
  folded : (projectors schemaVersion).fold (log.upTo position) = .ok state

/-- While an instance is of use, or may be again, it has folded what it was fed. -/
def Instance.Tracks (loaded : Instance State Pos) : Prop :=
  ∀ state, loaded.projection.state? = some state →
    (loaded.projection.reloadRequired = true → loaded.waiting ≠ none) →
    log.At loaded.fed loaded.projection.observed ∧
      Exact log projectors loaded.projection.schemaVersion loaded.projection.observed state

/-- What a call leaves behind: an instance that has folded what it was fed, and perhaps an exact
write. -/
def Leaves (fed : Nat) (after : Projection State Pos × Progress State Pos Failure E) : Prop :=
  match after.2 with
  | .returned _ => Instance.Tracks log projectors ⟨after.1, fed, none⟩
  | .awaiting write => Instance.Tracks log projectors ⟨after.1, fed, some write⟩ ∧
      Exact log projectors write.schemaVersion (some write.position) write.state

variable {log projectors}

theorem leaves_flush (tracks : Instance.Tracks log projectors ⟨projection, fed, none⟩) :
    Leaves log projectors fed (flush projection : _ × Progress State Pos Failure E) := by
  rw [flush]
  split
  next => exact tracks
  next state isState =>
    split
    next => exact tracks
    next position isPosition =>
      obtain ⟨usable, isSome⟩ := Projection.state_eq_ok.mp isState
      have isObserved : projection.observed = some position := by
        simp only [Projection.unpersisted, Option.filter_eq_some_iff] at isPosition
        exact isPosition.1
      obtain ⟨isAt, exact⟩ := tracks state isSome fun reload => by simp [usable] at reload
      refine ⟨fun other isOther _ => ?_, isObserved ▸ exact⟩
      obtain rfl : state = other := Option.some.inj (isSome.symm.trans isOther)
      exact ⟨isAt, exact⟩

/-- An advance folds one event, or fails. -/
theorem leaves_advance (isItem : log.items[fed]? = some item)
    (tracks : Instance.Tracks log projectors ⟨projection, fed, none⟩)
    (shouldPersist : PersistTrigger Pos) :
    Leaves log projectors (fed + 1) (advance (projectors projection.schemaVersion) shouldPersist
      item projection : _ × Progress State Pos Failure E) := by
  rw [advance]
  split
  next error isError =>
    -- The instance is of no use, and no call will make it so.
    intro state isSome waits
    have usable : projection.reloadRequired = false := by
      cases reload : projection.reloadRequired with
      | false => rfl
      | true => exact absurd rfl (waits reload)
    exact absurd (isError.symm.trans (Projection.state_eq_ok.mpr ⟨usable, isSome⟩)) (by simp)
  next state isState =>
    obtain ⟨usable, isSome⟩ := Projection.state_eq_ok.mp isState
    obtain ⟨isAt, exact⟩ := tracks state isSome fun reload => by simp [usable] at reload
    have isNext := EventLog.At.item isItem
    -- The event that is fed lies behind those that were.
    have increases : ¬ projection.observed.any fun previous => item.position ≤ previous := by
      cases isObserved : projection.observed with
      | none => simp
      | some previous =>
        rw [isObserved] at isAt
        cases isAt with
        | @item index earlier isEarlier =>
          obtain ⟨_, rfl⟩ := List.getElem?_eq_some_iff.mp isEarlier
          obtain ⟨_, rfl⟩ := List.getElem?_eq_some_iff.mp isItem
          simpa using List.pairwise_iff_getElem.mp log.increasing index (index + 1) _ _
            (Nat.lt_succ_self index)
    rw [if_neg increases]
    split
    next => intro other impossible; cases impossible
    next folded isFolded =>
      have exactNext :
          Exact log projectors projection.schemaVersion (some item.position) folded := by
        refine ⟨⟨_, isNext⟩, ?_⟩
        have isFold := exact.folded
        rw [isAt.upTo] at isFold
        rw [isNext.upTo, List.take_add_one, isItem, Projector.fold, List.foldlM_append]
        rw [Projector.fold] at isFold
        rw [isFold]
        simp [isFolded, bind, Except.bind]
      have tracksNext : Instance.Tracks log projectors
          ⟨{ projection with state? := some folded, observed := some item.position }, fed + 1,
            none⟩ := by
        rintro other ⟨⟩ -
        exact ⟨isNext, exactNext⟩
      dsimp only
      split
      next => exact leaves_flush tracksNext
      next => exact tracksNext

end Exact

variable {write : CheckpointWrite State Pos}

/-- The record that replaces another one has the next revision, and a later position if the
schema version is the same. -/
theorem replace_follows (replaces : write.replace current = some record) :
    record = write.record record.revision ∧
      record.revision.toNat = depth (current.map Record.revision) + 1 ∧
      ∀ previous, current = some previous →
        record.schemaVersion = previous.schemaVersion → previous.position < record.position := by
  obtain ⟨⟨-, suits⟩, whole, isNext⟩ := replace_eq_some.mp replaces
  refine ⟨whole.symm, isNext, ?_⟩
  rintro previous rfl same
  rw [← whole] at same ⊢
  obtain ⟨-, -, increases⟩ | ⟨-, different⟩ := suits
  · exact increases
  · exact absurd same.symm different

namespace World

section Invariant

variable (id : Bytes) (log) (projectors : SchemaVersion → Projector Key Event State Failure)

/-- The records that were stored are exact and numbered from one, and while the schema version
stays the same their positions increase. -/
structure Stores (world : World State Pos) : Prop where
  current : world.records id = world.stored.getLast?
  exact : ∀ record ∈ world.stored,
    Exact log projectors record.schemaVersion (some record.position) record.state
  numbered : ∀ index record, world.stored[index]? = some record → record.revision.toNat = index + 1
  increasing : ∀ index first second, world.stored[index]? = some first →
    world.stored[index + 1]? = some second → second.schemaVersion = first.schemaVersion →
    first.position < second.position

/-- What every event keeps. -/
structure Sound (world : World State Pos) : Prop extends Stores log id projectors world where
  instances : ∀ loaded ∈ world.instances, loaded.Tracks log projectors
  sent : ∀ write ∈ world.sent,
    Exact log projectors write.schemaVersion (some write.position) write.state

variable {id log projectors} {world : World State Pos}

theorem sound_new : (World.new : World State Pos).Sound log id projectors where
  current := rfl
  exact := List.forall_mem_nil _
  numbered _ _ isStored := by simp [World.new] at isStored
  increasing _ _ _ isStored := by simp [World.new] at isStored
  instances := List.forall_mem_nil _
  sent := List.forall_mem_nil _

section

variable (sound : world.Sound log id projectors)
include sound

theorem Sound.set (tracks : loaded.Tracks log projectors) (index : Nat) :
    ({ world with instances := world.instances.set index loaded } : World State Pos).Sound log id
      projectors where
  current := sound.current
  exact := sound.exact
  numbered := sound.numbered
  increasing := sound.increasing
  instances other isOther := by
    obtain isOld | rfl := List.mem_or_eq_of_mem_set isOther
    · exact sound.instances other isOld
    · exact tracks
  sent := sound.sent

theorem Sound.called (leaves : Leaves log projectors fed after) :
    (world.called index ⟨projection, before, none⟩ fed after).Sound log id projectors := by
  obtain ⟨changed, _ | write⟩ := after
  · exact sound.set leaves index
  · refine { sound.set leaves.1 index with sent := ?_ }
    exact List.forall_mem_append.mpr ⟨sound.sent, List.forall_mem_singleton.mpr leaves.2⟩

theorem Sound.stored (replaces : write.replace (world.records id) = some record)
    (exact : Exact log projectors write.schemaVersion (some write.position) write.state) :
    ({ world with
        records := world.records.put id record
        stored := world.stored ++ (world.records.put id record id).toList } :
      World State Pos).Sound log id projectors := by
  obtain ⟨whole, isNext, follows⟩ := replace_follows replaces
  rw [sound.current] at isNext follows
  have isDepth : record.revision.toNat = world.stored.length + 1 := by
    cases isLast : world.stored.getLast? with
    | none => simp [isNext, List.getLast?_eq_none_iff.mp isLast]
    | some last =>
      rw [List.getLast?_eq_getElem?] at isLast
      have := sound.numbered _ last isLast
      have := (List.getElem?_eq_some_iff.mp isLast).1
      rw [List.getLast?_eq_getElem?, isLast] at isNext
      simp only [Option.map_some, depth_some] at isNext
      omega
  rw [Registers.put_self, Option.toList_some]
  refine { sound with current := ?_, exact := ?_, numbered := ?_, increasing := ?_ }
  · simp
  · refine List.forall_mem_append.mpr ⟨sound.exact, List.forall_mem_singleton.mpr ?_⟩
    rw [whole]
    exact exact
  · intro index other isOther
    obtain isOld | ⟨rfl, rfl⟩ := getElem?_concat_eq_some.mp isOther
    · exact sound.numbered index other isOld
    · exact isDepth
  · intro index first second isFirst isSecond same
    obtain isOld | ⟨isIndex, rfl⟩ := getElem?_concat_eq_some.mp isSecond
    · have bound := (List.getElem?_eq_some_iff.mp isOld).1
      rw [List.getElem?_append_left (by omega)] at isFirst
      exact sound.increasing index first second isFirst isOld same
    · rw [List.getElem?_append_left (by omega)] at isFirst
      refine follows first ?_ same
      rw [List.getLast?_eq_getElem?, ← isIndex]
      exact isFirst

theorem Sound.land {index : Nat} (isSent : world.sent[index]? = some write) :
    (world.land id index write).Sound log id projectors := by
  have exact := sound.sent write (List.mem_of_getElem? isSent)
  have stillSent : ∀ other ∈ world.sent.eraseIdx index,
      Exact log projectors other.schemaVersion (some other.position) other.state :=
    fun other isOther => sound.sent other (List.mem_of_mem_eraseIdx isOther)
  obtain ⟨isAnswer, isAfter⟩ := InMemory.serve_agrees world.records (.commitCheckpoint id write)
  rw [World.land]
  generalize InMemory.serve world.records (.commitCheckpoint id write) = served at *
  obtain ⟨reply, records⟩ := served
  rw [Checkpoints.serve] at isAnswer isAfter
  cases isReplaced : write.replace (world.records id) with
  | none =>
    simp only [isReplaced] at isAnswer isAfter
    subst isAfter
    split
    next isServed =>
      cases isServed
      simp [Reply.answer] at isAnswer
    next isServed =>
      cases isServed
      exact { sound with sent := stillSent }
  | some record =>
    simp only [isReplaced] at isAnswer isAfter
    subst isAfter
    have isReply : reply = .committed (.ok record.revision) := by
      unfold Reply.answer at isAnswer
      split at isAnswer <;> simp_all
    subst isReply
    exact { sound.stored isReplaced exact with sent := stillSent }

theorem Sound.load (schemaVersion : SchemaVersion) (mode : CheckpointMode) :
    (world.load id log projectors schemaVersion mode).Sound log id projectors := by
  rw [World.load]
  split
  next found isFound =>
    split
    next projection isLoaded =>
      refine { sound with instances := ?_ }
      refine List.forall_mem_append.mpr ⟨sound.instances, List.forall_mem_singleton.mpr ?_⟩
      have agrees := (InMemory.serve_agrees world.records (.hydrateCheckpoint id schemaVersion)).1
      rw [isFound] at agrees
      have isHydrated : found = hydrated schemaVersion (world.records id) := by
        simpa [Reply.answer, Checkpoints.serve] using agrees
      have isNew {revision rebuiltFrom} :
          Instance.Tracks log projectors ⟨Projection.fresh schemaVersion
            (projectors schemaVersion).initial none revision rebuiltFrom,
            (log.upTo none).length, none⟩ := by
        have isFold : (projectors schemaVersion).fold (log.upTo none) =
            .ok (projectors schemaVersion).initial := by
          rw [EventLog.At.start.upTo]
          rfl
        rintro state ⟨⟩ -
        refine ⟨?_, ⟨0, .start⟩, isFold⟩
        rw [EventLog.At.start.length_upTo]
        exact .start
      cases mode with
      | rebuild =>
        cases found with
        | absent | found => cases isLoaded
        | stale =>
          cases isLoaded
          exact isNew
      | advance =>
        cases found with
        | stale => cases isLoaded
        | absent =>
          cases isLoaded
          exact isNew
        | found revision position state =>
          cases isLoaded
          -- What is found is the record that was stored last.
          obtain ⟨record, isRecord, rfl, rfl, rfl⟩ := exists_of_hydrated_found isHydrated.symm
          rw [sound.current] at isRecord
          obtain ⟨isAt, folded⟩ := sound.exact record (List.mem_of_getLast? isRecord)
          obtain ⟨fed, isFed⟩ := isAt
          rintro state ⟨⟩ -
          refine ⟨?_, ⟨fed, isFed⟩, folded⟩
          rw [Projection.fresh, isFed.length_upTo]
          exact isFed
    next => exact sound
  next => exact sound

end

theorem tracks_settle (tracks : Instance.Tracks log projectors ⟨projection, fed, some write⟩)
    (answer : Except (CheckpointError E) Revision) :
    Instance.Tracks log projectors
      ⟨(settle write answer projection : _ × Except (ProjectionError Failure E) Unit).1, fed,
        none⟩ := by
  intro state isState waits
  cases answer with
  | error error => exact tracks state isState fun _ => by simp
  | ok revision => exact tracks state isState fun _ => by simp

/-- Every event keeps the stored records exact. -/
theorem Sound.step (sound : world.Sound log id projectors) (event : WorldEvent Pos E) :
    (world.step id log projectors event).Sound log id projectors := by
  have tracked {index : Nat} {loaded : Instance State Pos}
      (isLoaded : world.instances[index]? = some loaded) : loaded.Tracks log projectors :=
    sound.instances loaded (List.mem_of_getElem? isLoaded)
  cases event with
  | load schemaVersion mode => exact sound.load schemaVersion mode
  | advance index shouldPersist =>
    rw [World.step]
    split
    next projection fed isLoaded =>
      split
      next item isItem =>
        exact sound.called (leaves_advance isItem (tracked isLoaded) shouldPersist)
      next => exact sound
    next => exact sound
  | flush index =>
    rw [World.step]
    split
    next projection fed isLoaded => exact sound.called (leaves_flush (tracked isLoaded))
    next => exact sound
  | land index =>
    rw [World.step]
    split
    next write isSent => exact sound.land isSent
    next => exact sound
  | answer index result =>
    rw [World.step]
    split
    next projection fed write isLoaded =>
      exact sound.set (tracks_settle (tracked isLoaded) result) index
    next => exact sound
  | cancel index =>
    rw [World.step]
    split
    next loaded isLoaded =>
      refine sound.set (fun state isState waits => ?_) index
      exact tracked isLoaded state isState fun reload => absurd rfl (waits reload)
    next => exact sound

theorem Sound.run (sound : world.Sound log id projectors) (events : List (WorldEvent Pos E)) :
    (world.run id log projectors events).Sound log id projectors := by
  induction events generalizing world with
  | nil => exact sound
  | cons event rest ih => exact ih (sound.step event)

end Invariant

/-- Whatever the instances do and whatever becomes of their writes, the record that is stored is
exact: its state is that of the events up to its position.  The records that were stored are
numbered from one, and while the schema version stays the same their positions increase. -/
theorem stored_checkpoints_are_exact (id : Bytes) (log : EventLog Pos Key Event)
    (projectors : SchemaVersion → Projector Key Event State Failure)
    (events : List (WorldEvent Pos E)) :
    ((World.new : World State Pos).run id log projectors events).Stores log id projectors :=
  (sound_new.run events).toStores

end World

end Mnesis.Projections
