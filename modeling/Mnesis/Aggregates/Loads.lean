import Mnesis.Aggregates.Guarantees

/-!
# Loading from snapshots

At any moment of any run, every snapshot that a store may hand out is the fold of
the first events of the stream, so what is replayed behind it ends where a full
replay ends.
-/

namespace Mnesis.Aggregates

open Foundation Kernel Store

variable {S : EventStore}

/-- The answers to a call at one moment: a read delivers the whole stream behind its
start, while snapshots may be found, missing, outdated or unreadable. -/
def AnswersNow (world : World S) : (call : Call S) → call.Answer → Prop
  | .readStream start, answer => answer = ⟨rowsFrom start world.history, none⟩
  | .append events expected batch, answer =>
    Answers (.append events expected batch) ⟨world, none⟩ answer
  | .hydrate schemaVersion, answer => Answers (.hydrate schemaVersion) ⟨world, none⟩ answer
  | .commit schemaVersion position state, answer =>
    Answers (.commit schemaVersion position state) ⟨world, none⟩ answer

/-- What code may return when nobody else acts meanwhile. -/
def Yields {α : Type} : Code S α → S.Root → World S → α → Prop
  | .done value, _, _, result => result = value
  | .read next, root, world, result => Yields (next root) root world result
  | .write root next, _, world, result => Yields next root world result
  | .await call next, root, world, result =>
    ∃ answer, AnswersNow (issue call ⟨world, none⟩).world call answer ∧
      Yields (next answer) root (issue call ⟨world, none⟩).world result

theorem yields_replayFrom_bind (continuation : Except S.Error S.Root → Code S α) :
    Yields (S.replayFrom root start >>= continuation) held world returned ↔
      Yields (continuation (Repository.replayRows S.codec root (rowsFrom start world.history)))
        held world returned := by
  rw [← bind_pure (Repository.replayRows S.codec root (rowsFrom start world.history))]
  constructor
  · rintro ⟨_, rfl, yields⟩
    exact yields
  · intro yields
    exact ⟨_, rfl, yields⟩

theorem yields_replayFrom :
    Yields (S.replayFrom root start) held world result ↔
      result = Repository.replayRows S.codec root (rowsFrom start world.history) :=
  yields_replayFrom_bind pure

theorem yields_trySaveSnapshot_bind (D : Snapshotting) (version : Version) :
    Yields (D.trySaveSnapshot root version >>= fun _ => (pure value : Code S α)) held world
      returned ↔ returned = value := by
  unfold Snapshotting.trySaveSnapshot
  cases root.state with
  | error error => exact Iff.rfl
  | ok state =>
    constructor
    · rintro ⟨_, _, isValue⟩
      exact isValue
    · intro isValue
      exact ⟨.ok (), .commit _, isValue⟩

theorem yields_snapshotOfRead_bind (D : Snapshotting) :
    Yields (D.snapshotOfRead root >>= fun _ => (pure value : Code S α)) held world returned ↔
      returned = value := by
  unfold Snapshotting.snapshotOfRead
  split
  · exact yields_trySaveSnapshot_bind D _
  · exact Iff.rfl

theorem replayedEvents_le_of_replayRows (within : root.replayedEvents ≤ S.A.maxRehydrationEvents)
    (replayed : (Repository.replayRows S.codec root rows : Except S.Error _) = .ok after) :
    after.replayedEvents ≤ S.A.maxRehydrationEvents := by
  induction rows generalizing root with
  | nil =>
    cases replayed
    exact within
  | cons row rows step =>
    rw [Repository.replayRows_cons, bind_eq_ok] at replayed
    obtain ⟨next, first, rest⟩ := replayed
    rw [Repository.replayRow, bind_eq_ok] at first
    obtain ⟨event, _, first⟩ := first
    rw [mapError_eq_ok] at first
    obtain ⟨_, _, _, below, rfl⟩ := AggregateRoot.replay_eq_ok.mp first
    exact step (Nat.succ_le_of_lt below) rest

theorem Faithful.agree (leftFaithful : Faithful events left) (rightFaithful : Faithful events right)
    (same : depth left.version = depth right.version) :
    left.version = right.version ∧ left.state = right.state := by
  refine ⟨depth_injective same, ?_⟩
  rw [AggregateRoot.state, AggregateRoot.state, leftFaithful.state, rightFaithful.state, same]

/-- A full replay folds the whole stream. -/
theorem World.Valid.load (valid : world.Valid) (loads : Yields S.load held world (.ok plain)) :
    Faithful world.events plain ∧ depth plain.version = world.history.length ∧
      world.history.length ≤ S.A.maxRehydrationEvents := by
  have replayed := (yields_replayFrom.mp loads).symm
  have follows : Version.initial.toNat = depth (AggregateRoot.new : S.Root).version + 1 :=
    rfl
  obtain ⟨faithful, reached⟩ :=
    (faithful_new world.events).replay valid.recorded List.prefix_rfl follows replayed
  obtain ⟨isDrop, _, decodes⟩ := rowsFrom_continues valid.recorded List.prefix_rfl follows
  have limit := replayedEvents_le_of_replayRows (Nat.zero_le _) replayed
  rw [isDrop] at replayed
  obtain ⟨_, _, count⟩ := replayRows_eq_ok (faithful_new world.events).state decodes replayed
  refine ⟨faithful, by rw [reached]; exact Nat.zero_max _, ?_⟩
  rw [count] at limit
  have new : (AggregateRoot.new : S.Root).replayedEvents = 0 := rfl
  have depthNew : depth (AggregateRoot.new : S.Root).version = 0 := rfl
  rw [List.length_drop] at limit
  omega

/-- A replay behind a snapshot ends where a full replay ends. -/
theorem World.Valid.replay_snapshot (valid : world.Valid)
    (loads : Yields S.load held world (.ok plain)) (committed : snapshot ∈ world.snapshots)
    (isStart : snapshot.position.next = some start) :
    ∃ root, (Repository.replayRows S.codec (.restore snapshot.state snapshot.position)
        (rowsFrom start world.history) : Except S.Error S.Root) = .ok root ∧
      root.version = plain.version ∧ root.state = plain.state := by
  obtain ⟨plainFaithful, plainDepth, limit⟩ := valid.load loads
  obtain ⟨within, state⟩ := valid.snapshots snapshot committed
  have faithful : Faithful world.events
      (.restore snapshot.state snapshot.position : S.Root) := ⟨within, congrArg some state⟩
  have follows : start.toNat = depth
      (AggregateRoot.restore snapshot.state snapshot.position : S.Root).version + 1 :=
    Version.next_eq_some.mp isStart
  obtain ⟨isDrop, numbered, decodes⟩ := rowsFrom_continues valid.recorded List.prefix_rfl follows
  have fits : 0 + (world.history.drop (depth
      (AggregateRoot.restore snapshot.state snapshot.position : S.Root).version)).length ≤
      S.A.maxRehydrationEvents := by
    rw [List.length_drop]
    omega
  obtain ⟨root, replayed⟩ := exists_replayRows faithful.state numbered decodes fits
  rw [← isDrop] at replayed
  obtain ⟨rootFaithful, reached⟩ := faithful.replay valid.recorded List.prefix_rfl follows replayed
  refine ⟨root, replayed, rootFaithful.agree plainFaithful ?_⟩
  have whole := faithful.within
  rw [reached, plainDepth, valid.recorded.length_eq]
  exact Nat.max_eq_right whole

/-- A snapshot at the last version is the whole stream. -/
theorem World.Valid.snapshot_at_ceiling (valid : world.Valid)
    (loads : Yields S.load held world (.ok plain))
    (committed : snapshot ∈ world.snapshots) (last : snapshot.position.next = none) :
    some snapshot.position = plain.version ∧
      (AggregateRoot.restore snapshot.state snapshot.position : S.Root).state = plain.state := by
  obtain ⟨plainFaithful, plainDepth, _⟩ := valid.load loads
  obtain ⟨within, state⟩ := valid.snapshots snapshot committed
  have faithful : Faithful world.events
      (.restore snapshot.state snapshot.position : S.Root) := ⟨within, congrArg some state⟩
  have ceiling : depth (some snapshot.position) + 1 = 2 ^ 64 :=
    following_eq_none.mp last
  have below := depth_lt plain.version
  rw [depth_some] at ceiling
  rw [plainDepth, valid.recorded.length_eq] at below
  apply faithful.agree plainFaithful
  rw [plainDepth, valid.recorded.length_eq]
  change snapshot.position.toNat = _
  omega

/-- Whenever the plain repository can load an aggregate, the snapshotting one loads
it at the same version in the same state, whatever its snapshot store does. -/
theorem snapshotting_load_agrees {Command Client : Type} [DecidableEq Client]
    {intentFor : S.A.Event → Option Command} (lawful : S.Lawful) {stream : StreamKey}
    {trace : List (Label S Command Client)} {system : System S Command Client}
    (reachable : Reachable stream intentFor trace system) {plain held : S.Root}
    (loads : Yields S.load held system.world (.ok plain)) (D : Snapshotting) :
    (∃ result, Yields (D.load : Code S _) held system.world result) ∧
      ∀ result, Yields (D.load : Code S _) held system.world result →
        ∃ root, result = .ok root ∧ root.version = plain.version ∧ root.state = plain.state := by
  have valid := (System.Valid.of_reachable lawful reachable).world
  have isPlain := (yields_replayFrom.mp loads).symm
  -- Without a snapshot the load is the plain one, with a snapshot stored behind it.
  have fallback (continuation : Except S.Error S.Root → Code S (Except S.Error S.Root))
      (result : Except S.Error S.Root) :
      Yields (S.load >>= continuation) held system.world result ↔
        Yields (continuation (.ok plain)) held system.world result := by
    rw [EventStore.load, yields_replayFrom_bind, isPlain]
  constructor
  · exact ⟨.ok plain, .ok .absent, .absent,
      (fallback _ _).mpr ((yields_snapshotOfRead_bind D).mpr rfl)⟩
  · rintro result ⟨answer, answered, yields⟩
    cases answered with
    | hydrateFailed error =>
      exact ⟨plain, (yields_snapshotOfRead_bind D).mp ((fallback _ _).mp yields), rfl, rfl⟩
    | absent =>
      exact ⟨plain, (yields_snapshotOfRead_bind D).mp ((fallback _ _).mp yields), rfl, rfl⟩
    | stale storedSchema =>
      exact ⟨plain, (yields_snapshotOfRead_bind D).mp ((fallback _ _).mp yields), rfl, rfl⟩
    | @found _ _ position state committed =>
      cases isStart : position.next with
      | none =>
        obtain ⟨sameVersion, sameState⟩ := valid.snapshot_at_ceiling loads committed isStart
        have isRoot : result = .ok (.restore state position) := by
          dsimp only at yields
          rw [isStart] at yields
          exact yields
        exact ⟨_, isRoot, sameVersion, sameState⟩
      | some start =>
        obtain ⟨root, replayed, same⟩ := valid.replay_snapshot loads committed isStart
        have isReplay : Yields (S.replayFrom (.restore state position) start) held system.world
            result := by
          dsimp only at yields
          rw [isStart] at yields
          exact yields
        exact ⟨root, (yields_replayFrom.mp isReplay).trans replayed, same⟩

/-- A snapshot after every save. -/
def afterEverySave : Snapshotting where
  shouldPersist := fun _ _ _ => true
  schemaVersion := .initial
  snapshotOnRead := false

/-- A counting aggregate is saved and leaves a snapshot. -/
theorem tally_saves_snapshot :
    ∃ (trace : List (Label tally Nat Unit)) (system : System tally Nat Unit),
      Reachable [] (some : Nat → Option Nat) trace system ∧
        system.world.snapshots = [⟨.initial, .initial, (2 : Nat)⟩] ∧
        Yields tally.load .new system.world (.ok ⟨some (2 : Nat), some .initial, 1⟩) := by
  have start : Reachable [] (some : Nat → Option Nat) [] (System.initial tally Nat Unit) := .refl
  have created := start.snoc (@Step.create _ _ _ _ _ _ _ () rfl)
  have called := created.snoc (@Step.call _ _ _ _ _ _ _ () _
    (.save (.snapshotting afterEverySave) (.new (2 : Nat) : Events Nat 0)) rfl)
  have settled := called.snoc (@Step.settle _ _ _ _ _ _ _ 0 _ rfl rfl)
  have answered := settled.snoc
    (@Step.answer _ _ _ _ _ _ _ () _ _ _ _ _ _ _ rfl (.appended () rfl rfl rfl))
  have committed := answered.snoc
    (@Step.answer _ _ _ _ _ _ _ () _ _ _ _ _ _ _ rfl (.commit (.error ())))
  have replied := committed.snoc (@Step.reply _ _ _ _ _ _ _ () _ _ _ _ _ rfl)
  exact ⟨_, _, replied, rfl, yields_replayFrom.mpr rfl⟩

/-- A counting aggregate is loaded after a save. -/
theorem tally_snapshotting_load_agrees :
    ∃ (trace : List (Label tally Nat Unit)) (system : System tally Nat Unit),
      Reachable [] (some : Nat → Option Nat) trace system ∧
        system.world.snapshots = [⟨.initial, .initial, (2 : Nat)⟩] ∧
        ∀ result, Yields (afterEverySave.load : Code tally _) .new system.world result →
          ∃ root, result = .ok root ∧ root.version = some .initial ∧
            root.state = (.ok (2 : Nat) : Except KernelError tally.A.State) := by
  obtain ⟨trace, system, reachable, isSnapshots, loads⟩ := tally_saves_snapshot
  exact ⟨trace, system, reachable, isSnapshots,
    (snapshotting_load_agrees tally_lawful reachable loads afterEverySave).2⟩

end Mnesis.Aggregates
