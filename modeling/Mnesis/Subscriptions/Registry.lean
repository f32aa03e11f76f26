import Mnesis.Subscriptions.Cursor

/-!
# Routes of the wake registry

The entry of a stream counts its live registrations, so it stays as long as there is
one, and its channel with it.  A wake of the stream therefore changes the channel of
each of them.
-/

namespace Mnesis.Subscriptions

open Foundation Store

variable {notifiers : StreamNotifiers}

/-- Wakes for a target change a channel. -/
inductive Routes (notifiers : StreamNotifiers) : Target → ChannelRef → Prop
  | all : Routes notifiers .all .all
  | stream {id : StreamKey} {entry : Entry}
      (entered : notifiers.map id = some entry)
      (created : entry.genTx < notifiers.channels.length) :
      Routes notifiers (.stream id) (.entry entry.genTx)

/-- What is entered for a stream with so many live registrations. -/
inductive Entered (channels : Nat) : Option Entry → Nat → Prop
  | none : Entered channels none 0
  | some {entry : Entry} (created : entry.genTx < channels) :
      Entered channels (some entry) entry.subscribers.toNat

theorem Entered.absent (entered : Entered channels Option.none count) : count = 0 := by
  cases entered
  rfl

theorem Entered.present (entered : Entered channels (Option.some entry) count) :
    entry.genTx < channels ∧ entry.subscribers.toNat = count := by
  cases entered with
  | some created => exact ⟨created, rfl⟩

/-- The entries count live registrations. -/
def Counts (notifiers : StreamNotifiers) (live : StreamKey → Nat) : Prop :=
  ∀ id, Entered notifiers.channels.length (notifiers.map id) (live id)

/-- What a call does to the registry. -/
inductive Moves (notifiers : StreamNotifiers) : StreamNotifiers → Prop
  | stay : Moves notifiers notifiers
  | bump (index : Nat) :
    Moves notifiers { notifiers with channels := notifiers.channels.modify index Channel.bump }
  | all : Moves notifiers notifiers.wakeAll
  | recount {stream : StreamKey} (entered : notifiers.map stream = some entry)
      (nonzero : subscribers ≠ 0) :
    Moves notifiers (notifiers.enter stream (some { entry with subscribers }))
  | insert {stream : StreamKey} (missing : notifiers.map stream = none) :
    Moves notifiers (({ notifiers with channels := notifiers.channels ++ [Channel.new] } :
      StreamNotifiers).enter stream (some ⟨notifiers.channels.length, 1⟩))
  | remove {stream : StreamKey} (entered : notifiers.map stream = some entry) :
    Moves notifiers (notifiers.remove stream entry)

variable {id : StreamKey}

open StreamNotifiers

theorem map_enter (entry : Option Entry) (stream : StreamKey) :
    (notifiers.enter id entry).map stream = if stream = id then entry else notifiers.map stream :=
  Function.update_apply ..

theorem enter_enter (first second : Option Entry) :
    (notifiers.enter id first).enter id second = notifiers.enter id second := by
  simp [enter]

theorem moves_wakeStream (stream : StreamKey) : Moves notifiers (notifiers.wakeStream stream) := by
  rw [wakeStream]
  split
  · exact .stay
  · exact .bump _

theorem moves_register (target : Option StreamKey) :
    Moves notifiers (notifiers.register target).2 := by
  cases target with
  | none => exact .stay
  | some id =>
    simp only [register, registerEntry, orInsert]
    cases isEntry : notifiers.map id with
    | none => simpa [enter, checkedAdd] using Moves.insert isEntry
    | some entry =>
      dsimp only
      split
      · exact .stay
      next added =>
        refine .recount isEntry fun zero => ?_
        have sum := checkedAdd_eq_some.mp added
        simp [zero] at sum

theorem moves_release (id : StreamKey) : Moves notifiers (notifiers.release id) := by
  rw [release]
  split
  · exact .stay
  next isEntry =>
    split
    · exact .remove isEntry
    · split
      · exact .remove isEntry
      next nonzero => exact .recount isEntry nonzero

theorem register_overflow {target : Option StreamKey}
    (refused : (notifiers.register target).1 = .error error) :
    (notifiers.register target).2 = notifiers := by
  cases target with
  | none => rfl
  | some id =>
    simp only [register, registerEntry, orInsert] at refused ⊢
    cases isEntry : notifiers.map id with
    | none => simp [isEntry, checkedAdd] at refused
    | some entry =>
      simp only [isEntry] at refused ⊢
      split
      · rfl
      next added => simp [added] at refused

theorem moves_drop {registration : WakeReg} : Moves notifiers (registration.drop notifiers) := by
  rw [WakeReg.drop]
  cases registration.guard with
  | none => exact .stay
  | some id => exact moves_release id

/-- Channels keep their changes. -/
theorem Moves.keeps (moves : Moves notifiers after)
    (isChannel : notifiers.channel reference = some found) :
    ∃ later, after.channel reference = some later ∧ found.changes ≤ later.changes ∧
      (found.closed = true → later.closed = true) := by
  cases moves with
  | stay | recount => exact ⟨found, isChannel, Nat.le_refl _, fun closed => closed⟩
  | all =>
    cases reference with
    | all =>
      cases isChannel
      exact ⟨_, rfl, Nat.le_succ _, fun closed => closed⟩
    | entry index => exact ⟨found, isChannel, Nat.le_refl _, fun closed => closed⟩
  | bump index | remove =>
    cases reference with
    | all => exact ⟨found, isChannel, Nat.le_refl _, fun closed => closed⟩
    | entry place =>
      refine ⟨_, getElem?_modify_eq_some.mpr ⟨found, isChannel, rfl⟩, ?_⟩
      split <;> simp [Channel.bump, Channel.close]
  | insert =>
    refine ⟨found, ?_, Nat.le_refl _, fun closed => closed⟩
    cases reference with
    | all => exact isChannel
    | entry place => exact getElem?_concat_of_some isChannel _

theorem Moves.changes_le (moves : Moves notifiers after) (reference : ChannelRef) :
    notifiers.changes reference ≤ after.changes reference := by
  cases isChannel : notifiers.channel reference with
  | none => simp [changes, isChannel]
  | some found =>
    obtain ⟨later, isLater, more, _⟩ := moves.keeps isChannel
    simpa [changes, isChannel, isLater] using more

theorem changes_lt_wakeStream (routes : Routes notifiers (.stream id) reference) :
    notifiers.changes reference < (notifiers.wakeStream id).changes reference := by
  cases routes with
  | stream entered created =>
    simp [wakeStream, entered, changes, channel, Channel.bump, created]

theorem changes_lt_wakeAll : notifiers.changes .all < notifiers.wakeAll.changes .all :=
  Nat.lt_succ_self _

section Entries

variable {target : Target}

theorem Routes.enter_of_ne {entry : Option Entry} (routes : Routes notifiers target reference)
    (different : target ≠ .stream id) :
    Routes (notifiers.enter id entry) target reference := by
  cases routes with
  | all => exact .all
  | @stream other known isKnown created =>
    have different : other ≠ id := fun same => different (same ▸ rfl)
    exact .stream (by simp [StreamNotifiers.enter, different, isKnown]) created

theorem Routes.enter (routes : Routes notifiers target reference)
    (entered : notifiers.map id = some old) (sameChannel : entry.genTx = old.genTx) :
    Routes (notifiers.enter id (some entry)) target reference := by
  by_cases same : target = .stream id
  · subst same
    cases routes with
    | stream isKnown created =>
      rw [entered, Option.some_inj] at isKnown
      subst isKnown
      rw [← sameChannel] at created ⊢
      exact .stream (by simp [StreamNotifiers.enter]) created
  · exact routes.enter_of_ne same

theorem Counts.enter {entry : Option Entry} (counts : Counts notifiers live)
    (id : StreamKey) (entered : Entered notifiers.channels.length entry count) :
    Counts (notifiers.enter id entry) (Function.update live id count) := by
  intro other
  by_cases same : other = id
  · subst same
    simpa [StreamNotifiers.enter] using entered
  · simpa [StreamNotifiers.enter, same] using counts other

theorem Counts.channels {channels : List Channel} (counts : Counts notifiers live)
    (more : notifiers.channels.length ≤ channels.length) :
    Counts { notifiers with channels } live := by
  intro id
  have entered := counts id
  change Entered channels.length (notifiers.map id) (live id)
  generalize notifiers.map id = entry, live id = count at entered
  cases entered with
  | none => exact .none
  | some created => exact .some (Nat.lt_of_lt_of_le created more)

theorem Routes.channels {channels : List Channel} (routes : Routes notifiers target reference)
    (more : notifiers.channels.length ≤ channels.length) :
    Routes { notifiers with channels } target reference := by
  cases routes with
  | all => exact .all
  | stream entered created => exact .stream entered (Nat.lt_of_lt_of_le created more)

theorem Counts.wakeStream (counts : Counts notifiers live) (stream : StreamKey) :
    Counts (notifiers.wakeStream stream) live := by
  rw [StreamNotifiers.wakeStream]
  split
  · exact counts
  · exact counts.channels (by simp)

theorem Routes.wakeStream (routes : Routes notifiers target reference) (stream : StreamKey) :
    Routes (notifiers.wakeStream stream) target reference := by
  rw [StreamNotifiers.wakeStream]
  split
  · exact routes
  · exact routes.channels (by simp)

theorem Routes.wakeAll (routes : Routes notifiers target reference) :
    Routes notifiers.wakeAll target reference := by
  cases routes with
  | all => exact .all
  | stream entered created => exact .stream entered created

section

variable (counts : Counts notifiers live)
include counts

/-- The last release removes an entry. -/
theorem release_cases (held : 0 < live id) :
    ∃ entry, notifiers.map id = some entry ∧
      (live id = 1 ∧ notifiers.release id = notifiers.remove id entry ∨
        1 < live id ∧ ∃ remaining, remaining.toNat = live id - 1 ∧
          notifiers.release id =
            notifiers.enter id (some { entry with subscribers := remaining })) := by
  have entered := counts id
  cases isEntry : notifiers.map id with
  | none =>
    rw [isEntry] at entered
    exact absurd entered.absent (Nat.ne_of_gt held)
  | some entry =>
    rw [isEntry] at entered
    obtain ⟨_, isCount⟩ := entered.present
    refine ⟨entry, rfl, ?_⟩
    have one : (1 : UInt64) ≤ entry.subscribers := by
      rw [UInt64.le_iff_toNat_le, isCount]
      exact held
    have rest : (entry.subscribers - 1).toNat = live id - 1 := by
      rw [UInt64.toNat_sub_of_le _ _ one, isCount]
      rfl
    rw [release, isEntry]
    simp only [checkedSub_of_le one]
    split
    next isZero =>
      rw [isZero] at rest
      have zero : live id - 1 = 0 := rest.symm
      exact .inl ⟨by omega, rfl⟩
    next notZero =>
      have others : (entry.subscribers - 1).toNat ≠ 0 := fun zero =>
        notZero (UInt64.toNat_inj.mp zero)
      exact .inr ⟨by omega, _, rest, rfl⟩

theorem Counts.release (held : 0 < live id) :
    Counts (notifiers.release id) (Function.update live id (live id - 1)) := by
  obtain ⟨entry, isEntry, ⟨last, released⟩ | ⟨more, remaining, isRemaining, released⟩⟩ :=
    release_cases counts held
  · rw [released, last]
    exact (counts.channels (by simp)).enter id .none
  · have entered := counts id
    rw [isEntry] at entered
    rw [released, ← isRemaining]
    exact counts.enter id (.some entered.present.1)

theorem Routes.release (held : 0 < live id)
    (routes : Routes notifiers target reference) (others : target = .stream id → 1 < live id) :
    Routes (notifiers.release id) target reference := by
  obtain ⟨entry, isEntry, ⟨last, released⟩ | ⟨more, remaining, isRemaining, released⟩⟩ :=
    release_cases counts held
  · rw [released]
    refine (routes.channels (by simp)).enter_of_ne fun same => ?_
    have more := others same
    omega
  · rw [released]
    exact routes.enter isEntry rfl

/-- A subscription registers. -/
theorem register_registered
    (registered : notifiers.register target.key = (.ok registration, after)) :
    Counts after (fun id => live id + if target = .stream id then 1 else 0) ∧
      Routes after target registration.rx.channel ∧
      registration.guard = target.key ∧
      (∀ {other reference}, Routes notifiers other reference → Routes after other reference) ∧
      ∀ reference, notifiers.changes reference ≤ after.changes reference := by
  have moves := @moves_register notifiers target.key
  rw [registered] at moves
  cases target with
  | all =>
    cases registered
    exact ⟨by simpa using counts, .all, rfl, fun routes => routes, moves.changes_le⟩
  | stream stream =>
    have isLive : (fun id => live id + if Target.stream stream = .stream id then 1 else 0) =
        Function.update live stream (live stream + 1) := by
      funext id
      by_cases same : stream = id
      · subst same
        simp
      · simp [same, Ne.symm same]
    rw [isLive]
    have known := counts stream
    simp only [Target.key, register, registerEntry, orInsert] at registered
    cases isEntry : notifiers.map stream with
    | none =>
      have more : notifiers.channels.length ≤ (notifiers.channels ++ [Channel.new]).length := by
        simp
      have zero : live stream = 0 := (isEntry ▸ known : Entered _ Option.none _).absent
      have entered : Entered (notifiers.channels ++ [Channel.new]).length
          (some ⟨notifiers.channels.length, 1⟩) (live stream + 1) := zero ▸ .some (by simp)
      simp only [isEntry] at registered
      cases registered
      rw [enter_enter]
      refine ⟨(counts.channels more).enter stream entered,
        @Routes.stream _ stream ⟨_, 1⟩ (by simp [map_enter]) entered.present.1, rfl,
        fun {other _} routes => (routes.channels more).enter_of_ne fun own => ?_, moves.changes_le⟩
      subst own
      cases routes with
      | stream entered => simp [isEntry] at entered
    | some entry =>
      obtain ⟨created, isCount⟩ := (isEntry ▸ known : Entered _ (some entry) _).present
      simp only [isEntry] at registered
      split at registered
      · cases registered
      next subscribers added =>
        cases registered
        have sum : subscribers.toNat = live stream + 1 := isCount ▸ checkedAdd_eq_some.mp added
        refine ⟨sum ▸ counts.enter stream (.some created), ?_, rfl,
          fun routes => routes.enter isEntry rfl, moves.changes_le⟩
        exact @Routes.stream _ stream { entry with subscribers } (by simp [map_enter]) created

theorem register_refused
    (refused : notifiers.register target.key = (.error error, after)) :
    Counts after live ∧
      (∀ {other reference}, Routes notifiers other reference → Routes after other reference) ∧
      ∀ reference, notifiers.changes reference ≤ after.changes reference := by
  have same := @register_overflow notifiers error target.key (by rw [refused])
  rw [refused] at same
  obtain rfl : after = notifiers := same
  exact ⟨counts, fun routes => routes, fun _ => Nat.le_refl _⟩

/-- A subscription is dropped. -/
theorem drop_spec {registration : WakeReg}
    (guarded : registration.guard = target.key) (held : ∀ id, target = .stream id → 0 < live id) :
    Counts (registration.drop notifiers)
        (fun id => live id - if target = .stream id then 1 else 0) ∧
      (∀ {other reference}, Routes notifiers other reference →
        (∀ id, target = .stream id → other = .stream id → 1 < live id) →
        Routes (registration.drop notifiers) other reference) ∧
      ∀ reference, notifiers.changes reference ≤
        (registration.drop notifiers).changes reference := by
  cases target with
  | all =>
    have same : registration.drop notifiers = notifiers := by
      rw [WakeReg.drop, guarded]
      rfl
    rw [same]
    exact ⟨by simpa using counts, fun routes _ => routes, fun _ => Nat.le_refl _⟩
  | stream stream =>
    have released : registration.drop notifiers = notifiers.release stream := by
      rw [WakeReg.drop, guarded]
      rfl
    have held := held stream rfl
    rw [released]
    refine ⟨?_, ?_, (moves_release stream).changes_le⟩
    · convert counts.release held using 1
      funext id
      by_cases same : stream = id
      · subst same
        simp
      · simp [same, Ne.symm same]
    · intro other reference routes others
      exact routes.release counts held (others stream rfl)

end

end Entries

end Mnesis.Subscriptions
