import Mnesis.Import.Stores

/-!
# Why the import of a whole chunk is aborted

The first block of a section that does not follow the head of its target or the block
before it is its offence.  The import of a whole chunk looks at the blocks of all
sections first and at the heads of their targets only when it commits, so that it can
report a later offence instead of the first one.
-/

namespace Mnesis.Import

open Foundation Kernel Store

variable {State AdapterError : Type}

/-- Blocks with the versions from `next` on. -/
def Follows : Nat → List ImportBlock → Prop
  | _, [] => True
  | _, .corrupt :: _ => False
  | next, .event event :: blocks => event.version.toNat = next ∧ Follows (next + 1) blocks

/-- The first block that is corrupt or does not have the version that is due, and
what is wrong with it. -/
inductive FirstOffence : Nat → List ImportBlock → AbortReason → Prop
  | corrupt : FirstOffence next (.corrupt :: blocks) .corrupt
  | mismatch : event.version.toNat ≠ next →
      expected.toNat = next →
      FirstOffence next (.event event :: blocks) (.mismatch expected event.version)
  | later {next : Nat} {event : PersistedEnvelope} {blocks : List ImportBlock}
      {reason : AbortReason} :
      event.version.toNat = next →
      FirstOffence (next + 1) blocks reason →
      FirstOffence next (.event event :: blocks) reason

/-- The first section with an offence, in a store with the given streams, and its
first offence. -/
def FirstOffender (log : Log) (routed : List (StreamSection × StreamKey)) (stream : StreamKey)
    (reason : AbortReason) : Prop :=
  ∃ before entry after,
    routed = before ++ (entry, stream) :: after ∧
    (∀ earlier ∈ before, Follows ((log.stream earlier.2).length + 1) earlier.1.blocks) ∧
    FirstOffence ((log.stream stream).length + 1) entry.blocks reason

/-- Blocks without a corrupt one whose versions follow one another. -/
def Consecutive : List ImportBlock → Prop
  | [] => True
  | .corrupt :: _ => False
  | .event event :: blocks => Follows (event.version.toNat + 1) blocks

/-- The first block, if it is an event, has the version that is due. -/
def StartsAt (next : Nat) : List ImportBlock → Prop
  | .event event :: _ => event.version.toNat = next
  | _ => True

/-- The offence that blocks show by themselves, whatever the head of their target is:
their versions are counted from the first one. -/
def OffendsInside : List ImportBlock → AbortReason → Prop
  | [], _ => False
  | .corrupt :: _, reason => reason = .corrupt
  | .event event :: blocks, reason => FirstOffence (event.version.toNat + 1) blocks reason

/-- Of sections with different targets, those before the first one that offends by
itself begin behind the head of their target, and what that one shows by itself is its
first offence behind the head of its own. -/
def HeadsComeFirst (log : Log) (routed : List (StreamSection × StreamKey)) : Prop :=
  (routed.map Prod.snd).Nodup → ∀ before entry after reason,
    routed = before ++ entry :: after →
    (∀ earlier ∈ before, Consecutive earlier.1.blocks) →
    OffendsInside entry.1.blocks reason →
    (∀ earlier ∈ before, StartsAt ((log.stream earlier.2).length + 1) earlier.1.blocks) ∧
      FirstOffence ((log.stream entry.2).length + 1) entry.1.blocks reason

theorem Consecutive.follows (consecutive : Consecutive blocks) (starts : StartsAt next blocks) :
    Follows next blocks := by
  cases blocks with
  | nil => trivial
  | cons block blocks =>
    cases block with
    | corrupt => exact consecutive
    | event event =>
      refine ⟨starts, ?_⟩
      rw [← starts]
      exact consecutive

theorem Follows.startsAt (follows : Follows next blocks) : StartsAt next blocks := by
  cases blocks with
  | nil => trivial
  | cons block blocks =>
    cases block with
    | corrupt => trivial
    | event event => exact follows.1

/-- The first offence of blocks, or that there is none. -/
def Verdict (next : Nat) (blocks : List ImportBlock) : Option AbortReason → Prop
  | none => Follows next blocks
  | some reason => FirstOffence next blocks reason

theorem verdict_nil : Verdict next [] verdict ↔ verdict = none := by
  cases verdict with
  | none => exact iff_of_true trivial rfl
  | some reason => exact iff_of_false nofun nofun

theorem verdict_corrupt : Verdict next (.corrupt :: blocks) verdict ↔ verdict = some .corrupt := by
  cases verdict with
  | none => exact iff_of_false id nofun
  | some reason =>
    constructor
    · rintro ⟨⟩
      rfl
    · rintro ⟨⟩
      exact .corrupt

theorem verdict_due (due : event.version.toNat = next) :
    Verdict next (.event event :: blocks) verdict ↔ Verdict (next + 1) blocks verdict := by
  cases verdict with
  | none => exact and_iff_right due
  | some reason =>
    refine ⟨fun offence => ?_, .later due⟩
    cases offence with
    | mismatch gap => exact absurd due gap
    | later _ offence => exact offence

theorem verdict_gap (gap : event.version.toNat ≠ next) :
    Verdict next (.event event :: blocks) verdict ↔
      ∃ expected : Version, expected.toNat = next ∧
        verdict = some (.mismatch expected event.version) := by
  cases verdict with
  | none => exact iff_of_false (fun follows => gap follows.1) nofun
  | some reason =>
    constructor
    · intro offence
      cases offence with
      | mismatch _ isExpected => exact ⟨_, isExpected, rfl⟩
      | later due _ => exact absurd due gap
    · rintro ⟨expected, isExpected, ⟨⟩⟩
      exact .mismatch gap isExpected

/-- The verdict that a halt behind a version stands for. -/
def Halt.Means (stop : Version) (verdict : Option AbortReason) : Halt → Prop
  | .complete => verdict = none
  | .corrupt => verdict = some .corrupt
  | .gap got => ∃ expected : Version, expected.toNat = stop.toNat + 1 ∧
      verdict = some (.mismatch expected got)

theorem planBlocks_of_due (due : event.version.toNat = last.toNat + 1)
    (blocks : List ImportBlock) :
    planBlocks last (.event event :: blocks) =
      planBlocks event.version blocks >>= fun planned =>
        return (event.toPending :: planned.1, planned.2) := by
  rw [planBlocks, Version.next_eq_some.mpr due, okOr_some, ok_bind, if_neg (not_not.mpr rfl)]

theorem planBlocks_of_gap (gap : event.version.toNat ≠ last.toNat + 1)
    (blocks : List ImportBlock) :
    planBlocks last (.event event :: blocks) =
      okOr last.next .versionOverflow >>= fun _ => return ([], last, .gap event.version) := by
  unfold planBlocks
  cases isNext : last.next with
  | none => rfl
  | some next =>
    rw [okOr_some, ok_bind, if_pos]
    · rfl
    · rintro rfl
      exact gap (Version.next_eq_some.mp isNext)

/-- Planning stops at the first offence, counted from the last version, or at the end. -/
theorem planBlocks_means :
    (∃ tail stop halt, planBlocks last blocks = .ok (tail, stop, halt) ∧
        halt.Means stop verdict) ↔
      Verdict (last.toNat + 1) blocks verdict := by
  induction blocks generalizing last with
  | nil => simp [planBlocks, Halt.Means, verdict_nil]
  | cons block blocks step =>
    cases block with
    | corrupt => simp [planBlocks, Halt.Means, verdict_corrupt]
    | event event =>
      by_cases due : event.version.toNat = last.toNat + 1
      · rw [verdict_due due, ← due, ← step, planBlocks_of_due due]
        constructor
        · rintro ⟨_, stop, halt, planned, means⟩
          obtain ⟨⟨tail, _⟩, ran, built⟩ := bind_eq_ok.mp planned
          cases built
          exact ⟨tail, stop, halt, ran, means⟩
        · rintro ⟨tail, stop, halt, planned, means⟩
          exact ⟨_, stop, halt, bind_eq_ok.mpr ⟨_, planned, rfl⟩, means⟩
      · rw [verdict_gap due, planBlocks_of_gap due]
        constructor
        · rintro ⟨_, _, _, planned, means⟩
          obtain ⟨_, _, built⟩ := bind_eq_ok.mp planned
          cases built
          exact means
        · rintro ⟨expected, isExpected, isVerdict⟩
          rw [Version.next_eq_some.mpr isExpected]
          exact ⟨[], last, .gap event.version, rfl, expected, isExpected, isVerdict⟩

/-- The offence that blocks show by themselves, or that they are consecutive. -/
def Inside (blocks : List ImportBlock) : Option AbortReason → Prop
  | none => Consecutive blocks
  | some reason => OffendsInside blocks reason

/-- The verdict that the plan of a section stands for. -/
def SectionPlan.Means (verdict : Option AbortReason) : SectionPlan → Prop
  | .empty => verdict = none
  | .firstCorrupt => verdict = some .corrupt
  | .run plan => plan.halt.Means plan.last verdict

theorem planSection_means :
    (∃ plan, planSection entry = .ok plan ∧ plan.Means verdict) ↔ Inside entry.blocks verdict := by
  unfold planSection
  split
  next isNil =>
    rw [isNil]
    cases verdict <;> simp [SectionPlan.Means, Inside, Consecutive, OffendsInside]
  next blocks corrupt =>
    rw [corrupt]
    cases verdict <;> simp [SectionPlan.Means, Inside, Consecutive, OffendsInside]
  next event blocks begins =>
    have inside : Inside entry.blocks verdict ↔
        Verdict (event.version.toNat + 1) blocks verdict := by
      rw [begins]
      cases verdict <;> rfl
    rw [inside, ← planBlocks_means]
    constructor
    · rintro ⟨_, planned, means⟩
      obtain ⟨⟨tail, stop, halt⟩, ran, built⟩ := bind_eq_ok.mp planned
      cases built
      exact ⟨tail, stop, halt, ran, means⟩
    · rintro ⟨tail, stop, halt, ran, means⟩
      exact ⟨_, bind_eq_ok.mpr ⟨_, ran, rfl⟩, means⟩

/-- Planning a chunk is aborted by its first section or behind it. -/
theorem planChunk_cons_eq_aborted :
    (planChunk ((entry, target) :: others) : Except (ImportError AdapterError) _) =
        .error (.aborted stream reason) ↔
      ∃ plan, planSection entry = .ok plan ∧
        (target = stream ∧ plan.Means (some reason) ∨
          plan.Means none ∧ (planChunk others : Except (ImportError AdapterError) _) =
            .error (.aborted stream reason)) := by
  rw [planChunk]
  cases planSection entry with
  | error error =>
    cases error
    constructor
    · rintro ⟨⟩
    · rintro ⟨_, ⟨⟩, _⟩
  | ok plan =>
    have only : ∀ {holds : SectionPlan → Prop},
        (∃ found, (.ok plan : Except PlanError SectionPlan) = .ok found ∧ holds found) ↔
          holds plan := by
      simp
    rw [mapError_ok, ok_bind, only]
    cases plan with
    | empty => simp [SectionPlan.Means]
    | firstCorrupt => simp [SectionPlan.Means, eq_comm]
    | run run =>
      dsimp only [SectionPlan.Means]
      cases run.halt with
      | complete => simp [Halt.Means, bind_eq_error]
      | corrupt => simp [Halt.Means, eq_comm]
      | gap got =>
        dsimp only [Halt.Means]
        cases isNext : run.last.next with
        | none =>
          have last : ∀ expected : Version, expected.toNat ≠ run.last.toNat + 1 := by
            intro expected isExpected
            rw [Version.next_eq_some.mpr isExpected] at isNext
            cases isNext
          simp [last]
        | some expected =>
          have only : ∀ other : Version, other.toNat = run.last.toNat + 1 ↔ expected = other := by
            intro other
            rw [← Version.next_eq_some, isNext, Option.some_inj]
          simp [only, eq_comm]

/-- The first section that offends by itself, and its offence. -/
def FirstInside (routed : List (StreamSection × StreamKey)) (stream : StreamKey)
    (reason : AbortReason) : Prop :=
  ∃ before entry after,
    routed = before ++ (entry, stream) :: after ∧
    (∀ earlier ∈ before, Consecutive earlier.1.blocks) ∧
    OffendsInside entry.blocks reason

theorem firstInside_cons :
    FirstInside ((entry, target) :: others) stream reason ↔
      target = stream ∧ OffendsInside entry.blocks reason ∨
        Consecutive entry.blocks ∧ FirstInside others stream reason := by
  constructor
  · rintro ⟨before, found, after, split, earlier, offends⟩
    cases before with
    | nil =>
      cases split
      exact .inl ⟨rfl, offends⟩
    | cons first before =>
      cases split
      obtain ⟨consecutive, earlier⟩ := List.forall_mem_cons.mp earlier
      exact .inr ⟨consecutive, before, found, after, rfl, earlier, offends⟩
  · rintro (⟨rfl, offends⟩ | ⟨consecutive, before, found, after, rfl, earlier, offends⟩)
    · exact ⟨[], entry, others, rfl, List.forall_mem_nil _, offends⟩
    · exact ⟨(entry, target) :: before, found, after, rfl,
        List.forall_mem_cons.mpr ⟨consecutive, earlier⟩, offends⟩

/-- Planning a chunk is aborted for the first section that offends by itself, and only
for that. -/
theorem planChunk_aborted {routed : List (StreamSection × StreamKey)} :
    (planChunk routed : Except (ImportError AdapterError) _) =
        .error (.aborted stream reason) ↔
      FirstInside routed stream reason := by
  induction routed with
  | nil =>
    constructor
    · rintro ⟨⟩
    · rintro ⟨before, _, _, split, _⟩
      exact absurd split.symm (List.append_ne_nil_of_right_ne_nil _ (List.cons_ne_nil _ _))
  | cons routed others step =>
    obtain ⟨entry, target⟩ := routed
    have offends : OffendsInside entry.blocks reason ↔ _ :=
      (@planSection_means entry (some reason)).symm
    have consecutive : Consecutive entry.blocks ↔ _ := (@planSection_means entry none).symm
    rw [planChunk_cons_eq_aborted, firstInside_cons, ← step, offends, consecutive]
    constructor
    · rintro ⟨plan, planned, ⟨same, means⟩ | ⟨means, aborted⟩⟩
      · exact .inl ⟨same, plan, planned, means⟩
      · exact .inr ⟨⟨plan, planned, means⟩, aborted⟩
    · rintro (⟨same, plan, planned, means⟩ | ⟨⟨plan, planned, means⟩, aborted⟩)
      · exact ⟨plan, planned, .inl ⟨same, means⟩⟩
      · exact ⟨plan, planned, .inr ⟨means, aborted⟩⟩

theorem CompleteRuns.split {routed : List (StreamSection × StreamKey)}
    (complete : CompleteRuns routed (earlier ++ (target, run) :: later)) :
    ∃ before entry after, routed = before ++ (entry, target) :: after ∧
      CompleteRuns before earlier ∧ planSection entry = .ok (.run run) := by
  generalize isRuns : earlier ++ (target, run) :: later = runs at complete
  induction complete generalizing earlier with
  | nil => exact absurd isRuns (List.append_ne_nil_of_right_ne_nil _ (List.cons_ne_nil _ _))
  | skip isPlan _ step =>
    obtain ⟨before, entry, after, rfl, others, found⟩ := step isRuns
    exact ⟨_ :: before, entry, after, rfl, .skip isPlan others, found⟩
  | keep isPlan halt _ step =>
    cases earlier with
    | nil =>
      cases isRuns
      exact ⟨[], _, _, rfl, .nil, isPlan⟩
    | cons first earlier =>
      rw [List.cons_append, List.cons.injEq] at isRuns
      obtain ⟨rfl, isRuns⟩ := isRuns
      obtain ⟨before, entry, after, rfl, others, found⟩ := step isRuns
      exact ⟨_ :: before, entry, after, rfl, .keep isPlan halt others, found⟩

theorem CompleteRuns.follows {log : Log} {routed : List (StreamSection × StreamKey)}
    (complete : CompleteRuns routed runs)
    (heads : ∀ run ∈ runs, depth run.2.expectedVersion = (log.stream run.1).length) :
    ∀ checked ∈ routed, Follows ((log.stream checked.2).length + 1) checked.1.blocks := by
  induction complete with
  | nil => exact List.forall_mem_nil _
  | skip isPlan _ step =>
    have empty := planSection_eq_ok isPlan
    refine List.forall_mem_cons.mpr ⟨?_, step heads⟩
    dsimp only at empty ⊢
    rw [empty]
    trivial
  | keep isPlan halt _ step =>
    obtain ⟨head, heads⟩ := List.forall_mem_cons.mp heads
    refine List.forall_mem_cons.mpr ⟨?_, step heads⟩
    have plans := planSection_eq_ok isPlan
    have means : (SectionPlan.run _).Means none := (congrArg (Halt.Means _ none) halt).mpr rfl
    have consecutive : Consecutive _ := (@planSection_means _ none).mp ⟨_, isPlan, means⟩
    apply consecutive.follows
    obtain ⟨event, blocks, begins, isFirst⟩ := plans.begins
    rw [begins, ← head]
    exact (congrArg Version.toNat isFirst).trans plans.expected

/-- The first run that does not build on the head of its target. -/
def FirstConflict (log : Log) (writes : List PlannedAppend) (index : Nat)
    (actual : Option Version) : Prop :=
  ∃ earlier write later,
    writes = earlier ++ write :: later ∧
    earlier.length = index ∧
    (∀ other ∈ earlier, depth other.expectedVersion = (log.stream other.target).length) ∧
    depth write.expectedVersion ≠ (log.stream write.target).length ∧
    depth actual = (log.stream write.target).length

/-- A store that reports the first conflict of an atomic append. -/
def ReportsFirst (store : RawEventStore State AdapterError)
    (represents : State → Log → Prop) : Prop :=
  ∀ {state log writes}, represents state log →
    (store.atomicAppendMany writes).Ends state (fun _ _ => True) fun error _ =>
      ∀ index actual, error = .conflict index actual → FirstConflict log writes index actual

theorem firstConflict_of_checksHeads (checks : ChecksHeads log check)
    (failed : check start writes = .error (.conflict found actual)) :
    ∃ index, found = start + index ∧ FirstConflict log writes index actual := by
  induction writes generalizing start with
  | nil =>
    rw [checks.nil] at failed
    cases failed
  | cons write writes step =>
    have sameHead := checks.sameHead write.target write.expectedVersion
    rw [checks.cons] at failed
    by_cases head : UInt64.ofNat (log.stream write.target).length =
      rawHead write.expectedVersion
    · rw [rejectIf_of_not _ (not_not.mpr head), ok_bind] at failed
      obtain ⟨index, rfl, earlier, other, later, rfl, rfl, heads, differs, isActual⟩ := step failed
      exact ⟨earlier.length + 1, by omega, write :: earlier, other, later, rfl, rfl,
        List.forall_mem_cons.mpr ⟨sameHead.mp head, heads⟩, differs, isActual⟩
    · rw [rejectIf_of _ head] at failed
      cases failed
      refine ⟨0, rfl, [], write, writes, rfl, rfl, List.forall_mem_nil _,
        fun same => head (sameHead.mpr same), ?_⟩
      rw [depth, rawHead_new,
        UInt64.toNat_ofNat_of_lt' (checks.bounded write.target)]

/-- The failures of an atomic append that report a conflict. -/
def IsAtomicConflict : AtomicAppendError AdapterError → Prop
  | .conflict .. => True
  | _ => False

theorem firstConflict_of_avoids (avoids : Avoids IsAtomicConflict result)
    (failed : result = .error error) :
    ∀ index actual, error = .conflict index actual → FirstConflict log writes index actual := by
  rintro index actual rfl
  exact absurd trivial (avoids _ failed)

theorem inMemory_reportsFirst : ReportsFirst inMemoryStore InMemory.Represents := by
  intro inner log writes represents
  change (InMemory.atomicAppendMany writes).Ends inner _ _
  unfold InMemory.atomicAppendMany
  split
  next => exact ends_pure trivial
  next =>
    refine ends_ofResult_bind (fun _ => ?_) fun _ _ => ?_
    · exact firstConflict_of_avoids (avoids_mapError fun _ => id)
    refine ends_ofResult_bind (fun _ => ?_) fun _ _ => ?_
    · exact firstConflict_of_avoids (avoids_mapError fun _ => id)
    refine ends_get_bind (ends_ofResult_bind (fun error failed => ?_) fun _ _ => ?_)
    · rintro found actual rfl
      obtain ⟨index, isIndex, conflict⟩ :=
        firstConflict_of_checksHeads represents.checksHeads failed
      rw [Nat.zero_add] at isIndex
      exact isIndex ▸ conflict
    refine ends_ofResult_bind (fun _ => ?_) fun _ _ => trivial
    exact firstConflict_of_avoids (avoids_mapError fun _ => id)

theorem validateKeys_avoids : Avoids IsAtomicConflict (Fjall.validateKeys writes) := by
  induction writes with
  | nil => exact avoids_ok _
  | cons write writes step => exact (avoids_mapError fun _ => id).bind fun _ => step

theorem not_isAtomicConflict_atomicPlanErr (target : StreamKey) (failure : Fjall.PlanError) :
    ¬ IsAtomicConflict (Fjall.atomicPlanErr target failure) := by
  cases failure <;> exact id

theorem prepareRuns_avoids : Avoids IsAtomicConflict (Fjall.prepareRuns writes) := by
  induction writes with
  | nil => exact avoids_ok _
  | cons write writes step =>
    refine (avoids_mapError (not_isAtomicConflict_atomicPlanErr _)).bind fun _ => ?_
    exact step.bind fun _ => avoids_ok _

theorem stageRuns_avoids : Avoids IsAtomicConflict (Fjall.stageRuns tx globalSeq prepared) := by
  induction prepared generalizing tx globalSeq with
  | nil => exact avoids_ok _
  | cons first prepared step =>
    exact (avoids_mapError (not_isAtomicConflict_atomicPlanErr _)).bind fun _ => step

theorem writeAtomicRuns_avoids :
    Avoids IsAtomicConflict (Fjall.writeAtomicRuns tx firstTarget prepared) := by
  refine (avoids_mapError fun _ => id).bind fun _ => stageRuns_avoids.bind fun _ => ?_
  exact (avoids_okOr id).bind fun _ => avoids_ok _

theorem fjall_reportsFirst (mode : Fjall.AllIndex) :
    ReportsFirst fjallStore (Fjall.Represents mode) := by
  intro partitions log writes represents
  change (Fjall.atomicAppendMany writes).Ends partitions _ _
  cases writes with
  | nil => exact trivial
  | cons first rest =>
    unfold Fjall.atomicAppendMany
    refine ends_ofResult_bind (fun _ => ?_) fun _ _ => ?_
    · exact firstConflict_of_avoids (avoids_mapError fun _ => id)
    refine ends_ofResult_bind (fun _ => ?_) fun _ _ => ?_
    · exact firstConflict_of_avoids (avoids_mapError fun _ => id)
    refine ends_ofResult_bind (fun _ => ?_) fun _ _ => ?_
    · exact firstConflict_of_avoids validateKeys_avoids
    refine ends_ofResult_bind (fun _ => ?_) fun _ _ => ?_
    · exact firstConflict_of_avoids prepareRuns_avoids
    refine ends_get_bind (ends_ofResult_bind (fun error failed => ?_) fun _ _ => ?_)
    · rintro found actual rfl
      obtain ⟨index, isIndex, conflict⟩ :=
        firstConflict_of_checksHeads represents.checksHeads failed
      rw [Nat.zero_add] at isIndex
      exact isIndex ▸ conflict
    refine ends_ofResult_bind (fun _ => ?_) fun _ _ => trivial
    exact firstConflict_of_avoids writeAtomicRuns_avoids

section Reported

variable {store : RawEventStore State AdapterError} {represents : State → Log → Prop}
theorem commitRuns_eq_aborted
    (aborted : ((commitRuns store runs).exec state).1 = .error (.aborted stream reason)) :
    ∃ index actual,
      ((store.atomicAppendMany (appendsOf runs)).exec state).1 = .error (.conflict index actual) ∧
      (mapAtomicConflict (runs.map fun planned => planned.2.first) (appendsOf runs) index actual :
        ImportError AdapterError) = .aborted stream reason := by
  unfold commitRuns at aborted
  rw [exec_attempt_bind] at aborted
  unfold appendsOf
  cases answered : ((store.atomicAppendMany (runs.map fun planned =>
    planned.2.toAppend planned.1)).exec state).1 with
  | ok position =>
    rw [answered] at aborted
    cases aborted
  | error failure =>
    rw [answered] at aborted
    cases failure with
    | conflict index actual => exact ⟨index, actual, rfl, Except.error.inj aborted⟩
    | store error => cases aborted
    | invalidRoute error => cases aborted
    | invalidRun error => cases aborted

/-- The abort that a conflict at a run is mapped to. -/
theorem mapAtomicConflict_eq_aborted
    (mapped : (mapAtomicConflict ((earlier ++ planned :: later).map fun planned => planned.2.first)
      (appendsOf (earlier ++ planned :: later)) earlier.length actual :
        ImportError AdapterError) = .aborted stream reason) :
    stream = planned.1 ∧
      ∃ expected, expected.toNat = depth actual + 1 ∧
        reason = .mismatch expected planned.2.first := by
  have first : ((earlier ++ planned :: later).map fun planned => planned.2.first)[earlier.length]? =
      some planned.2.first := by
    simp
  have write : (appendsOf (earlier ++ planned :: later))[earlier.length]? =
      some (planned.2.toAppend planned.1) := by
    simp [appendsOf]
  unfold mapAtomicConflict at mapped
  rw [first, write, Option.some_or, Option.some_or] at mapped
  dsimp only at mapped
  split at mapped
  next expected follows =>
    cases mapped
    exact ⟨rfl, expected, following_eq_some.mp follows, rfl⟩
  next => cases mapped

/-- A refused commit reports the first section that misses the head of its target,
which is the first offender when all sections are consecutive. -/
theorem commitRuns_aborted (reports : ReportsFirst store represents)
    (related : represents state log) {routed : List (StreamSection × StreamKey)}
    {runs : List (StreamKey × PlannedRun)}
    (planned : (planChunk routed : Except (ImportError AdapterError) _) = .ok runs)
    (aborted : ((commitRuns store runs).exec state).1 = .error (.aborted stream reason)) :
    FirstOffender log routed stream reason := by
  obtain ⟨index, actual, refused, mapped⟩ := commitRuns_eq_aborted aborted
  obtain ⟨earlierWrites, write, laterWrites, areWrites, isIndex, heads, differs, isActual⟩ :=
    (@reports state log _ related).of_error refused index actual rfl
  obtain ⟨earlier, others, rfl, rfl, areOthers⟩ := List.map_eq_append_iff.mp areWrites
  obtain ⟨run, later, rfl, rfl, rfl⟩ := List.map_eq_cons_iff.mp areOthers
  rw [List.length_map] at isIndex
  subst isIndex
  obtain ⟨rfl, expected, isExpected, rfl⟩ := mapAtomicConflict_eq_aborted mapped
  obtain ⟨before, entry, after, rfl, complete, isRun⟩ := (planChunk_eq_ok.mp planned).split
  refine ⟨before, entry, after, rfl, complete.follows ?_, ?_⟩
  · intro other present
    exact heads _ (List.mem_map_of_mem present)
  · have plans : run.2.Plans entry.blocks := planSection_eq_ok isRun
    obtain ⟨event, blocks, begins, isFirst⟩ := plans.begins
    have firstVersion : event.version.toNat = depth run.2.expectedVersion + 1 :=
      (congrArg Version.toNat isFirst).trans plans.expected
    rw [begins, ← isFirst]
    refine .mismatch (fun same => differs ?_) (isExpected.trans (congrArg (· + 1) isActual))
    exact Nat.succ.inj (firstVersion.symm.trans same)

/-- Sections with different targets are all planned before anything is committed. -/
theorem exec_importWholeChunk
    (distinct : (sections.map fun entry => route entry.origin).Nodup) :
    ((importWholeChunk store sections route).exec state).1 =
      (planChunk (routed sections route) >>= fun runs =>
        ((commitRuns store runs).exec state).1) := by
  rw [importWholeChunk, exec_mapped_bind (routeSections_eq_ok.mpr ⟨distinct, rfl⟩),
    zip_targets]
  cases (planChunk (routed sections route) : Except (ImportError AdapterError) _) <;> rfl

/-- Every abort of an import of a whole chunk reports the first offender. -/
def AbortsAtFirst (store : RawEventStore State AdapterError) (state : State) (log : Log)
    (sections : List StreamSection) (route : Bytes → StreamKey) : Prop :=
  ∀ stream reason,
    ((importWholeChunk store sections route).exec state).1 = .error (.aborted stream reason) →
    FirstOffender log (routed sections route) stream reason

/-- A section is found in one place only if the targets are different. -/
theorem split_eq_of_nodup {routed : List (StreamSection × StreamKey)}
    (distinct : (routed.map Prod.snd).Nodup) (split : routed = before ++ (entry, target) :: after)
    (other : routed = earlier ++ (found, target) :: later) :
    before = earlier ∧ entry = found := by
  have here : (routed.map Prod.snd)[before.length]? = some target := by
    simp [split]
  have there : (routed.map Prod.snd)[earlier.length]? = some target := by
    simp [other]
  have within : before.length < (routed.map Prod.snd).length := by
    simp [split]
  have sameLength : before.length = earlier.length :=
    (List.getElem?_inj within distinct).mp (here.trans there.symm)
  obtain ⟨rfl, rest⟩ := List.append_inj (split.symm.trans other) sameLength
  cases rest
  exact ⟨rfl, rfl⟩

/-- The imports of a whole chunk that abort report the first offender if, and only if,
the heads come first. -/
theorem headsComeFirst_iff (reports : ReportsFirst store represents)
    (related : represents state log) :
    HeadsComeFirst log (routed sections route) ↔
      AbortsAtFirst store state log sections route := by
  have targets : (routed sections route).map Prod.snd =
      sections.map fun entry => route entry.origin := by
    rw [routed, List.map_map]
    rfl
  unfold HeadsComeFirst AbortsAtFirst
  rw [targets]
  by_cases distinct : (sections.map fun entry => route entry.origin).Nodup
  · rw [exec_importWholeChunk distinct]
    constructor
    · intro heads stream reason aborted
      rcases bind_eq_error.mp aborted with aborted | ⟨runs, planned, aborted⟩
      · obtain ⟨before, entry, after, split, earlier, offends⟩ := planChunk_aborted.mp aborted
        obtain ⟨starts, offence⟩ := heads distinct before _ after reason split earlier offends
        refine ⟨before, entry, after, split, ?_, offence⟩
        intro other present
        exact (earlier other present).follows (starts other present)
      · exact commitRuns_aborted reports related planned aborted
    · rintro first _ before ⟨entry, target⟩ after reason split earlier offends
      -- planning is aborted for this section, which is then the first offender
      have aborted : (planChunk (routed sections route) : Except (ImportError AdapterError) _) =
          .error (.aborted target reason) :=
        planChunk_aborted.mpr ⟨before, entry, after, split, earlier, offends⟩
      obtain ⟨others, found, later, isSplit, follows, offence⟩ :=
        first target reason (bind_eq_error.mpr (.inl aborted))
      obtain ⟨rfl, rfl⟩ := split_eq_of_nodup (targets ▸ distinct) split isSplit
      exact ⟨fun other present => (follows other present).startsAt, offence⟩
  · refine ⟨fun _ stream reason aborted => ?_, fun _ impossible => absurd impossible distinct⟩
    unfold importWholeChunk at aborted
    cases found : routeSections sections route with
    | ok found => exact absurd (routeSections_eq_ok.mp found).1 distinct
    | error error =>
      rw [found] at aborted
      cases aborted

end Reported

/-- In every state that calls lead to, the imports of a whole chunk into either store
report the first offender when they abort if, and only if, no section shows an offence
by itself while it or a section before it misses the head of its target. -/
theorem whole_chunk_abort_is_first_offender (calls : List Call) (sections : List StreamSection)
    (route : Bytes → StreamKey) :
    (HeadsComeFirst ((logMachine InMemory.limits).run calls) (routed sections route) ↔
        AbortsAtFirst inMemoryStore (InMemory.machine.run calls)
          ((logMachine InMemory.limits).run calls) sections route) ∧
      ∀ mode, HeadsComeFirst ((logMachine Fjall.limits).run calls) (routed sections route) ↔
        AbortsAtFirst fjallStore ((Fjall.machine mode).run calls)
          ((logMachine Fjall.limits).run calls) sections route :=
  ⟨headsComeFirst_iff inMemory_reportsFirst (InMemory.implements.refines.run calls),
    fun mode => headsComeFirst_iff (fjall_reportsFirst mode)
      ((Fjall.implements mode).refines.run calls)⟩

/-- An event of a version that a fresh stream does not begin with. -/
def lateEvent : PersistedEnvelope := { openingEvent with version := secondEvent.version }

/-- A section that begins too late, and one that is damaged. -/
def lateThenCorrupt : List StreamSection := [⟨[1], [.event lateEvent]⟩, ⟨[2], [.corrupt]⟩]

/-- The damaged section is reported when it comes first. -/
theorem corrupt_before_late_is_reported :
    HeadsComeFirst ((logMachine InMemory.limits).run []) (routed lateThenCorrupt.reverse id) ∧
      ((importWholeChunk inMemoryStore lateThenCorrupt.reverse id).exec
        (InMemory.machine.run [])).1 = .error (.aborted [2] .corrupt) ∧
      FirstOffender ((logMachine InMemory.limits).run []) (routed lateThenCorrupt.reverse id) [2]
        .corrupt := by
  have heads : HeadsComeFirst ((logMachine InMemory.limits).run [])
      (routed lateThenCorrupt.reverse id) := by
    intro _ before entry after reason split earlier offends
    cases before with
    | nil =>
      rw [← (List.cons.inj split).1] at offends ⊢
      cases offends
      exact ⟨List.forall_mem_nil _, .corrupt⟩
    | cons first before =>
      have consecutive := earlier first List.mem_cons_self
      rw [← (List.cons.inj split).1] at consecutive
      exact consecutive.elim
  exact ⟨heads, rfl,
    (whole_chunk_abort_is_first_offender [] lateThenCorrupt.reverse id).1.mp heads [2] .corrupt rfl⟩

/-- The import of the two sections into a fresh store reports the second one. -/
theorem late_before_corrupt_is_not_reported :
    ((importWholeChunk inMemoryStore lateThenCorrupt id).exec (InMemory.machine.run [])).1 =
        .error (.aborted [2] .corrupt) ∧
      FirstOffender ((logMachine InMemory.limits).run []) (routed lateThenCorrupt id) [1]
        (.mismatch .initial lateEvent.version) ∧
      ¬ FirstOffender ((logMachine InMemory.limits).run []) (routed lateThenCorrupt id) [2]
        .corrupt := by
  refine ⟨rfl, ?_, ?_⟩
  · exact ⟨[], _, _, rfl, List.forall_mem_nil _, .mismatch (by decide) rfl⟩
  · rintro ⟨before, entry, after, split, earlier, _⟩
    cases before with
    | nil => cases split
    | cons first before =>
      have follows := earlier first List.mem_cons_self
      rw [← (List.cons.inj split).1] at follows
      exact absurd follows.1 (by decide)

end Mnesis.Import
