import Mnesis.Postgres.Races

/-!
# Writers

The code of the two appends inserts only rows that its session may insert: those of
the events of its call, under the keys of their streams.  Each run begins next to a
version that was read as the head of its stream in the same transaction, and every
other row is next to the one before it.
-/

namespace Mnesis.Postgres

open Foundation Foundation.Program Kernel Store Database

variable {Session : Type} {db after : Database Session}
variable {wanted : StreamKey → PendingEnvelope → Prop}

/-- A session finds the key of a stream in its transaction. -/
def Finds (session : Session) (id : StreamKey) (number : Nat) (db : Database Session) : Prop :=
  ∀ tx, db.active session = some tx → ⟨number, id⟩ ∈ db.keys ++ tx.keys

/-- A stream has reached a version, and its key is found. -/
structure Knows (session : Session) (id : StreamKey) (number base : Nat)
    (db : Database Session) : Prop where
  based : ∀ tx, db.active session = some tx → db.Distinct tx →
    numbering.Based db.events (tx.stamp db.nextTxid) number base
  finds : Finds session id number db

/-- The transaction of a session has a version of a stream. -/
structure Wrote (session : Session) (id : StreamKey) (number version : Nat)
    (db : Database Session) : Prop where
  earlier : ∀ tx, db.active session = some tx →
    ∃ earlier ∈ tx.events, numbering.place earlier = (number, version)
  finds : Finds session id number db

/-- A stream had no key before, when a session looked for it. -/
def Unseen (id : StreamKey) (db : Database Session) : Prop :=
  ∃ seen : Database Session, seen.Sound ∧ id ∉ seen.keys.map KeyRow.value ∧
    seen.keys <+: db.keys ∧ numbering.Extends seen.events db.events

/-- The transaction of a session wrote nothing. -/
def Fresh (session : Session) (db : Database Session) : Prop :=
  ∀ tx, db.active session = some tx → tx = .new

/-- A property that nothing takes away from a session within its transaction. -/
def Stable (session : Session) (holds : Database Session → Prop) : Prop :=
  ∀ ⦃db after⦄, holds db → Follows session db after → holds after

theorem stable_true : Stable session fun _ => True := fun _ _ _ _ => trivial

theorem stable_finds (id : StreamKey) (number : Nat) : Stable session (Finds session id number) :=
  fun _ _ finds follows _ => follows.mem_keys finds

theorem stable_knows (id : StreamKey) (number base : Nat) :
    Stable session (Knows session id number base) := by
  refine fun db after knows follows => ⟨fun new isNew distinct => ?_,
    stable_finds id number knows.finds follows⟩
  obtain ⟨tx, isTx, stamp, keys, _⟩ := follows.own new isNew
  exact (knows.based tx isTx (distinct.mono follows.keys keys)).extend follows.events stamp

theorem stable_unseen (id : StreamKey) : Stable session (Unseen id) := by
  rintro db after ⟨seen, sound, absent, keys, events⟩ follows
  exact ⟨seen, sound, absent, keys.trans follows.keys, events.trans follows.events⟩

theorem Stable.and (stable : Stable session holds) (alsoStable : Stable session also) :
    Stable session fun db => holds db ∧ also db :=
  fun _ _ both follows => ⟨stable both.1 follows, alsoStable both.2 follows⟩

theorem Fresh.interfere (fresh : Fresh session db) (interferes : Interferes session db after) :
    Fresh session after := by
  intro tx active
  rcases interferes.own with same | gone
  · exact fresh tx (same.symm.trans active)
  · cases gone.symm.trans active

variable {id : StreamKey}

/-- A stream that had no key has no gap behind its beginning. -/
theorem Unseen.knows (unseen : Unseen id db) (finds : Finds session id number db) :
    Knows session id number 0 db := by
  obtain ⟨seen, sound, absent, keys, events⟩ := unseen
  refine ⟨fun tx active distinct => ⟨.inl rfl, events.solid ?_, ?_⟩, finds⟩
  · intro row present isStream
    obtain ⟨key, isKey, isNumber⟩ :=
      List.mem_map.mp (sound.constraints.eventsStreamIdFkey row present)
    have same : key = ⟨number, id⟩ := List.inj_on_of_nodup_map distinct
      (List.mem_append_left _ (keys.subset isKey)) (finds tx active) (isNumber.trans isStream)
    exact absurd (List.mem_map.mpr ⟨key, isKey, congrArg KeyRow.value same⟩) absent
  · intro row _ _ positive small
    exact absurd positive (Nat.not_lt.mpr small)

/-- The head that a fresh transaction reads is known. -/
theorem Fresh.knows (fresh : Fresh session db) (sound : db.Sound)
    (active : db.active session = some tx)
    (isHead : headOf (db.keys ++ tx.keys) (db.events ++ tx.events) id = some (number, version)) :
    Knows session id number (version.getD 0) db := by
  cases fresh tx active
  rw [Transaction.new, List.append_nil, List.append_nil] at isHead
  obtain ⟨key, isKey, isPair⟩ := Option.map_eq_some_iff.mp isHead
  obtain ⟨isNumber, isVersion⟩ := Prod.mk.inj isPair
  subst isNumber
  obtain ⟨present, rfl⟩ := find_value_eq_some isKey
  refine ⟨fun other isOther _ => ?_, fun _ _ => List.mem_append_left _ present⟩
  cases fresh other isOther
  have inStream {row : EventRow} (committed : row ∈ db.events)
      (isStream : row.streamId = key.number) :
      row.version ∈ (db.events.filter fun row => row.streamId = key.number).map EventRow.version :=
    List.mem_map_of_mem (List.mem_filter.mpr ⟨committed, decide_eq_true isStream⟩)
  refine ⟨?_, ?_, fun row committed _ _ _ => sound.assigned row committed⟩
  · cases version with
    | none => exact .inl rfl
    | some version =>
      obtain ⟨row, found, isRow⟩ := List.mem_map.mp (List.max?_mem isVersion)
      obtain ⟨committed, isStream⟩ := List.mem_filter.mp found
      exact .inr (List.mem_map.mpr ⟨row, committed, Prod.ext (of_decide_eq_true isStream) isRow⟩)
  -- no row is behind the head
  · intro row committed isStream next above below
    cases version with
    | none =>
      rw [List.max?_eq_none_iff] at isVersion
      exact absurd (inStream committed isStream) (isVersion ▸ List.not_mem_nil)
    | some version =>
      have bounded := (List.max?_eq_some_iff.mp isVersion).2 _ (inStream committed isStream)
      change version < next at above
      change next < row.version at below
      omega

theorem Fresh.unseen (fresh : Fresh session db) (sound : db.Sound)
    (active : db.active session = some tx)
    (isHead : headOf (db.keys ++ tx.keys) (db.events ++ tx.events) id = none) :
    Unseen id db := by
  cases fresh tx active
  rw [Transaction.new, List.append_nil, List.append_nil] at isHead
  refine ⟨db, sound, fun present => ?_, List.prefix_refl _, .refl _⟩
  obtain ⟨key, isKey, isValue⟩ := List.mem_map.mp present
  have notFound := List.find?_eq_none.mp (Option.map_eq_none_iff.mp isHead) key isKey
  exact notFound (decide_eq_true isValue)

theorem Knows.allowed (knows : Knows session id number base db)
    (next : row.version.toNat = base + 1) (isWanted : wanted id row) :
    Allowed session wanted (.insertEvent number row) db :=
  ⟨fun tx active distinct => ⟨base, next, .inl (knows.based tx active distinct)⟩, id, isWanted,
    knows.finds⟩

theorem Wrote.allowed (wrote : Wrote session id number base db)
    (next : row.version.toNat = base + 1) (isWanted : wanted id row) :
    Allowed session wanted (.insertEvent number row) db :=
  ⟨fun tx active _ => ⟨base, next, .inr (wrote.earlier tx active)⟩, id, isWanted, wrote.finds⟩

theorem headVersion_eq_ok (isHead : headVersion head id = .ok current) :
    depth current = (head.bind Prod.snd).getD 0 := by
  unfold headVersion at isHead
  cases isRaw : head.bind Prod.snd with
  | none =>
    rw [isRaw] at isHead
    cases isHead
    rfl
  | some raw =>
    rw [isRaw] at isHead
    obtain ⟨version, isVersion, isCurrent⟩ := bind_eq_ok.mp isHead
    cases isCurrent
    obtain ⟨number, isNumber, isNew⟩ := Option.bind_eq_some_iff.mp (okOr_eq_ok.mp isVersion)
    obtain ⟨fits, same⟩ := narrow_eq_some.mp isNumber
    subst same
    rw [← isNew]
    exact depth_ofDepth fits

theorem knows_of_head
    (knows : ∀ number version, head = some (number, version) →
      Knows session id number (version.getD 0) db)
    (reached : depth current = (head.bind Prod.snd).getD 0) (number : Nat)
    (isNumber : head.map Prod.fst = some number) :
    Knows session id number (depth current) db := by
  obtain ⟨found, rfl, rfl⟩ := Option.map_eq_some_iff.mp isNumber
  rw [reached]
  exact knows found.1 found.2 rfl

theorem depth_of_absent (unseen : head = none → Unseen id db)
    (reached : depth current = (head.bind Prod.snd).getD 0)
    (absent : head.map Prod.fst = none) :
    depth current = 0 ∧ Unseen id db := by
  rw [Option.map_eq_none_iff] at absent
  refine ⟨?_, unseen absent⟩
  rw [reached, absent]
  rfl

/-- A run whose stream has been looked up. -/
structure Ready (session : Session) (wanted : StreamKey → PendingEnvelope → Prop)
    (write : PlannedAppend) (key : Option Nat) (db : Database Session) : Prop where
  areWanted : ∀ row ∈ write.batch.toList, wanted write.target row
  numbered : write.batch.toList.map versionNumber =
    List.range' (depth write.expectedVersion + 1) write.batch.toList.length
  known : ∀ number, key = some number →
    Knows session write.target number (depth write.expectedVersion) db
  absent : key = none → depth write.expectedVersion = 0 ∧ Unseen write.target db

theorem stable_ready (write : PlannedAppend) (key : Option Nat) :
    Stable session (Ready session wanted write key) := by
  intro db after ready follows
  exact ⟨ready.areWanted, ready.numbered,
    fun number isKey => stable_knows _ _ _ (ready.known number isKey) follows,
    fun isKey => (ready.absent isKey).imp_right fun unseen => stable_unseen _ unseen follows⟩

/-- Runs whose streams have been looked up. -/
def AllReady (session : Session) (wanted : StreamKey → PendingEnvelope → Prop)
    (prepared : List (Nat × PlannedAppend × Option Nat)) (db : Database Session) : Prop :=
  ∀ item ∈ prepared, Ready session wanted item.2.1 item.2.2 db

theorem stable_allReady (prepared : List (Nat × PlannedAppend × Option Nat)) :
    Stable session (AllReady session wanted prepared) :=
  fun _ _ ready follows item present => stable_ready _ _ (ready item present) follows

variable [DecidableEq Session]

/-- What the code of a session owes to the others, and what it may assume.  Nothing
is assumed of a statement that failed. -/
def contract (session : Session) (wanted : StreamKey → PendingEnvelope → Prop) :
    Contract Unit Statement Statement.Answer (Database Session) where
  guard statement _ db := Allowed session wanted statement db
  issue _ db := db
  rely := Interferes session
  answer statement db answer after := db.Appending ∧ ∀ reply, answer = .ok reply →
    Executes session statement db reply after
  rely_trans := Interferes.trans

/-- Code that keeps to the contract, and what holds when it succeeds. -/
abbrev Ensures {Error α : Type} (session : Session) (wanted : StreamKey → PendingEnvelope → Prop)
    (post : α → Database Session → Prop) (code : Code Error α) (db : Database Session) : Prop :=
  Succeeds (contract session wanted) (fun value _ => post value) code () db

theorem ensures_query (statement : Statement) {post : statement.Reply → Database Session → Prop}
    (allowed : Allowed session wanted statement db)
    (delivers : ∀ {later reply after}, Interferes session db later → later.Appending →
      Executes session statement later reply after → post reply after) :
    Ensures session wanted post (query statement) db := by
  refine ⟨allowed, ?_⟩
  rintro later after answer interferes ⟨appending, executes⟩ reply isReply
  exact delivers interferes appending (executes reply isReply)

variable {holds : Database Session → Prop}

theorem ensures_execute (statement : Statement)
    (stable : Stable session holds) (known : holds db)
    (allowed : Allowed session wanted statement db)
    (started : statement ≠ .begin) :
    Ensures session wanted
      (fun reply after => holds after ∧ ∃ later, Executes session statement later reply after)
      (execute statement) db := by
  apply Succeeds.adapt
  apply ensures_query _ allowed
  intro later reply after interferes appending executes
  exact ⟨stable (stable known interferes.follows) (executes.follows appending started), later,
    executes⟩

theorem ensures_begin : Ensures session wanted (fun _ => Fresh session) (execute .begin) db := by
  apply Succeeds.adapt
  apply ensures_query .begin trivial
  intro later reply after interferes appending executes tx active
  cases executes
  rw [put_active_self] at active
  exact (Option.some.inj active).symm

/-- A session that read a head knows it. -/
theorem ensures_readHead (fresh : Fresh session db)
    (stable : Stable session holds) (known : holds db) (id : StreamKey) :
    Ensures session wanted
      (fun head after => Fresh session after ∧ holds after ∧
        (∀ number version, head = some (number, version) →
          Knows session id number (version.getD 0) after) ∧
        (head = none → Unseen id after))
      (execute (.readHead id)) db := by
  apply Succeeds.adapt
  apply ensures_query (.readHead id) trivial
  intro later reply after interferes appending executes
  have laterFresh := fresh.interfere interferes
  have laterKnown := stable known interferes.follows
  cases executes with
  | readHead id active =>
    exact ⟨laterFresh, laterKnown,
      fun number version isHead => laterFresh.knows appending.sound active isHead,
      fun isHead => laterFresh.unseen appending.sound active isHead⟩

/-- A stream that was not seen begins at version one. -/
theorem ensures_createKey (stable : Stable session holds) (known : holds db)
    (unseen : Unseen id db) :
    Ensures session wanted (fun number after => holds after ∧ Knows session id number 0 after)
      (createKey id) db := by
  have stable := stable.and (stable_unseen id)
  apply Succeeds.bind
  refine (ensures_execute (.insertKey id) stable ⟨known, unseen⟩ trivial (by simp)).mono ?_
  rintro (found : Option Nat) ⟨⟩ after ⟨⟨known, unseen⟩, later, executes⟩
  cases found with
  | some number =>
    have finds : Finds session id number after := by
      intro tx isTx
      cases executes with
      | insertKey number id identifies active =>
        rw [put_active_self] at isTx
        cases isTx
        simp [Transaction.addKey]
    exact succeeds_pure ⟨known, unseen.knows finds⟩
  | none =>
    apply Succeeds.bind
    refine (ensures_execute (.readKey id) stable ⟨known, unseen⟩ trivial (by simp)).mono ?_
    rintro found ⟨⟩ after ⟨⟨known, unseen⟩, later, executes⟩
    refine succeeds_ofExcept fun number isNumber => ⟨known, unseen.knows ?_⟩
    intro tx isTx
    cases executes with
    | readKey id active =>
      cases active.symm.trans isTx
      obtain ⟨key, isKey, rfl⟩ := Option.map_eq_some_iff.mp (okOr_eq_ok.mp isNumber)
      obtain ⟨present, rfl⟩ := find_value_eq_some isKey
      exact present

theorem ensures_keyFor (stable : Stable session holds) (known : holds db) (id : StreamKey)
    (knows : ∀ number, key = some number → Knows session id number base db)
    (absent : key = none → base = 0 ∧ Unseen id db) :
    Ensures session wanted (fun number after => holds after ∧ Knows session id number base after)
      (keyFor id key) db := by
  cases key with
  | some number => exact succeeds_pure ⟨known, knows number rfl⟩
  | none =>
    obtain ⟨rfl, unseen⟩ := absent rfl
    exact ensures_createKey stable known unseen

/-- A row is written next to what its session knows. -/
theorem ensures_insertOne (stable : Stable session holds)
    (known : holds db) (finds : Finds session id number db)
    (allowed : Allowed session wanted (.insertEvent number row) db) :
    Ensures session wanted
      (fun _ after => holds after ∧ Wrote session id number row.version.toNat after)
      (insertOne id number row) db := by
  have inserted : Ensures session wanted
      (fun _ after => holds after ∧ Wrote session id number row.version.toNat after)
      (execute (.insertEvent number row)) db := by
    apply Succeeds.adapt
    apply ensures_query _ allowed
    intro later reply after interferes appending executes
    have follows := interferes.follows.trans (executes.follows appending (by simp))
    refine ⟨stable known follows, ?_, stable_finds id number finds follows⟩
    intro tx active
    cases executes with
    | insertEvent identifies isActive identified checked increases =>
      rw [put_active_self] at active
      cases active
      exact ⟨_, List.mem_append_right _ (List.mem_singleton.mpr rfl), rfl⟩
  apply Succeeds.bind
  refine inserted.mono ?_
  rintro ⟨globalSeq, txid⟩ ⟨⟩ after wrote
  apply Succeeds.bind
  refine succeeds_ofExcept fun seq _ => ?_
  apply Succeeds.bind
  refine succeeds_ofExcept fun txid _ => ?_
  exact succeeds_pure wrote

theorem ensures_insertRest (stable : Stable session holds)
    (known : holds db) (wrote : Wrote session id number base db)
    (assigned : Nat × Nat) (areWanted : ∀ row ∈ rows, wanted id row)
    (numbered : rows.map versionNumber = List.range' (base + 1) rows.length) :
    Ensures session wanted (fun _ => holds) (insertRest id number assigned rows) db := by
  induction rows generalizing db base assigned with
  | nil => exact succeeds_pure known
  | cons row rows rest =>
    rw [List.map_cons, List.length_cons, List.range'_succ] at numbered
    obtain ⟨isNext, numbered⟩ := List.cons.inj numbered
    obtain ⟨isWanted, areWanted⟩ := List.forall_mem_cons.mp areWanted
    apply Succeeds.bind
    refine (ensures_insertOne stable known wrote.finds (wrote.allowed isNext isWanted)).mono ?_
    rintro assigned ⟨⟩ after ⟨known, wrote⟩
    rw [show row.version.toNat = base + 1 from isNext] at wrote
    exact rest known wrote assigned areWanted numbered

/-- A run is written row by row. -/
theorem ensures_insertRun (stable : Stable session holds)
    (known : holds db) (knows : Knows session id number base db)
    (areWanted : ∀ row ∈ envelopes.toList, wanted id row)
    (numbered : envelopes.toList.map versionNumber =
      List.range' (base + 1) envelopes.toList.length) :
    Ensures session wanted (fun _ => holds) (insertRun id number envelopes) db := by
  rw [PendingBatch.toList, List.map_cons, List.length_cons, List.range'_succ] at numbered
  obtain ⟨isNext, numbered⟩ := List.cons.inj numbered
  obtain ⟨isWanted, areWanted⟩ := List.forall_mem_cons.mp areWanted
  apply Succeeds.bind
  refine (ensures_insertOne stable known knows.finds (knows.allowed isNext isWanted)).mono ?_
  rintro assigned ⟨⟩ after ⟨known, wrote⟩
  rw [show envelopes.first.version.toNat = base + 1 from isNext] at wrote
  exact ensures_insertRest stable known wrote assigned areWanted numbered

theorem ensures_durableCommit : Ensures session wanted (fun _ _ => True) durableCommit db := by
  apply Succeeds.bind
  refine (ensures_execute .setConstraints stable_true trivial trivial (by simp)).mono ?_
  rintro _ ⟨⟩ later _
  apply Succeeds.bind
  refine (ensures_execute .durabilitySetting stable_true trivial trivial (by simp)).mono ?_
  rintro (setting : Option String) ⟨⟩ after _
  cases setting with
  | some setting => exact succeeds_throw _
  | none =>
    apply Succeeds.adapt
    exact ensures_query .commit trivial fun _ _ _ => trivial

/-- An append sends only statements that it may send. -/
theorem ensures_append
    (areWanted : validateSizes id limits envelopes.toList = .ok () →
      ∀ envelope ∈ envelopes.toList, wanted id envelope)
    (history : History) (expectedVersion : Option Version) (db : Database Session) :
    Ensures session wanted (fun _ _ => True) (append limits history id expectedVersion envelopes)
      db := by
  apply Succeeds.bind
  refine succeeds_ofExcept fun _ valid => ?_
  have areWanted := areWanted (mapError_eq_ok.mp valid)
  apply Succeeds.bind
  refine (ensures_begin.adapt _).mono ?_
  rintro _ ⟨⟩ db fresh
  apply Succeeds.bind
  refine ((ensures_readHead fresh stable_true trivial id).adapt _).mono ?_
  rintro (head : Head) ⟨⟩ db ⟨_, _, knows, unseen⟩
  apply Succeeds.bind
  refine succeeds_ofExcept fun current isCurrent => ?_
  have reached := headVersion_eq_ok (mapError_eq_ok.mp isCurrent)
  apply Succeeds.bind
  refine succeeds_ofExcept fun _ valid => ?_
  have numbered := (validateAppendVersions_eq_ok.mp (mapError_eq_ok.mp valid)).2
  apply Succeeds.bind
  refine ((ensures_keyFor stable_true trivial id (knows_of_head knows reached)
    (depth_of_absent unseen reached)).adapt _).mono ?_
  rintro number ⟨⟩ db ⟨_, knows⟩
  apply Succeeds.bind
  refine ((ensures_insertRun stable_true trivial knows areWanted numbered).adapt _).mono ?_
  rintro assigned ⟨⟩ db _
  apply Succeeds.bind
  refine (ensures_durableCommit.adapt _).mono ?_
  rintro _ ⟨⟩ db _
  exact succeeds_pure trivial

theorem ensures_prepare (fresh : Fresh session db)
    (stable : Stable session holds) (known : holds db) (index : Nat) {write : PlannedAppend}
    (areWanted : ∀ row ∈ write.batch.toList, wanted write.target row)
    (numbered : write.batch.toList.map versionNumber =
      List.range' (depth write.expectedVersion + 1) write.batch.toList.length) :
    Ensures session wanted
      (fun key after => Fresh session after ∧ holds after ∧ Ready session wanted write key after)
      (prepare index write) db := by
  apply Succeeds.bind
  refine ((ensures_readHead fresh stable known write.target).adapt _).mono ?_
  rintro (head : Head) ⟨⟩ db ⟨fresh, known, knows, unseen⟩
  apply Succeeds.bind
  refine succeeds_ofExcept fun actual isActual => ?_
  have reached := headVersion_eq_ok (mapError_eq_ok.mp isActual)
  by_cases same : actual = write.expectedVersion
  · subst same
    simp only [ne_eq, not_true_eq_false, if_false]
    exact succeeds_pure ⟨fresh, known, areWanted, numbered, knows_of_head knows reached,
      depth_of_absent unseen reached⟩
  · simp only [ne_eq, same, not_false_eq_true, if_true]
    apply Succeeds.bind
    exact succeeds_throw _

/-- The heads of all runs are read before any row is written. -/
theorem ensures_prepareAll (fresh : Fresh session db)
    (stable : Stable session holds) (known : holds db) (index : Nat)
    (areWanted : ∀ write ∈ writes, ∀ row ∈ write.batch.toList, wanted write.target row)
    (numbered : ∀ write ∈ writes, write.batch.toList.map versionNumber =
      List.range' (depth write.expectedVersion + 1) write.batch.toList.length) :
    Ensures session wanted
      (fun prepared after => holds after ∧ AllReady session wanted prepared after)
      (prepareAll index writes) db := by
  induction writes generalizing db holds index with
  | nil => exact succeeds_pure ⟨known, fun _ absent => by cases absent⟩
  | cons write writes rest =>
    obtain ⟨isNumbered, numbered⟩ := List.forall_mem_cons.mp numbered
    obtain ⟨isWanted, areWanted⟩ := List.forall_mem_cons.mp areWanted
    apply Succeeds.bind
    refine (ensures_prepare fresh stable known index isWanted isNumbered).mono ?_
    rintro key ⟨⟩ db ⟨fresh, known, ready⟩
    apply Succeeds.bind
    -- what is known of this run is kept while the others are looked up
    refine (rest fresh (stable.and (stable_ready write key)) ⟨known, ready⟩ (index + 1)
      areWanted numbered).mono ?_
    rintro prepared ⟨⟩ db ⟨⟨known, ready⟩, others⟩
    exact succeeds_pure ⟨known, List.forall_mem_cons.mpr ⟨ready, others⟩⟩

theorem ensures_insert (stable : Stable session holds) (known : holds db) {write : PlannedAppend}
    (ready : Ready session wanted write key db) :
    Ensures session wanted (fun _ => holds) (insert write key) db := by
  apply Succeeds.bind
  refine (ensures_keyFor stable known write.target ready.known ready.absent).mono ?_
  rintro number ⟨⟩ db ⟨known, knows⟩
  exact ensures_insertRun stable known knows ready.areWanted ready.numbered

theorem ensures_insertAll (assigned : Nat × Nat) (ready : AllReady session wanted prepared db) :
    Ensures session wanted (fun _ _ => True) (insertAll assigned prepared) db := by
  induction prepared generalizing db assigned with
  | nil => exact succeeds_pure trivial
  | cons item prepared rest =>
    obtain ⟨isReady, others⟩ := List.forall_mem_cons.mp ready
    apply Succeeds.bind
    refine ((ensures_insert (stable_allReady prepared) others isReady).adapt _).mono ?_
    rintro assigned ⟨⟩ db others
    exact rest assigned others

theorem safe_rejected (index : Nat) (write : PlannedAppend) (error : PostgresError) :
    Safe (contract session wanted) (fun _ _ _ => True) (rejected index write error) () db := by
  have observed (db : Database Session) : Ensures session wanted (fun _ _ => True)
      (do
        let head ← execute (.observeHead write.target)
        MonadExcept.ofExcept (headVersion head write.target) :
          Code PostgresError (Option Version)) db := by
    apply Succeeds.bind
    refine (ensures_execute (.observeHead write.target) stable_true trivial trivial
      (by simp)).mono ?_
    rintro head ⟨⟩ db _
    exact succeeds_ofExcept fun _ _ => trivial
  unfold rejected
  split
  · split
    · rw [safe_bind]
      refine ⟨trivial, ?_⟩
      intro later after answer interferes answered
      cases answer with
      | error failure => exact trivial
      | ok reply =>
        refine (safe_bind _ _ _ _).mpr (Safe.mono (observed after) ?_)
        intro result state world _
        split <;> trivial
    · exact trivial
  · exact trivial

/-- So does an atomic append. -/
theorem ensures_atomicAppendMany {limits : Limits}
    (areWanted : (∀ write ∈ writes, validateSizes write.target limits write.batch.toList = .ok ()) →
      ∀ write ∈ writes, ∀ row ∈ write.batch.toList, wanted write.target row)
    (history : History) (db : Database Session) :
    Ensures session wanted (fun _ _ => True) (atomicAppendMany limits history writes) db := by
  apply Succeeds.bind
  refine succeeds_ofExcept fun _ _ => ?_
  apply Succeeds.bind
  refine succeeds_ofExcept fun _ valid => ?_
  have numbered := validateAtomicRuns_eq_ok.mp (mapError_eq_ok.mp valid)
  apply Succeeds.bind
  refine succeeds_ofExcept fun _ valid => ?_
  have areWanted := areWanted (forM_eq_ok.mp (mapError_eq_ok.mp valid))
  cases writes with
  | nil => exact succeeds_pure trivial
  | cons first tail =>
    obtain ⟨isWanted, areWanted⟩ := List.forall_mem_cons.mp areWanted
    obtain ⟨isNumbered, numbered⟩ := List.forall_mem_cons.mp numbered
    apply Succeeds.bind
    refine (ensures_begin.adapt _).mono ?_
    rintro _ ⟨⟩ db fresh
    apply Succeeds.bind
    refine (ensures_prepare fresh stable_true trivial 0 isWanted isNumbered).mono ?_
    rintro key ⟨⟩ db ⟨fresh, _, ready⟩
    apply Succeeds.bind
    refine (ensures_prepareAll fresh (stable_ready first key) ready 1 areWanted numbered).mono ?_
    rintro prepared ⟨⟩ db ⟨ready, others⟩
    have staged : Ensures session wanted (fun _ _ => True)
        (do
          let assigned ← ExceptT.adapt (fun error => (0, first, error)) (insert first key)
          insertAll assigned prepared : Code (Nat × PlannedAppend × PostgresError) _) db := by
      apply Succeeds.bind
      refine ((ensures_insert (stable_allReady prepared) others ready).adapt _).mono ?_
      rintro assigned ⟨⟩ db others
      exact ensures_insertAll assigned others
    apply Succeeds.bind
    refine (safe_run_lift _ _ _).mpr (Safe.mono staged ?_)
    rintro result ⟨⟩ db _ _ ⟨⟩
    cases result with
    | ok assigned =>
      apply Succeeds.bind
      refine (ensures_durableCommit.adapt _).mono ?_
      rintro _ ⟨⟩ db _
      exact succeeds_pure trivial
    | error failure =>
      apply Succeeds.bind
      refine (safe_run_lift _ _ _).mpr (Safe.mono (safe_rejected _ _ _) ?_)
      rintro _ ⟨⟩ db _ _ _
      exact succeeds_throw _

end Mnesis.Postgres
