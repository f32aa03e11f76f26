import Mnesis.Command.Engine

/-!
# Acceptance logs

The meaning of a record stream: a list of acceptance records, each of which
extends the ones before it.  Rows represent a log when they decode to it one by
one, and loading them yields a replay state that reflects the log.
-/

namespace Mnesis.Command

open Foundation Kernel Store

variable {P : Processor}

/-- The facts of a log in order. -/
def facts (log : List P.Record) : List P.domain.Event :=
  log.flatMap Record.facts

/-- The domain state that the facts of a log fold to. -/
def domainState (log : List P.Record) : P.domain.State :=
  (facts log).foldl P.domain.apply P.domain.initial

/-- The decision function returns these facts for a command. -/
def Decides (state : P.domain.State) (command : P.C) (decidedFacts : List P.domain.Event) : Prop :=
  ∃ decided, P.handle state command = .ok decided ∧
    decidedFacts = (decided.map Events.toList).getD []

/-- A record continues a log: its request is new and was made at the end of the
log, its receipt names its own position, and its facts are the decision on the
state of the log. -/
structure Extends (log : List P.Record) (record : P.Record) : Prop where
  fresh : ∀ earlier ∈ log, earlier.request.id ≠ record.request.id
  room : log.length < maxAccepted
  base : depth record.request.expected = log.length
  version : record.receipt.version.toNat = log.length + 1
  identity : record.receipt.id = record.request.id
  count : record.receipt.events = record.facts.length
  decided : Decides (domainState log) record.request.command record.facts
  withinLimit : (facts log).length + record.facts.length ≤ P.domain.maxRehydrationEvents

/-- Logs in which every record continues the ones before it. -/
inductive Accepted : List P.Record → Prop
  | nil : Accepted []
  | snoc
      {log : List P.Record}
      {record : P.Record}
      (earlier : Accepted log)
      (extending : Extends log record) :
      Accepted (log ++ [record])

@[simp] theorem facts_snoc (log : List P.Record) (record : P.Record) :
    facts (log ++ [record]) = facts log ++ record.facts := by
  simp [facts]

theorem domainState_snoc (log : List P.Record) (record : P.Record) :
    domainState (log ++ [record]) = record.facts.foldl P.domain.apply (domainState log) := by
  rw [domainState, facts_snoc, List.foldl_append]
  rfl

theorem Decides.length_le
    {decidedFacts : List P.domain.Event} (decides : Decides state command decidedFacts) :
    decidedFacts.length ≤ P.N + 1 := by
  obtain ⟨decided, _, rfl⟩ := decides
  cases decided with
  | none => simp
  | some events =>
    have capacity := events.capacity
    simp only [Option.map_some, Option.getD_some, Events.length_toList, Events.len]
    omega

namespace Accepted

theorem length_le (accepted : Accepted log) : log.length ≤ maxAccepted := by
  cases accepted with
  | nil => exact Nat.zero_le _
  | snoc earlier extending =>
    have room := extending.room
    rw [List.length_append, List.length_singleton]
    omega

theorem nodup_ids {log : List P.Record} (accepted : Accepted log) :
    (log.map fun record => record.request.id).Nodup := by
  induction accepted with
  | nil => exact List.nodup_nil
  | snoc earlier extending distinct =>
    rw [List.map_append, List.nodup_append]
    refine ⟨distinct, by simp, ?_⟩
    intro id earlierId id' newId
    rw [List.mem_map] at earlierId
    obtain ⟨record, present, rfl⟩ := earlierId
    rw [List.map_singleton, List.mem_singleton] at newId
    rw [newId]
    exact extending.fresh record present

theorem of_prefix (accepted : Accepted log) (isPrefix : shorter <+: log) : Accepted shorter := by
  induction accepted with
  | nil =>
    rw [List.prefix_nil] at isPrefix
    rw [isPrefix]
    exact .nil
  | snoc earlier extending shorterAccepted =>
    rcases List.prefix_concat_iff.mp isPrefix with whole | proper
    · rw [whole]
      exact .snoc earlier extending
    · exact shorterAccepted proper

theorem extends_of_append (accepted : Accepted (log ++ record :: rest)) : Extends log record := by
  have shorter : Accepted (log ++ [record]) := accepted.of_prefix ⟨rest, by simp⟩
  generalize whole : log ++ [record] = longer at shorter
  cases shorter with
  | nil => exact absurd whole (List.append_ne_nil_of_right_ne_nil _ (by simp))
  | snoc earlier extending =>
    obtain ⟨rfl, sameRecord⟩ := List.append_inj' whole rfl
    rw [List.singleton_inj] at sameRecord
    rw [sameRecord]
    exact extending

theorem extends_of_get (accepted : Accepted log) (index : Nat) (inside : index < log.length) :
    Extends (log.take index) log[index] := by
  rw [← List.take_append_drop index log, List.drop_eq_getElem_cons inside] at accepted
  exact accepted.extends_of_append

theorem eq_of_id_eq {log : List P.Record} (accepted : Accepted log)
    (leftPresent : left ∈ log) (rightPresent : right ∈ log)
    (sameId : left.request.id = right.request.id) :
    left = right :=
  List.inj_on_of_nodup_map accepted.nodup_ids leftPresent rightPresent sameId

end Accepted

/-- What the replay state of an accepted log holds. -/
structure Reflects (log : List P.Record) (state : State P) : Prop where
  domain : state.domain = domainState log
  factCount : state.facts = (facts log).length
  intact : state.integrity = true
  size : state.receipts.keys.length = log.length
  lookup : ∀ id, state.receipts.lookup id =
    (log.find? fun record => record.request.id = id).map fun record =>
      (record.request, record.receipt)

theorem reflects_initial : Reflects [] (State.initial P) where
  domain := rfl
  factCount := rfl
  intact := rfl
  size := rfl
  lookup _ := rfl

namespace Reflects

variable {log : List P.Record} {state : State P}

section

variable (reflects : Reflects log state)
include reflects

theorem mem_receipts_iff (id : P.I) :
    id ∈ state.receipts ↔ ∃ record ∈ log, record.request.id = id := by
  rw [← AList.lookup_isSome, reflects.lookup, Option.isSome_map]
  simp

theorem receipt_eq_some (found : state.receipt request = .ok (some receipt)) :
    ∃ record ∈ log, record.request = request ∧ record.receipt = receipt := by
  unfold State.receipt at found
  rw [reflects.lookup] at found
  cases search : log.find? fun record => record.request.id = request.id with
  | none => simp [search] at found
  | some record =>
    simp only [search, Option.map_some] at found
    split at found
    next same =>
      cases found
      exact ⟨record, List.mem_of_find?_eq_some search, same, rfl⟩
    next different => cases found

theorem receipt_of_mem (accepted : Accepted log) (present : record ∈ log) :
    state.receipt record.request = .ok (some record.receipt) := by
  have search : (log.find? fun other => other.request.id = record.request.id) = some record := by
    cases found : log.find? fun other => other.request.id = record.request.id with
    | none =>
      exact absurd (decide_eq_true rfl) (List.find?_eq_none.mp found record present)
    | some other =>
      have sameId := List.find?_some found
      rw [accepted.eq_of_id_eq (List.mem_of_find?_eq_some found) present (of_decide_eq_true sameId)]
  rw [State.receipt, reflects.lookup, search]
  simp

theorem receipt_eq_none (missing : state.receipt request = .ok none) :
    ∀ record ∈ log, record.request.id ≠ request.id := by
  unfold State.receipt at missing
  rw [reflects.lookup] at missing
  cases search : log.find? fun record => record.request.id = request.id with
  | none => simpa using search
  | some record =>
    simp only [search, Option.map_some] at missing
    split at missing <;> cases missing

theorem receipt_eq_mismatch (clash : state.receipt request = .error error) :
    ∃ record ∈ log, record.request.id = request.id ∧ record.request ≠ request := by
  unfold State.receipt at clash
  rw [reflects.lookup] at clash
  cases search : log.find? fun record => record.request.id = request.id with
  | none => simp [search] at clash
  | some record =>
    have sameId := List.find?_some search
    simp only [search, Option.map_some] at clash
    split at clash
    next same => cases clash
    next different =>
      exact ⟨record, List.mem_of_find?_eq_some search, of_decide_eq_true sameId, different⟩

theorem original_eq_some {id : P.I} (found : state.original id = some request) :
    ∃ record ∈ log, record.request = request ∧ request.id = id := by
  unfold State.original at found
  rw [reflects.lookup] at found
  cases search : log.find? fun record => record.request.id = id with
  | none => simp [search] at found
  | some record =>
    have sameId := List.find?_some search
    simp only [search, Option.map_some, Option.some.injEq] at found
    subst found
    exact ⟨record, List.mem_of_find?_eq_some search, rfl, of_decide_eq_true sameId⟩

theorem original_eq_none {id : P.I} (missing : state.original id = none) :
    ∀ record ∈ log, record.request.id ≠ id := by
  unfold State.original at missing
  rw [reflects.lookup] at missing
  simpa using missing

theorem total_eq_some (extending : Extends log record) :
    state.total record.facts.length = some (facts (log ++ [record])).length := by
  have short := extending.decided.length_le
  have within := extending.withinLimit
  have bounded := P.domain.maxRehydrationEvents_lt
  have tailFits : ¬ (1 ≤ record.facts.length ∧ record.facts.length - 1 > P.N) := by
    omega
  rw [State.total, if_neg tailFits, reflects.factCount, if_pos ⟨by omega, within⟩,
    facts_snoc, List.length_append]

/-- A state that reflects a log reflects its extension. -/
theorem apply (extending : Extends log record) :
    Reflects (log ++ [record]) (state.apply record) := by
  have absent : record.request.id ∉ state.receipts := by
    rw [reflects.mem_receipts_iff]
    rintro ⟨earlier, present, sameId⟩
    exact extending.fresh earlier present sameId
  have proceeds : ¬ (state.integrity = false ∨ record.request.id ∈ state.receipts) := by
    simp [reflects.intact, absent]
  have applied : state.apply record =
      { state with
        domain := record.facts.foldl P.domain.apply state.domain
        facts := (facts (log ++ [record])).length
        receipts := state.receipts.insert record.request.id (record.request, record.receipt) } := by
    rw [State.apply, if_neg proceeds, reflects.total_eq_some extending]
  rw [applied]
  refine ⟨?_, rfl, reflects.intact, ?_, ?_⟩
  · rw [domainState_snoc, ← reflects.domain]
  · rw [AList.keys_insert, List.length_cons, List.erase_of_not_mem absent,
      reflects.size, List.length_append, List.length_singleton]
  · intro id
    rw [List.find?_append]
    by_cases sameId : record.request.id = id
    · subst sameId
      have missing : (log.find? fun earlier =>
          earlier.request.id = record.request.id) = none := by
        simpa using extending.fresh
      rw [AList.lookup_insert, missing]
      simp
    · rw [AList.lookup_insert_ne (Ne.symm sameId), reflects.lookup]
      simp [sameId]

end

end Reflects

/-- The rows of a stream represent an accepted log. -/
structure Represents (rows : List PendingEnvelope) (log : List P.Record) : Prop where
  accepted : Accepted log
  decodes : List.Forall₂ (fun row record => decode row = .ok record) rows log

/-- What loading the rows of a log yields. -/
structure Loaded (log : List P.Record) (root : AggregateRoot (Adapted P)) : Prop where
  state : ∃ state : State P, root.state = .ok state ∧ Reflects log state
  version : depth root.version = log.length
  replayed : root.replayedEvents = log.length

namespace Represents

variable {log other : List P.Record}

theorem nil : Represents [] ([] : List P.Record) :=
  ⟨.nil, .nil⟩

section

variable (represents : Represents rows log)
include represents

theorem length_eq : rows.length = log.length :=
  represents.decodes.length_eq

theorem snoc (decoded : decode row = .ok record) (extending : Extends log record) :
    Represents (rows ++ [row]) (log ++ [record]) :=
  ⟨.snoc represents.accepted extending, List.rel_append represents.decodes (.cons decoded .nil)⟩

theorem of_prefix (isPrefix : shorter <+: rows) : Represents shorter (log.take shorter.length) := by
  refine ⟨represents.accepted.of_prefix (List.take_prefix _ _), ?_⟩
  have matching := List.forall₂_take shorter.length represents.decodes
  rwa [← List.prefix_iff_eq_take.mp isPrefix] at matching

theorem unique (alternative : Represents rows other) : log = other := by
  refine Relator.RightUnique.forall₂ ?_ represents.decodes alternative.decodes
  intro row record otherRecord decoded otherDecoded
  rw [decoded] at otherDecoded
  exact Except.ok.inj otherDecoded

theorem exists_row (present : record ∈ log) : ∃ row ∈ rows, decode row = .ok record := by
  obtain ⟨index, inside, rfl⟩ := List.getElem_of_mem present
  have insideRows : index < rows.length := by
    rwa [represents.length_eq]
  exact ⟨rows[index], List.getElem_mem insideRows, represents.decodes.get insideRows inside⟩

theorem mem_log (present : row ∈ rows) (decoded : decode row = .ok record) :
    record ∈ log := by
  obtain ⟨index, inside, rfl⟩ := List.getElem_of_mem present
  have insideLog : index < log.length := by
    rwa [← represents.length_eq]
  have stored := represents.decodes.get inside insideLog
  rw [List.get_eq_getElem, decoded] at stored
  rw [Except.ok.inj stored]
  exact List.getElem_mem insideLog

theorem prefix_of_prefix (part : Represents shorter other) (isPrefix : shorter <+: rows) :
    other <+: log := by
  rw [part.unique (represents.of_prefix isPrefix)]
  exact List.take_prefix _ _

end

end Represents

theorem loaded_new : Loaded [] (AggregateRoot.new : AggregateRoot (Adapted P)) where
  state := ⟨State.initial P, rfl, reflects_initial⟩
  version := rfl
  replayed := rfl

namespace Loaded

theorem following_of_extends (loaded : Loaded log root) (extending : Extends log record) :
    following root.version = some record.receipt.version := by
  rw [following_eq_some, loaded.version]
  exact extending.version

/-- A row that extends the log is replayed. -/
theorem replayRow (loaded : Loaded log root)
    (decoded : decode row = .ok record) (extending : Extends log record) :
    ∃ next : AggregateRoot (Adapted P),
      (Repository.replayRow (codec P) root row : Except P.StoreError _) = .ok next ∧
      Loaded (log ++ [record]) next := by
  obtain ⟨state, usable, reflects⟩ := loaded.state
  have isNext : following root.version = some row.version := by
    rw [loaded.following_of_extends extending, (coherent_of_decode decoded).version]
  have below : root.replayedEvents < (Adapted P).maxRehydrationEvents := by
    rw [loaded.replayed]
    exact extending.room
  have replayed := AggregateRoot.replay_next record usable isNext below
  refine ⟨⟨some (state.apply record), some row.version, root.replayedEvents + 1⟩,
    ?_, ⟨⟨state.apply record, rfl, reflects.apply extending⟩, ?_, ?_⟩⟩
  · change ((decode row).mapError _ >>= _) = _
    rw [decoded, mapError_ok, ok_bind, replayed, mapError_ok]
  · rw [List.length_append, List.length_singleton, ← loaded.version]
    exact following_eq_some.mp isNext
  · simp [loaded.replayed]

theorem replayRows (loaded : Loaded log root)
    (decodes : List.Forall₂ (fun row record => decode row = .ok record) rows records)
    (accepted : Accepted (log ++ records)) :
    ∃ last : AggregateRoot (Adapted P),
      (Repository.replayRows (codec P) root rows : Except P.StoreError _) = .ok last ∧
      Loaded (log ++ records) last := by
  induction decodes generalizing log root with
  | nil =>
    rw [List.append_nil]
    exact ⟨root, rfl, loaded⟩
  | @cons row record rows records decoded _ continues =>
    obtain ⟨next, replayed, loadedNext⟩ := loaded.replayRow decoded accepted.extends_of_append
    rw [List.append_cons] at accepted ⊢
    obtain ⟨last, replayedRest, loadedLast⟩ := continues loadedNext accepted
    refine ⟨last, ?_, loadedLast⟩
    rw [Repository.replayRows_cons, replayed, ok_bind]
    exact replayedRest

end Loaded

theorem Represents.loads (represents : Represents rows log) :
    ∃ root : AggregateRoot (Adapted P),
      (Repository.replayRows (codec P) AggregateRoot.new rows : Except P.StoreError _) = .ok root ∧
      Loaded log root :=
  loaded_new.replayRows represents.decodes represents.accepted

/-- A decision on the state of a log, for a new request made at its end, is one
record that continues the log. -/
theorem Reflects.extends_of_handle (reflects : Reflects log state)
    (missing : state.receipt decision.request = .ok none)
    (base : depth decision.request.expected = log.length)
    (version : decision.version.toNat = log.length + 1)
    (handled : Adapted.handle state decision = .ok decided) :
    ∃ record : P.Record, decided = some (.new record) ∧
      record.request = decision.request ∧
      record.schema = 2 ∧
      Extends log record := by
  simp only [Adapted.handle, bind_eq_ok, mapError_eq_ok, rejectIf_eq_ok,
    Option.isNone_iff_eq_none, pure_eq_ok, Except.ok.injEq] at handled
  obtain ⟨_, room, events, isDecided, _, within, rfl⟩ := handled
  obtain ⟨total, isTotal⟩ := Option.ne_none_iff_exists'.mp within
  have factLimit := State.le_of_total_eq_some isTotal
  rw [reflects.factCount] at factLimit
  rw [reflects.size] at room
  rw [reflects.domain] at isDecided
  exact ⟨_, rfl, rfl, rfl, {
    fresh := reflects.receipt_eq_none missing
    room := by omega
    base := base
    version := version
    identity := rfl
    count := rfl
    decided := ⟨events, isDecided, rfl⟩
    withinLimit := factLimit }⟩

/-- A row that was prepared extends the log. -/
theorem Loaded.row_of_prepareBatch (loaded : Loaded log root)
    (schema : record.schema = 2) (extending : Extends log record)
    (prepared :
      (Repository.prepareBatch (codec P) root (.new record : Events P.Record 0) :
        Except P.StoreError _) = .ok batch) :
    ∃ row, batch = .of row ∧ decode row = .ok record := by
  have isNext := loaded.following_of_extends extending
  simp only [Repository.prepareBatch, bind_eq_ok, mapError_eq_ok, okOr_eq_ok,
    pure_eq_ok, Except.ok.injEq] at prepared
  obtain ⟨_, _, version, isVersion, row, encodedAt, rest, isRest, rfl⟩ := prepared
  cases isRest
  rw [isNext] at isVersion
  cases isVersion
  simp only [Repository.encodeAt, bind_eq_ok, mapError_eq_ok, pure_eq_ok,
    Except.ok.injEq] at encodedAt
  obtain ⟨bytes, encoded, payload, isPayload, rfl⟩ := encodedAt
  obtain ⟨fits, parsed⟩ := parse_of_encode encoded
  have samePayload := Payload.fromBytes_eq_ok.mp isPayload
  refine ⟨_, rfl, decode_of_parse ?_ rfl rfl ?_ ?_⟩
  · rw [samePayload]
    exact fits
  · rw [samePayload]
    exact parsed
  · exact {
      schema := schema
      version := rfl
      follows := by
        rw [following_eq_some, extending.base]
        exact extending.version
      identity := extending.identity
      count := extending.count }

end Mnesis.Command
