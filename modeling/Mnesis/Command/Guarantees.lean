import Mnesis.Command.Runs
import Mnesis.Command.Script

/-!
# Guarantees of the command engines

What holds in every run of any number of engines on one stream: the histories
they can produce, the meaning of their answers, and the fate of the appends
whose outcome they never learned.
-/

namespace Mnesis.Command

open Foundation Kernel Store

variable {E : Type} [DecidableEq E] {system : System P E}

/-- What the store has done with an append of an engine. -/
def System.fate (system : System P E) (engine : E) (index : Nat) : Option Fate :=
  (system.engines engine).attempts[index]?.map Attempt.fate

/-- An append has not taken effect, and does so in some continuation. -/
def CanTakeEffect (stream : Bytes) (system : System P E) (engine : E) (index : Nat) : Prop :=
  system.fate engine index ≠ some .landed ∧
    ∃ trace later, Run (Step stream) system trace later ∧ later.fate engine index = some .landed

/-- What a step can do to the stream and to the appends already issued. -/
structure Evolves (before after : System P E) : Prop where
  history : before.history <+: after.history
  attempts : ∀ (engine : E) (index : Nat) (attempt : Attempt P),
    (before.engines engine).attempts[index]? = some attempt →
    ∃ now, (after.engines engine).attempts[index]? = some now ∧
      attempt.Advances now ∧
      (now.fate = .landed → attempt.fate = .landed ∨
        depth attempt.base = before.history.length)

theorem enter_attempts (pause : CallPause P) (view : View P) :
    view.attempts <+: (pause.enter issue view).attempts := by
  cases pause with
  | finished reply => exact List.prefix_rfl
  | waiting call next =>
    cases call with
    | readStream => exact List.prefix_rfl
    | append records base batch => exact List.prefix_append _ _

theorem Answers.attempts (answers : Answers call view answer delivered) :
    delivered.attempts = view.attempts := by
  cases answers <;> rfl

theorem evolves_place {control : Control P}
    (more : (system.engines engine).attempts <+: view.attempts) :
    Evolves system (system.place engine control view) := by
  refine ⟨List.prefix_rfl, ?_⟩
  intro other index attempt issued
  refine ⟨attempt, ?_, .refl attempt, .inl⟩
  by_cases same : other = engine
  · subst same
    obtain ⟨rest, isMore⟩ := more
    obtain ⟨inside, _⟩ := List.getElem?_eq_some_iff.mp issued
    simp only [System.place, Function.update_self, ← isMore]
    rw [List.getElem?_append_left inside, issued]
  · simpa [System.place, same] using issued

theorem evolves_proceed {call : Call P} (same : view.attempts = (system.engines engine).attempts) :
    Evolves system (system.proceed engine call held code view) := by
  refine evolves_place ?_
  rw [← same]
  exact enter_attempts _ view

/-- What the store does with an append decides it. -/
theorem evolves_settleAttempt (issued : (system.engines engine).attempts[index]? = some attempt)
    (inFlight : attempt.fate = .inFlight) :
    Evolves system (system.settleAttempt engine index attempt) := by
  obtain ⟨inside, _⟩ := List.getElem?_eq_some_iff.mp issued
  have decided : ∀ fate : Fate,
      (fate = .landed → depth attempt.base = system.history.length) →
      ∀ (other : E) (position : Nat) (earlier : Attempt P),
        (system.engines other).attempts[position]? = some earlier →
        ∃ now, (Function.update system.engines engine
            { system.engines engine with
              attempts := (system.engines engine).attempts.set index
                { attempt with fate } } other).attempts[position]? = some now ∧
          earlier.Advances now ∧
          (now.fate = .landed → earlier.fate = .landed ∨
            depth earlier.base = system.history.length) := by
    intro fate atEnd other position earlier present
    by_cases same : other = engine
    · subst same
      rw [Function.update_self]
      by_cases samePosition : index = position
      · subst samePosition
        cases issued.symm.trans present
        refine ⟨_, List.getElem?_set_self inside,
          ⟨rfl, rfl, rfl, fun decided => absurd inFlight decided⟩, ?_⟩
        intro landed
        exact .inr (atEnd landed)
      · exact ⟨earlier, (List.getElem?_set_ne samePosition).trans present, .refl earlier, .inl⟩
    · rw [Function.update_of_ne same]
      exact ⟨earlier, present, .refl earlier, .inl⟩
  unfold System.settleAttempt
  split
  next atEnd =>
    exact ⟨List.prefix_append _ _, decided .landed fun _ => atEnd⟩
  next notAtEnd =>
    exact ⟨List.prefix_rfl, decided .refused (by simp)⟩

theorem evolves_of_step {label : Label P E} (taken : Step stream before label after) :
    Evolves before after := by
  cases taken with
  | call call idle => exact evolves_proceed rfl
  | answer waiting answers => exact evolves_proceed answers.attempts
  | reply finished => exact evolves_place List.prefix_rfl
  | land issued inFlight => exact evolves_settleAttempt issued inFlight
  | abort waiting => exact evolves_place List.prefix_rfl
  | stop idle => exact evolves_place List.prefix_rfl
  | resume id limits runtime ended resumed => exact evolves_place List.prefix_rfl

/-- A spent append never takes effect. -/
theorem not_canTakeEffect_of_spent {index : Nat}
    (issued : (system.engines engine).attempts[index]? = some attempt)
    (spent : attempt.Spent system.history) :
    ¬ CanTakeEffect stream system engine index := by
  rintro ⟨notLanded, trace, later, run, landed⟩
  have notLandedYet : attempt.fate ≠ .landed := by
    intro isLanded
    exact notLanded (by rw [System.fate, issued, Option.map_some, isLanded])
  -- Along the run the append stays behind the end of the stream, where it
  -- cannot land.
  have stays : ∃ now, (later.engines engine).attempts[index]? = some now ∧
      now.Spent later.history ∧ now.fate ≠ .landed := by
    clear landed
    induction run with
    | refl => exact ⟨attempt, issued, spent, notLandedYet⟩
    | snoc _ taken reached =>
      obtain ⟨now, present, isSpent, isNotLanded⟩ := reached
      have evolves := evolves_of_step taken
      obtain ⟨next, presentNext, advances, landsAtEnd⟩ := evolves.attempts engine index now present
      refine ⟨next, presentNext, ?_, ?_⟩
      · rw [advances.spent_iff]
        exact isSpent.mono evolves.history
      · intro isLanded
        rcases landsAtEnd isLanded with already | atEnd
        · exact isNotLanded already
        · exact absurd atEnd (Nat.ne_of_lt isSpent)
  obtain ⟨now, present, _, isNotLanded⟩ := stays
  rw [System.fate, present, Option.map_some, Option.some_inj] at landed
  exact isNotLanded landed

/-- Every history that the engines can produce is an accepted log: identities
are unique, the record at each position was requested and versioned for that
position, and its facts are the decision on the facts before it. -/
theorem reachable_history_accepted (reachable : Reachable stream trace system) :
    ∃ log : List P.Record,
      List.Forall₂ (fun row record => decode row = .ok record) system.history log ∧
      (log.map fun record => record.request.id).Nodup ∧
      ∀ (index : Nat) (inside : index < log.length),
        (∃ row, system.history[index]? = some row ∧ row.version.toNat = index + 1) ∧
        log[index].receipt.version.toNat = index + 1 ∧
        log[index].request.expected = ofDepth index ∧
        Decides (domainState (log.take index)) log[index].request.command log[index].facts := by
  obtain ⟨log, represents⟩ := reachable.invariant.log
  refine ⟨log, represents.decodes, represents.accepted.nodup_ids, ?_⟩
  intro index inside
  have extending := represents.accepted.extends_of_get index inside
  have position : (log.take index).length = index := by
    rw [List.length_take, Nat.min_eq_left (Nat.le_of_lt inside)]
  have insideRows : index < system.history.length := by
    rwa [represents.length_eq]
  have coherent := coherent_of_decode (represents.decodes.get insideRows inside)
  have version := extending.version
  rw [position] at version
  refine ⟨⟨system.history[index], List.getElem?_eq_getElem insideRows, ?_⟩, version,
    ?_, extending.decided⟩
  · rw [← version]
    exact congrArg Version.toNat coherent.version.symm
  · rw [← ofDepth_depth log[index].request.expected, extending.base, position]

/-- A history of one record. -/
theorem tally_history_accepted :
    ∃ trace system, playTally (acceptingScript true firstCount) = some (trace, system) ∧
      system.history.length = 1 ∧
      ∃ log : List tally.Record,
        List.Forall₂ (fun row record => decode row = .ok record) system.history log ∧
        (log.map fun record => record.request.id).Nodup := by
  have played : ∃ trace system, playTally (acceptingScript true firstCount) = some (trace, system) ∧
      system.history.length = 1 :=
    ⟨_, _, rfl, rfl⟩
  obtain ⟨trace, system, played, length⟩ := played
  obtain ⟨log, decodes, distinct, _⟩ := reachable_history_accepted (reachable_of_playTally played)
  exact ⟨trace, system, played, length, log, decodes, distinct⟩

theorem load_run :
    (Engine.load : Engine P (Root P)).run =
      .await .readStream fun answer => .done
        (Engine.judge (Option.map (Repository.replayAnswer (codec P) .new) answer)) := by
  refine congrArg (Program.await _) ?_
  funext answer
  change (MonadExcept.ofExcept (Engine.judge
    (Option.map (Repository.replayAnswer (codec P) .new) answer)) : Engine P (Root P)).run = _
  cases Engine.judge (Option.map (Repository.replayAnswer (codec P) .new) answer) <;> rfl

/-- Every history that the engines can produce is accepted by a load: each row
decodes and passes its checks, replay finds no fault and stays within its
limit, and whatever the store delivers of it, the load answers with a root or
reports that the read itself failed. -/
theorem reachable_history_loads (reachable : Reachable stream trace system) :
    (∀ row ∈ system.history, ∃ record : P.Record, decode row = .ok record) ∧
    (∃ (root : Root P) (state : State P),
      (Repository.replayRows (codec P) .new system.history : Except P.StoreError _) = .ok root ∧
      root.state = .ok state ∧ state.integrity = true ∧
      depth root.version = system.history.length ∧
      root.replayedEvents = system.history.length ∧
      root.replayedEvents ≤ (Adapted P).maxRehydrationEvents) ∧
    ∃ verdict : Option (ReadAnswer P.AdapterError) → Except (Error P) (Root P),
      (Engine.load : Engine P (Root P)).run =
        .await .readStream (fun answer => .done (verdict answer)) ∧
      ∀ (engine : E) (answer : Option (ReadAnswer P.AdapterError)) (delivered : View P),
        Answers .readStream (system.view engine) answer delivered →
        ∀ error, verdict answer = .error error → ReadFailure error := by
  have invariant := reachable.invariant
  obtain ⟨log, represents⟩ := invariant.log
  obtain ⟨root, replayed, loaded⟩ := represents.loads
  obtain ⟨state, usable, reflects⟩ := loaded.state
  refine ⟨?_, ⟨root, state, replayed, usable, reflects.intact, ?_, ?_, ?_⟩,
    _, load_run, ?_⟩
  · intro row present
    obtain ⟨index, inside, rfl⟩ := List.getElem_of_mem present
    have insideLog : index < log.length := by
      rwa [← represents.length_eq]
    exact ⟨log[index], represents.decodes.get inside insideLog⟩
  · rw [loaded.version, represents.length_eq]
  · rw [loaded.replayed, represents.length_eq]
  · rw [loaded.replayed]
    exact represents.accepted.length_le
  · intro engine answer delivered answers error failed
    have sound := (invariant.seated engine).sound
    cases answers with
    | loadElapsed =>
      cases failed
      exact .timeout
    | loadFailed rows error isPrefix =>
      obtain ⟨_, _, _, _, judged⟩ := judge_of_prefix sound isPrefix
      cases (judged (some error)).symm.trans failed
      exact .adapter error
    | loaded rows isPrefix recent =>
      obtain ⟨_, _, _, _, judged⟩ := judge_of_prefix sound isPrefix
      cases (judged none).symm.trans failed

/-- The history of one record is loaded without fault. -/
theorem tally_history_loads :
    ∃ trace system, playTally (acceptingScript true firstCount) = some (trace, system) ∧
      system.history.length = 1 ∧
      ∀ row ∈ system.history, ∃ record : tally.Record, decode row = .ok record := by
  have played : ∃ trace system, playTally (acceptingScript true firstCount) = some (trace, system) ∧
      system.history.length = 1 :=
    ⟨_, _, rfl, rfl⟩
  obtain ⟨trace, system, played, length⟩ := played
  exact ⟨trace, system, played, length, (reachable_history_loads (reachable_of_playTally played)).1⟩

/-- An answer that a request is accepted, and the request it belongs to: the
submitted one, or the one stored under the retried identity. -/
inductive AcceptedAs (history : List PendingEnvelope) :
    Label P E → P.Request → P.Receipt → Prop
  | submit (engine : E) (request : P.Request) (receipt : P.Receipt) :
      AcceptedAs history (.reply engine (.submit request) (.submit (.ok receipt))) request receipt
  | retry
      (engine : E) (id : P.I) (receipt : P.Receipt)
      {record : P.Record}
      (stored : Committed history record)
      (sameId : record.request.id = id) :
      AcceptedAs history (.reply engine (.retry id) (.retry (.ok (some receipt))))
        record.request receipt

theorem history_prefix_of_run (run : Run (Step stream) system trace later) :
    system.history <+: later.history := by
  induction run with
  | refl => exact List.prefix_rfl
  | snoc _ taken grown => exact grown.trans (evolves_of_step taken).history

theorem served_of_reply
    (invariant : Invariant system) (taken : Step stream system (.reply engine call reply) after) :
    ∃ held, Served call reply held (system.view engine) ∧
      after = system.place engine (.idle held) (system.view engine) := by
  cases taken with
  | reply finished =>
    exact ⟨_, (invariant.seated engine).paused finished, rfl⟩

theorem served_of_mem {call : Call P}
    (reachable : Reachable stream trace system) (given : .reply engine call reply ∈ trace) :
    ∃ held view, Served call reply held view ∧ view.history <+: system.history := by
  obtain ⟨earlier, before, after, rest, reached, taken, continued⟩ :=
    reachable.exists_step_of_mem given
  obtain ⟨held, served, _⟩ := served_of_reply (Reachable.invariant reached) taken
  exact ⟨held, _, served, (evolves_of_step taken).history.trans (history_prefix_of_run continued)⟩

/-- Every accepting answer repeats the receipt of a committed record of its own
request, and all accepting answers for one identity agree. -/
theorem accepted_answers_agree (reachable : Reachable stream trace system) :
    (∀ engine request receipt,
      .reply engine (.submit request) (.submit (.ok receipt)) ∈ trace →
      ∃ record, Committed system.history record ∧
        record.request = request ∧ record.receipt = receipt) ∧
    (∀ engine id receipt,
      .reply engine (.retry id) (.retry (.ok (some receipt))) ∈ trace →
      ∃ record, Committed system.history record ∧
        record.request.id = id ∧ record.receipt = receipt) ∧
    ∀ first second request other receipt otherReceipt,
      first ∈ trace → second ∈ trace →
      AcceptedAs system.history first request receipt →
      AcceptedAs system.history second other otherReceipt →
      request.id = other.id →
      receipt = otherReceipt ∧ request = other := by
  have submitted : ∀ engine request receipt,
      .reply engine (.submit request) (.submit (.ok receipt)) ∈ trace →
      ∃ record, Committed system.history record ∧
        record.request = request ∧ record.receipt = receipt := by
    intro engine request receipt given
    obtain ⟨held, view, served, isPrefix⟩ := served_of_mem reachable given
    obtain ⟨record, committed, same⟩ := Answered.accepted served receipt rfl
    exact ⟨record, committed.mono isPrefix, same⟩
  have retried : ∀ engine id receipt,
      .reply engine (.retry id) (.retry (.ok (some receipt))) ∈ trace →
      ∃ record, Committed system.history record ∧
        record.request.id = id ∧ record.receipt = receipt := by
    intro engine id receipt given
    obtain ⟨held, view, served, isPrefix⟩ := served_of_mem reachable given
    obtain ⟨record, committed, same⟩ := Retried.accepted served receipt rfl
    exact ⟨record, committed.mono isPrefix, same⟩
  obtain ⟨log, represents⟩ := reachable.invariant.log
  -- Both kinds of answer come down to the one record stored under the identity.
  have stored : ∀ {label : Label P E} {request : P.Request} {receipt : P.Receipt},
      label ∈ trace → AcceptedAs system.history label request receipt →
      ∃ record ∈ log, record.request = request ∧ record.receipt = receipt := by
    intro label request receipt given accepted
    cases accepted with
    | submit engine =>
      obtain ⟨record, committed, same⟩ := submitted engine request receipt given
      exact ⟨record, represents.committed_iff.mp committed, same⟩
    | @retry engine id _ record committed sameId =>
      obtain ⟨other, otherCommitted, otherId, sameReceipt⟩ := retried engine id receipt given
      have same := represents.accepted.eq_of_id_eq
        (represents.committed_iff.mp otherCommitted)
        (represents.committed_iff.mp committed) (otherId.trans sameId.symm)
      subst same
      exact ⟨other, represents.committed_iff.mp otherCommitted, rfl, sameReceipt⟩
  refine ⟨submitted, retried, ?_⟩
  intro first second request other receipt otherReceipt firstGiven secondGiven
    firstAccepted secondAccepted sameId
  obtain ⟨record, present, rfl, rfl⟩ := stored firstGiven firstAccepted
  obtain ⟨otherRecord, otherPresent, rfl, rfl⟩ := stored secondGiven secondAccepted
  obtain rfl := represents.accepted.eq_of_id_eq present otherPresent sameId
  exact ⟨rfl, rfl⟩

/-- The receipt of a first request is that of the record it committed. -/
theorem tally_answers_agree :
    ∃ trace system receipt,
      playTally (acceptingScript true firstCount) = some (trace, system) ∧
      .reply true (.submit firstCount) (.submit (.ok receipt)) ∈ trace ∧
      ∃ record, Committed system.history record ∧
        record.request = firstCount ∧ record.receipt = receipt := by
  have played : ∃ trace system receipt,
      playTally (acceptingScript true firstCount) = some (trace, system) ∧
      trace.getLast? = some (.reply true (.submit firstCount) (.submit (.ok receipt))) :=
    ⟨_, _, _, rfl, rfl⟩
  obtain ⟨trace, system, receipt, played, last⟩ := played
  have given := List.mem_of_getLast? last
  exact ⟨trace, system, receipt, played, given,
    (accepted_answers_agree (reachable_of_playTally played)).1 _ _ _ given⟩

theorem not_canTakeEffect_after_reply
    (issued : (system.engines engine).attempts[index]? = some attempt)
    (spent : attempt.Spent system.history) :
    ¬ CanTakeEffect stream
      (system.place engine (.idle held) (system.view engine)) engine index := by
  have stillIssued : ((system.place engine (.idle held)
      (system.view engine)).engines engine).attempts[index]? = some attempt := by
    simpa [System.place, System.view] using issued
  exact not_canTakeEffect_of_spent stillIssued spent

/-- A denied request is absent from the history the call loaded last, and no
append the engine ever issued for it can take effect after the answer.  The
same holds for an identity of which a retry found nothing. -/
theorem denials_are_final (reachable : Reachable stream trace system) :
    (∀ engine request error after,
      Step stream system (.reply engine (.submit request) (.submit (.error error))) after →
      Refusal error →
      (∃ rows, (system.engines engine).notes.loads.getLast? = some rows ∧
        ∀ record : P.Record, Committed rows record → record.request ≠ request) ∧
      ∀ (index : Nat) (attempt : Attempt P),
        (system.engines engine).attempts[index]? = some attempt →
        request ∈ attempt.requests →
        ¬ CanTakeEffect stream after engine index) ∧
    ∀ engine id after,
      Step stream system (.reply engine (.retry id) (.retry (.ok none))) after →
      (∃ rows, (system.engines engine).notes.loads.getLast? = some rows ∧
        ∀ record : P.Record, Committed rows record → record.request.id ≠ id) ∧
      ∀ (index : Nat) (attempt : Attempt P) (request : P.Request),
        (system.engines engine).attempts[index]? = some attempt →
        request ∈ attempt.requests → request.id = id →
        ¬ CanTakeEffect stream after engine index := by
  have invariant := reachable.invariant
  constructor
  · intro engine request error after taken refusal
    obtain ⟨held, served, rfl⟩ := served_of_reply invariant taken
    obtain ⟨lacks, dead⟩ := Answered.refused served error rfl refusal
    refine ⟨lacks, ?_⟩
    intro index attempt issued carries
    exact not_canTakeEffect_after_reply issued
      (dead attempt (List.mem_of_getElem? issued) request carries rfl)
  · intro engine id after taken
    obtain ⟨held, served, rfl⟩ := served_of_reply invariant taken
    obtain ⟨lacks, dead⟩ := Retried.missing served rfl
    refine ⟨lacks, ?_⟩
    intro index attempt request issued carries sameId
    exact not_canTakeEffect_after_reply issued
      (dead attempt (List.mem_of_getElem? issued) request carries sameId)

/-- A request whose append is still in flight is denied, since a rival came
first; that append never takes effect. -/
theorem tally_denial_is_final :
    ∃ trace system after,
      playTally (uncertainScript true firstCount ++ acceptingScript false rivalCount ++
        [(true, .call (.submit firstCount)), (true, .deliver (.load 1))]) = some (trace, system) ∧
      Step [] system (.reply true (.submit firstCount) (.submit (.error .conflict))) after ∧
      system.fate true 0 = some .inFlight ∧
      ¬ CanTakeEffect [] after true 0 := by
  have played : ∃ trace system attempt,
      playTally (uncertainScript true firstCount ++ acceptingScript false rivalCount ++
        [(true, .call (.submit firstCount)), (true, .deliver (.load 1))]) = some (trace, system) ∧
      (system.engines true).control =
        .serving (.submit firstCount) none (.finished (.submit (.error .conflict))) ∧
      (system.engines true).attempts[0]? = some attempt ∧
      attempt.requests = [firstCount] ∧ attempt.fate = .inFlight :=
    ⟨_, _, _, rfl, rfl, rfl, rfl, rfl⟩
  obtain ⟨trace, system, attempt, played, finished, issued, carried, inFlight⟩ := played
  refine ⟨trace, system, _, played, .reply finished, ?_, ?_⟩
  · rw [System.fate, issued, Option.map_some, inFlight]
  · exact ((denials_are_final (reachable_of_playTally played)).1 _ _ _ _
      (.reply finished) .conflict).2 0 attempt issued (by rw [carried]; simp)

/-- Every append an engine has issued is behind the end of the stream, or the
request held as unresolved expects its base.  When a read succeeds no earlier
append can take effect; when an append is issued, none can of which some append
since was for another request. -/
theorem unresolved_appends_in_custody (reachable : Reachable stream trace system) (engine : E) :
    (∀ attempt ∈ (system.engines engine).attempts,
      depth attempt.base < system.history.length ∨
        ∃ request, (system.engines engine).control.held = some request ∧
          request.expected = attempt.base) ∧
    (∀ value after,
      Step stream system (.reply engine .read (.read (.ok value))) after →
      ∀ (index : Nat) (attempt : Attempt P),
        (system.engines engine).attempts[index]? = some attempt →
        ¬ CanTakeEffect stream after engine index) ∧
    ∀ label after issued,
      Step stream system label after →
      (after.engines engine).attempts = (system.engines engine).attempts ++ [issued] →
      ∀ (index since : Nat) (attempt : Attempt P), index ≤ since →
        (system.engines engine).attempts[since]? = some attempt →
        attempt.requests ≠ issued.requests →
        ¬ CanTakeEffect stream after engine index := by
  have invariant := reachable.invariant
  have seated := invariant.seated engine
  refine ⟨?_, ?_, ?_⟩
  · intro attempt present
    rcases seated.custody attempt present with spent | ⟨request, held, carries⟩
    · exact .inl spent
    · exact .inr ⟨request, held,
        ((seated.sound.grounded attempt present).base_of_requests carries).symm⟩
  · intro value after taken index attempt issued
    obtain ⟨held, served, rfl⟩ := served_of_reply invariant taken
    obtain rfl := ReadAnswered.settled served value rfl
    exact not_canTakeEffect_after_reply issued
      ((ReadAnswered.custody served).spent_of_none (List.mem_of_getElem? issued))
  · intro label after issued taken grown index since attempt notAfter present different
    have ordered := ((invariant.step taken).seated engine).sound.ordered
    rw [Seat.view, grown, List.pairwise_append] at ordered
    obtain ⟨amongEarlier, _, beforeIssued⟩ := ordered
    obtain ⟨inside, isAttempt⟩ := List.getElem?_eq_some_iff.mp present
    have insideIndex : index < (system.engines engine).attempts.length := by omega
    have stillIssued : (after.engines engine).attempts[index]? =
        some (system.engines engine).attempts[index] := by
      rw [grown, List.getElem?_append_left insideIndex, List.getElem?_eq_getElem insideIndex]
    refine not_canTakeEffect_of_spent stillIssued ?_
    -- Either this append is itself for another request than the new one, or the
    -- one issued since was for another request than this one.
    by_cases same : (system.engines engine).attempts[index].requests = issued.requests
    · have isEarlier : index < since := by
        refine Nat.lt_of_le_of_ne notAfter ?_
        rintro rfl
        exact different (isAttempt ▸ same)
      refine List.pairwise_iff_getElem.mp amongEarlier index since insideIndex inside isEarlier ?_
      rw [isAttempt, same]
      exact different.symm
    · exact beforeIssued _ (List.getElem_mem insideIndex) issued (by simp) same

/-- An append that is in flight on an empty stream is in the custody of its
engine. -/
theorem tally_append_in_custody :
    ∃ trace system attempt,
      playTally (uncertainScript true firstCount) = some (trace, system) ∧
      attempt ∈ (system.engines true).attempts ∧ attempt.fate = .inFlight ∧
      (depth attempt.base < system.history.length ∨
        ∃ request, (system.engines true).control.held = some request ∧
          request.expected = attempt.base) := by
  have played : ∃ trace system attempt,
      playTally (uncertainScript true firstCount) = some (trace, system) ∧
      (system.engines true).attempts = [attempt] ∧ attempt.fate = .inFlight :=
    ⟨_, _, _, rfl, rfl, rfl⟩
  obtain ⟨trace, system, attempt, played, attempts, inFlight⟩ := played
  have issued : attempt ∈ (system.engines true).attempts := by
    rw [attempts]
    exact List.mem_singleton_self attempt
  exact ⟨trace, system, attempt, played, issued, inFlight,
    (unresolved_appends_in_custody (reachable_of_playTally played) true).1 attempt issued⟩

end Mnesis.Command
