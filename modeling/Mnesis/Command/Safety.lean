import Mnesis.Command.Custody

/-!
# Safety of the engine code

Each function of the engine is verified against the contract of its
environment: from a sound view in which the engine has custody of its appends,
it reaches a result for which custody holds again, together with what the
result says about the stream.
-/

namespace Mnesis.Command

open Foundation Kernel Store

variable {P : Processor}

/-- A record stored in the stream. -/
def Committed (history : List PendingEnvelope) (record : P.Record) : Prop :=
  ∃ row ∈ history, decode row = .ok record

/-- No append of a view for these requests can take effect any more. -/
def Dead (view : View P) (concerns : P.Request → Prop) : Prop :=
  ∀ attempt ∈ view.attempts, ∀ request ∈ attempt.requests,
    concerns request → attempt.Spent view.history

/-- The history that the call loaded last holds no such request. -/
def LastLoadLacks (view : View P) (concerns : P.Request → Prop) : Prop :=
  ∃ rows, view.notes.loads.getLast? = some rows ∧
    ∀ record, Committed rows record → ¬ concerns record.request

/-- The request held at the start of the call is still held, or the call has
loaded a history past it, or a load failed after an append was refused. -/
def Kept (held : Option P.Request) (view : View P) : Prop :=
  ∀ request, view.notes.heldAtStart = some request →
    held = some request ∨
      (∃ rows ∈ view.notes.loads, depth request.expected < rows.length) ∨
      view.notes.reloadFailed = true

theorem Committed.mono (committed : Committed history record) (isPrefix : history <+: longer) :
    Committed longer record := by
  obtain ⟨row, present, decoded⟩ := committed
  exact ⟨row, isPrefix.subset present, decoded⟩

theorem Represents.committed_iff (represents : Represents rows log) :
    Committed rows record ↔ record ∈ log := by
  constructor
  · rintro ⟨row, present, decoded⟩
    exact represents.mem_log present decoded
  · intro present
    exact represents.exists_row present

theorem Custody.dead (custody : Custody none view) (concerns : P.Request → Prop) :
    Dead view concerns :=
  fun _ present _ _ _ => custody.spent_of_none present

/-- An append for an identity that the history already holds is spent: it was
decided on a part of the stream without that identity. -/
theorem Sound.dead_of_mem (sound : Sound view)
    {log : List P.Record} {id : P.I} (isPrefix : rows <+: view.history)
    (represents : Represents rows log) (present : record ∈ log) (sameId : record.request.id = id) :
    Dead view fun request => request.id = id := by
  intro attempt issued request carries concerns
  obtain ⟨prior, decided, row, grounding⟩ := sound.grounded attempt issued
  rw [grounding.requests_eq, List.mem_singleton] at carries
  subst carries
  by_contra notSpent
  have whole : view.history.take (depth attempt.base) = view.history :=
    List.take_of_length_le (Nat.le_of_not_lt notSpent)
  have representsPrior := grounding.represents
  rw [whole] at representsPrior
  have inPrior := (representsPrior.prefix_of_prefix represents isPrefix).subset present
  exact grounding.extending.fresh record inPrior (sameId.trans concerns.symm)

/-- Failures of a load that say nothing about the history. -/
inductive ReadFailure : Error P → Prop
  | timeout : ReadFailure .timeout
  | adapter (error : P.AdapterError) : ReadFailure (.failed (.store (.adapter error)))

/-- A load that delivered the stream of a recent moment. -/
structure LoadedFrom (view after : View P) (root : Root P) (rows : List PendingEnvelope)
    (log : List P.Record) : Prop where
  moment : rows <+: after.history
  recent : view.history.length ≤ rows.length
  represents : Represents rows log
  loaded : Loaded log root

/-- What holds after a load. -/
structure AfterLoad (held : Option P.Request) (view : View P) (result : Except (Error P) (Root P))
    (heldAfter : Option P.Request) (after : View P) : Prop where
  same : heldAfter = held
  sound : Sound after
  custody : Custody held after
  history : view.history <+: after.history
  success : ∀ root, result = .ok root → ∃ rows log,
    LoadedFrom view after root rows log ∧
    after.notes = (issue .readStream view).notes.loaded rows
  failure : ∀ error, result = .error error →
    ReadFailure error ∧ after.notes = (issue .readStream view).notes.loadFailed

/-- Loading a prefix of a sound history succeeds; only the read can fail. -/
theorem judge_of_prefix {view : View P} (sound : Sound view) (isPrefix : rows <+: view.history) :
    ∃ (root : Root P) (log : List P.Record),
      Represents rows log ∧ Loaded log root ∧
      ∀ failure : Option P.AdapterError,
        Engine.judge (some (Repository.replayAnswer (codec P) .new ⟨rows, failure⟩)) =
          match failure with
          | none => .ok root
          | some error => .error (.failed (.store (.adapter error))) := by
  obtain ⟨log, represents⟩ := sound.log
  have part := represents.of_prefix isPrefix
  obtain ⟨root, replayed, loaded⟩ := part.loads
  obtain ⟨state, usable, reflects⟩ := loaded.state
  refine ⟨root, _, part, loaded, ?_⟩
  intro failure
  rw [Repository.replayAnswer, replayed, ok_bind]
  cases failure with
  | none => simp [Engine.judge, usable, reflects.intact]
  | some error => rfl

/-- A load delivers a history of a moment since it began, or fails. -/
theorem load_safe (sound : Sound view) (custody : Custody held view) :
    Program.Safe (contract P) (AfterLoad held view) Engine.load.run held view := by
  rw [Engine.load, Program.safe_run_bind, Program.safe_run_lift, Repository.load, Program.safe_bind]
  refine ⟨⟨sound.read, custody.read⟩, ?_⟩
  rintro later delivered answer ⟨after, soundLater⟩ answers
  have custodyLater := custody.read.later after
  refine (Program.safe_run_ofExcept _ _ _).mpr ?_
  have history : view.history <+: later.history := after.history
  cases answers with
  | loadElapsed =>
    refine ⟨rfl, soundLater.congr rfl rfl, custodyLater.congr rfl rfl, history, ?_, ?_⟩
    · intro root impossible
      cases impossible
    · intro error isError
      cases isError
      exact ⟨.timeout, congrArg Notes.loadFailed after.notes⟩
  | loadFailed rows error isPrefix =>
    obtain ⟨root, log, _, _, judged⟩ := judge_of_prefix soundLater isPrefix
    refine ⟨rfl, soundLater.congr rfl rfl, custodyLater.congr rfl rfl, history, ?_, ?_⟩
    · intro root succeeded
      cases (judged (some error)).symm.trans succeeded
    · intro failure failed
      cases (judged (some error)).symm.trans failed
      exact ⟨.adapter error, congrArg Notes.loadFailed after.notes⟩
  | loaded rows isPrefix recent =>
    obtain ⟨root, log, represents, loaded, judged⟩ := judge_of_prefix soundLater isPrefix
    refine ⟨rfl, soundLater.congr rfl rfl, custodyLater.congr rfl rfl, history, ?_, ?_⟩
    · intro loadedRoot succeeded
      cases (judged none).symm.trans succeeded
      rw [after.notes] at recent
      exact ⟨rows, log, ⟨isPrefix, recent, represents, loaded⟩,
        congrArg (Notes.loaded · rows) after.notes⟩
    · intro failure failed
      cases (judged none).symm.trans failed

section Rules

variable {α : Type}

@[simp] theorem safe_pending :
    Program.Safe (contract P) post Engine.pending.run held view ↔ post (.ok held) held view :=
  Iff.rfl

@[simp] theorem safe_replacePending (next : Option P.Request) :
    Program.Safe (contract P) post (Engine.replacePending next).run held view ↔
      post (.ok held) next view :=
  Iff.rfl

@[simp] theorem safe_attempt (step : Engine P α) :
    Program.Safe (contract P) post (Engine.attempt step).run held view ↔
      Program.Safe (contract P) (fun result => post (.ok result)) step.run held view :=
  Program.safe_run_lift _ _ _

@[simp] theorem safe_kernel (result : Except KernelError α) :
    Program.Safe (contract P) post (Engine.kernel result).run held view ↔
      post (result.mapError (.failed ∘ .kernel)) held view :=
  Program.safe_run_ofExcept _ _ _

@[simp] theorem safe_lookup (result : Except Mismatch (Option P.Receipt)) :
    Program.Safe (contract P) post (Engine.lookup result).run held view ↔
      post (result.mapError fun _ => .mismatch) held view :=
  Program.safe_run_ofExcept _ _ _

end Rules

theorem Kept.congr (kept : Kept held view) (sameNotes : after.notes = view.notes) :
    Kept held after := by
  rw [Kept, sameNotes]
  exact kept

theorem Kept.loaded
    (kept : Kept held view) (noted : after.notes = (issue .readStream view).notes.loaded rows) :
    Kept held after := by
  intro request started
  rw [noted] at started ⊢
  rcases kept request started with same | ⟨past, loaded, longer⟩ | failed
  · exact .inl same
  · exact .inr (.inl ⟨past, List.mem_append_left _ loaded, longer⟩)
  · exact .inr (.inr failed)

theorem Kept.loadFailed (kept : Kept held view)
    (noted : after.notes = (issue .readStream view).notes.loadFailed) :
    Kept held after := by
  intro request started
  rw [noted] at started ⊢
  rcases kept request started with same | past | failed
  · exact .inl same
  · exact .inr (.inl past)
  · refine .inr (.inr ?_)
    change (view.notes.reloadFailed || view.notes.conflicted) = true
    rw [failed, Bool.true_or]

/-- What holds after an attempt to settle. -/
structure AfterSettle (held : Option P.Request) (view : View P) (result : Except (Error P) Unit)
    (heldAfter : Option P.Request) (after : View P) : Prop where
  same : after = view
  custody : Custody heldAfter view
  kept : Kept heldAfter view
  success : result = .ok () → heldAfter = none
  failure : ∀ error, result = .error error →
    heldAfter = held ∧ ∃ request, held = some request ∧ error = .uncertain request.id none

/-- A held request is settled by a history that is past it. -/
theorem settle_safe (sound : Sound view)
    (custody : Custody held view) (kept : Kept held view) (isPrefix : rows <+: view.history)
    (represents : Represents rows log) (loaded : Loaded log root)
    (noted : rows ∈ view.notes.loads) :
    Program.Safe (contract P) (AfterSettle held view) (Engine.settle root).run held view := by
  obtain ⟨state, usable, reflects⟩ := loaded.state
  cases held with
  | none =>
    exact ⟨rfl, custody, kept, fun _ => rfl, by simp⟩
  | some request =>
    simp only [Engine.settle, Program.safe_run_bind, safe_pending]
    by_cases unmoved : root.version ≤ request.expected
    · rw [if_pos unmoved, Program.safe_run_throw]
      refine ⟨rfl, custody, kept, by simp, ?_⟩
      intro error isError
      cases isError
      exact ⟨rfl, request, rfl, rfl⟩
    · rw [if_neg unmoved]
      simp only [Program.safe_run_bind, safe_kernel, usable, mapError_ok,
        safe_replacePending, Program.safe_run_pure]
      rw [le_iff_depth_le, loaded.version, ← represents.length_eq] at unmoved
      have past : depth request.expected < rows.length := by omega
      refine ⟨rfl, ?_, ?_, fun _ => rfl, by simp⟩
      · exact custody.release sound (Nat.lt_of_lt_of_le past isPrefix.length_le)
      · intro start started
        rcases kept start started with same | others
        · cases same
          exact .inr (.inl ⟨rows, noted, past⟩)
        · exact .inr others

/-- Result of executing a decision; `none` when the deadline elapsed. -/
abbrev Outcome (P : Processor) :=
  Option (Except (ExecuteError (DecisionError P.domain.Error) P.StoreError) (Root P))

/-- Failures of executing a decision that come before its append. -/
def Unsent : ExecuteError (DecisionError P.domain.Error) P.StoreError → Prop
  | .decide _ | .kernel _ => True
  | .store (.encode _) | .store (.envelope _) | .store .versionOverflow => True
  | .store _ => False

/-- A new request at the end of a loaded history. -/
structure Ready (view : View P) (request : P.Request) (root : Root P) (rows : List PendingEnvelope)
    (log : List P.Record) (state : State P) : Prop where
  isPrefix : rows <+: view.history
  represents : Represents rows log
  loaded : Loaded log root
  usable : root.state = .ok state
  reflects : Reflects log state
  missing : state.receipt request = .ok none
  expected : request.expected = root.version

/-- What holds after executing the decision of a request that is held. -/
structure AfterExecute (request : P.Request) (view : View P) (outcome : Outcome P)
    (heldAfter : Option P.Request) (after : View P) : Prop where
  same : heldAfter = some request
  sound : Sound after
  custody : Custody (some request) after
  unsent : ∀ error, outcome = some (.error error) → Unsent error → after = view
  accepted : ∀ written, outcome = some (.ok written) → ∃ record state,
    Committed after.history record ∧ record.request = request ∧
    written.state = .ok state ∧
    state.receipt request = .ok (some record.receipt) ∧
    depth request.expected < after.history.length
  conflict : ∀ error, outcome = some (.error (.store error)) →
    error.isConflict = true →
    depth request.expected < after.history.length ∧
    after.notes = { view.notes with conflicted := true }
  quiet : (∀ error, outcome = some (.error (.store error)) →
    error.isConflict = false) → after.notes = view.notes

theorem AfterExecute.of_unsent
    {error : ExecuteError (DecisionError P.domain.Error) P.StoreError} (sound : Sound view)
    (custody : Custody (some request) view)
    (notConflict : ∀ failure, error = .store failure → failure.isConflict = false) :
    AfterExecute request view (some (.error error)) (some request) view where
  same := rfl
  sound := sound
  custody := custody
  unsent _ _ _ := rfl
  accepted _ impossible := by cases impossible
  conflict failure isError isConflict := by
    cases isError
    rw [notConflict failure rfl] at isConflict
    cases isConflict
  quiet _ := rfl

theorem AfterExecute.of_elapsed (sound : Sound after)
    (custody : Custody (some request) after) (sameNotes : after.notes = view.notes) :
    AfterExecute request view none (some request) after where
  same := rfl
  sound := sound
  custody := custody
  unsent _ impossible := by cases impossible
  accepted _ impossible := by cases impossible
  conflict _ impossible := by cases impossible
  quiet _ := sameNotes

theorem AfterExecute.of_adapter (sound : Sound after)
    (custody : Custody (some request) after) (sameNotes : after.notes = view.notes)
    (error : P.AdapterError) :
    AfterExecute request view (some (.error (.store (.adapter error)))) (some request) after where
  same := rfl
  sound := sound
  custody := custody
  unsent _ isError unsent := by
    cases isError
    cases unsent
  accepted _ impossible := by cases impossible
  conflict _ isError isConflict := by
    cases isError
    cases isConflict
  quiet _ := sameNotes

/-- The store refused the append. -/
theorem AfterExecute.of_conflict {view after : View P} (sound : Sound after)
    (custody : Custody (some request) after)
    (past : depth request.expected < after.history.length)
    (noted : after.notes = { view.notes with conflicted := true }) (streamId : Bytes)
    (expected actual : Option Version) :
    AfterExecute request view (some (.error (.store (.conflict streamId expected actual))))
      (some request) after where
  same := rfl
  sound := sound
  custody := custody
  unsent _ isError unsent := by
    cases isError
    cases unsent
  accepted _ impossible := by cases impossible
  conflict _ _ _ := ⟨past, noted⟩
  quiet notConflict := by cases notConflict _ rfl

/-- The append landed, and its record answers the request. -/
theorem AfterExecute.of_committed (sound : Sound after)
    (custody : Custody (some record.request) after)
    (sameNotes : after.notes = view.notes) (committed : Committed after.history record)
    (usable : written.state = .ok state)
    (found : state.receipt record.request = .ok (some record.receipt))
    (past : depth record.request.expected < after.history.length) :
    AfterExecute record.request view (some (.ok written)) (some record.request) after where
  same := rfl
  sound := sound
  custody := custody
  unsent _ impossible := by cases impossible
  accepted _ isWritten := by
    cases isWritten
    exact ⟨record, state, committed, rfl, usable, found, past⟩
  conflict _ impossible := by cases impossible
  quiet _ := sameNotes

theorem Ready.extends_of_handle
    (ready : Ready view request root rows log state)
    (isNext : following root.version = some version)
    (handled : Adapted.handle state ⟨request, version⟩ = .ok decided) :
    ∃ record : P.Record, decided = some (.new record) ∧
      record.request = request ∧ record.schema = 2 ∧ Extends log record := by
  refine ready.reflects.extends_of_handle ready.missing ?_ ?_ handled
  · rw [ready.expected, ready.loaded.version]
  · rw [following_eq_some.mp isNext, ready.loaded.version]

theorem Sound.of_latest (sound : Sound view) (decoded : decode row = .ok record)
    (latest : view.attempts.getLast? = some ⟨[record], base, .of row, fate⟩)
    (acted : fate ≠ .inFlight) :
    depth record.request.expected < view.history.length ∧
      (fate = .landed → Committed view.history record) := by
  obtain ⟨log, other, otherRow, grounding⟩ := sound.grounded _ (List.mem_of_getLast? latest)
  have sameRecord : record = other := List.singleton_inj.mp grounding.records
  have sameRow : row = otherRow := congrArg PendingBatch.first grounding.batch
  subst sameRecord sameRow
  have spent : depth base < view.history.length := by
    cases fate with
    | inFlight => exact absurd rfl acted
    | landed => exact grounding.spent_of_landed rfl
    | refused => exact grounding.refused rfl
  refine ⟨by rwa [grounding.expected_eq], ?_⟩
  intro landed
  exact ⟨row, List.mem_of_getElem? (grounding.landed landed), decoded⟩

/-- A save issues one append, whose request is held. -/
theorem save_safe (ready : Ready view request root rows log state) (sound : Sound view)
    (custody : Custody (some request) view) (isRequest : record.request = request)
    (schema : record.schema = 2) (extending : Extends log record) :
    Program.Safe (contract P)
      (fun saved => Program.Safe (contract P) (AfterExecute request view)
        (pure (saved.map (Except.mapError .store))))
      (Repository.save (codec P) root (.new record : Events P.Record 0) :
        Operation P (Option (Except P.StoreError (Root P))))
      (some request) view := by
  subst isRequest
  cases prepared : (Repository.prepareBatch (codec P) root
      (.new record : Events P.Record 0) : Except P.StoreError _) with
  | error error =>
    simp only [Repository.save, prepared]
    refine .of_unsent sound custody ?_
    intro failure same
    cases same
    exact Repository.prepareBatch_not_conflict (A := Adapted P) (codec P) prepared
  | ok batch =>
    obtain ⟨row, rfl, decoded⟩ := ready.loaded.row_of_prepareBatch schema extending prepared
    have atEnd : depth root.version = rows.length := by
      rw [ready.loaded.version, ready.represents.length_eq]
    have issued := custody.append sound ready.isPrefix ready.represents extending decoded atEnd
    simp only [Repository.save, prepared, Program.safe_bind]
    refine ⟨issued, ?_⟩
    rintro later delivered answer ⟨after, soundLater⟩ answers
    have custodyLater := issued.2.later after
    have sameNotes : later.notes = view.notes := after.notes
    cases answers with
    | appendElapsed => exact AfterExecute.of_elapsed soundLater custodyLater sameNotes
    | appendFailed error =>
      exact AfterExecute.of_adapter soundLater custodyLater sameNotes error
    | appended latest =>
      obtain ⟨past, landed⟩ := soundLater.of_latest decoded latest (by simp)
      have isNext := ready.loaded.following_of_extends extending
      have committed := AggregateRoot.commitPersisted_single (N := 0) record ready.usable isNext
      have found : (state.apply record).receipt record.request = .ok (some record.receipt) :=
        (ready.reflects.apply extending).receipt_of_mem
          (.snoc ready.represents.accepted extending) (by simp)
      change AfterExecute record.request view
        (some (((root.commitPersisted (.new record : Events P.Record 0)).mapError
          .kernel).mapError .store)) _ later
      rw [committed]
      exact .of_committed soundLater custodyLater sameNotes (landed rfl) rfl found past
    | conflict streamId expected actual latest =>
      obtain ⟨past, _⟩ := soundLater.of_latest decoded latest (by simp)
      have noted : { later.notes with conflicted := true } =
          { view.notes with conflicted := true } := by rw [sameNotes]
      exact @AfterExecute.of_conflict _ _ view
        { later with notes := { later.notes with conflicted := true } }
        (soundLater.congr rfl rfl) (custodyLater.congr rfl rfl) past noted
        streamId expected actual

/-- An executed request is decided on the loaded state. -/
theorem execute_safe {root : Root P}
    (ready : Ready view request root rows log state) (sound : Sound view)
    (custody : Custody (some request) view)
    (isNext : following root.version = some version) :
    Program.Safe (contract P) (AfterExecute request view)
      (Repository.execute (codec P) Adapted.handle root
        ({ request, version } : Decision P) : Operation P (Outcome P))
      (some request) view := by
  have usable := ready.usable
  cases handled : Adapted.handle state ⟨request, version⟩ with
  | error error =>
    have rejected : AggregateRoot.handle Adapted.handle root
        ({ request, version } : Decision P) = .error (.domain error) := by
      simp [AggregateRoot.handle, usable, handled]
    simp only [Repository.execute, rejected]
    exact .of_unsent sound custody (by simp)
  | ok decided =>
    obtain ⟨record, rfl, rfl, schema, extending⟩ := ready.extends_of_handle isNext handled
    have accepted : AggregateRoot.handle Adapted.handle root
        ({ request := record.request, version } : Decision P) = .ok (some (.new record)) := by
      simp [AggregateRoot.handle, usable, handled]
    simp only [Repository.execute, accepted, Program.safe_bind]
    exact save_safe ready sound custody rfl schema extending

/-- Answers of `submit` that deny the request for good. -/
inductive Refusal : Error P → Prop
  | conflict : Refusal .conflict
  | mismatch : Refusal .mismatch
  | rejected (error : P.domain.Error) : Refusal (.failed (.rejected error))
  | historyFull : Refusal (.failed .historyFull)
  | replayLimit (maximum : Nat) : Refusal (.failed (.replayLimit maximum))

/-- What holds after writing a request. -/
structure AfterWrite (request : P.Request) (view : View P) (result : Except (Error P) (Root P))
    (heldAfter : Option P.Request) (after : View P) : Prop where
  sound : Sound after
  custody : Custody heldAfter after
  accepted : ∀ written, result = .ok written → heldAfter = some request ∧
    ∃ record state,
      Committed after.history record ∧ record.request = request ∧
      written.state = .ok state ∧
      state.receipt request = .ok (some record.receipt) ∧
      depth request.expected < after.history.length
  conflict : result = .error .conflict → heldAfter = none ∧
    depth request.expected < after.history.length ∧
    after.notes = { view.notes with conflicted := true }
  failure : ∀ error, result = .error error → error ≠ .conflict →
    after.notes = view.notes ∧ Kept heldAfter after ∧
    (Refusal error → heldAfter = none)

theorem Kept.hold (kept : Kept held view) (own : held = none ∨ held = some request) :
    Kept (some request) view := by
  intro start started
  rcases kept start started with same | others
  · rcases own with unheld | own
    · rw [unheld] at same
      cases same
    · exact .inl (own.symm.trans same)
  · exact .inr others

theorem failure_safe
    (sound : Sound view) (custody : Custody held view) (kept : Kept held view) (cause : Cause P) :
    Program.Safe (contract P) (AfterWrite request view)
      (Engine.failure held cause).run now view := by
  cases held with
  | none =>
    exact {
      sound := sound
      custody := custody
      accepted := by simp
      conflict := by simp
      failure := by
        intro error isError _
        exact ⟨rfl, kept, fun _ => rfl⟩ }
  | some original =>
    exact {
      sound := sound
      custody := custody
      accepted := by simp
      conflict := by simp
      failure := by
        intro error isError _
        cases isError
        exact ⟨rfl, kept, fun refusal => nomatch refusal⟩ }

theorem AfterExecute.uncertain (executed : AfterExecute request view outcome (some request) after)
    (kept : Kept held view) (own : held = none ∨ held = some request)
    (notConflict : ∀ error, outcome = some (.error (.store error)) → error.isConflict = false)
    (id : P.I) (source : Option (Cause P)) :
    AfterWrite request view (.error (.uncertain id source)) (some request) after where
  sound := executed.sound
  custody := executed.custody
  accepted := by simp
  conflict := by simp
  failure := by
    intro error isError _
    cases isError
    have quiet := executed.quiet notConflict
    exact ⟨quiet, (kept.hold own).congr quiet, fun refusal => nomatch refusal⟩

theorem AfterExecute.conflicted
    (executed : AfterExecute request view (some (.error (.store error))) (some request) after)
    (isConflict : error.isConflict = true) :
    AfterWrite request view (.error .conflict) none after where
  sound := executed.sound
  custody := executed.custody.release executed.sound (executed.conflict error rfl isConflict).1
  accepted := by simp
  conflict _ := ⟨rfl, executed.conflict error rfl isConflict⟩
  failure := by
    intro failure isError notConflict
    cases isError
    exact absurd rfl notConflict

/-- A write keeps its request unless its outcome is known. -/
theorem write_safe (ready : Ready view request root rows log state) (sound : Sound view)
    (custody : Custody held view) (kept : Kept held view)
    (own : held = none ∨ held = some request) :
    Program.Safe (contract P) (AfterWrite request view)
      (Engine.write root request).run held view := by
  have custodyOwn : Custody (some request) view := by
    rcases own with rfl | rfl
    · exact custody.hold request
    · exact custody
  have short := ready.represents.accepted.length_le
  have fits : depth root.version + 1 < 2 ^ 64 := by
    rw [maxAccepted] at short
    rw [ready.loaded.version]
    omega
  obtain ⟨version, isNext⟩ := following_of_lt fits
  simp only [Engine.write, Program.safe_run_bind, Program.safe_run_lift, isNext,
    okOr_some, Program.safe_run_ofExcept, safe_replacePending]
  refine (execute_safe ready sound custodyOwn isNext).mono ?_
  intro outcome heldAfter after executed
  obtain rfl := executed.same
  cases outcome with
  | none => exact executed.uncertain kept own (by simp) _ _
  | some result =>
    cases result with
    | ok written =>
      exact {
        sound := executed.sound
        custody := executed.custody
        accepted := by
          intro same isWritten
          cases isWritten
          exact ⟨rfl, executed.accepted written rfl⟩
        conflict := by simp
        failure := by simp }
    | error error =>
      cases error with
      | kernel cause =>
        obtain rfl := executed.unsent _ rfl trivial
        exact failure_safe sound custody kept _
      | decide cause =>
        obtain rfl := executed.unsent _ rfl trivial
        exact failure_safe sound custody kept _
      | store cause =>
        cases cause with
        | conflict streamId expected actual => exact executed.conflicted rfl
        | encode _ | envelope _ | versionOverflow =>
          obtain rfl := executed.unsent _ rfl trivial
          exact failure_safe sound custody kept _
        | adapter _ | decode _ | kernel _ =>
          refine executed.uncertain kept own ?_ _ _
          intro error same
          cases same
          rfl

end Mnesis.Command
