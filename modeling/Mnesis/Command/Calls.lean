import Mnesis.Command.Safety

/-!
# What the answers of an engine mean

The calls of an engine, assembled from the verified steps.  An accepted request
has its receipt in the stream; a denied one is absent from the history loaded
last and none of its appends can take effect; a failure keeps the request that
was held at the start.
-/

namespace Mnesis.Command

open Foundation Kernel Store

variable {P : Processor}

/-- What an answer to a submitted request means. -/
structure Answered (request : P.Request) (result : Except (Error P) P.Receipt)
    (held : Option P.Request) (view : View P) : Prop where
  sound : Sound view
  custody : Custody held view
  accepted : ∀ receipt, result = .ok receipt → ∃ record,
    Committed view.history record ∧
    record.request = request ∧ record.receipt = receipt
  refused : ∀ error, result = .error error → Refusal error →
    LastLoadLacks view (· = request) ∧ Dead view (· = request)
  kept : ∀ error, result = .error error → Kept held view

theorem lacks_of_missing (represents : Represents rows log) (reflects : Reflects log state)
    (missing : state.receipt request = .ok none) :
    ∀ record : P.Record, Committed rows record → record.request ≠ request := by
  intro record committed same
  have present := represents.committed_iff.mp committed
  exact reflects.receipt_eq_none missing record present (congrArg Request.id same)

theorem lacks_of_mismatch (represents : Represents rows log)
    (reflects : Reflects log state) (clash : state.receipt request = .error error) :
    ∀ record : P.Record, Committed rows record → record.request ≠ request := by
  intro record committed same
  obtain ⟨other, otherPresent, sameId, different⟩ := reflects.receipt_eq_mismatch clash
  have present := represents.committed_iff.mp committed
  have equal := represents.accepted.eq_of_id_eq present otherPresent
    ((congrArg Request.id same).trans sameId.symm)
  exact different (equal ▸ same)

theorem committed_of_found
    (represents : Represents rows log) (reflects : Reflects log state) (isPrefix : rows <+: history)
    (found : state.receipt request = .ok (some receipt)) :
    ∃ record : P.Record, Committed history record ∧
      record.request = request ∧ record.receipt = receipt := by
  obtain ⟨record, present, same, sameReceipt⟩ := reflects.receipt_eq_some found
  exact ⟨record, (represents.committed_iff.mpr present).mono isPrefix, same, sameReceipt⟩

theorem lastLoadLacks_of_loaded (noted : after.notes = (issue .readStream view).notes.loaded rows)
    (lacks : ∀ record : P.Record, Committed rows record → ¬ concerns record.request) :
    LastLoadLacks after concerns := by
  refine ⟨rows, ?_, lacks⟩
  rw [noted]
  exact List.getLast?_concat

theorem LastLoadLacks.congr
    (lacks : LastLoadLacks view concerns) (sameNotes : after.notes = view.notes) :
    LastLoadLacks after concerns := by
  rw [LastLoadLacks, sameNotes]
  exact lacks

theorem Answered.of_readFailure (sound : Sound view) (custody : Custody held view)
    (kept : Kept held view)
    (failed : ReadFailure error) :
    Answered request (.error error) held view where
  sound := sound
  custody := custody
  accepted := by simp
  refused := by
    intro failure isError refusal
    cases isError
    cases failed <;> cases refusal
  kept _ _ := kept

theorem Answered.of_refusal
    (sound : Sound view) (custody : Custody none view) (kept : Kept none view)
    (lacks : LastLoadLacks view (· = request)) :
    Answered request (.error error) none view where
  sound := sound
  custody := custody
  accepted := by simp
  refused _ _ _ := ⟨lacks, custody.dead _⟩
  kept _ _ := kept

/-- Before the reload that follows a refused append, the request held at the
start is settled by the stream, if not yet by a load. -/
def Passed (view : View P) : Prop :=
  ∀ request, view.notes.heldAtStart = some request →
    (∃ rows ∈ view.notes.loads, depth request.expected < rows.length) ∨
      view.notes.reloadFailed = true ∨
      depth request.expected < view.history.length

/-- After a denied append the history tells what became of the request. -/
theorem reload_safe (request : P.Request) (sound : Sound view)
    (custody : Custody none view) (passed : Passed view)
    (conflicted : view.notes.conflicted = true) :
    Program.Safe (contract P) (Answered request) (Engine.reload request).run none view := by
  simp only [Engine.reload, Program.safe_run_bind]
  refine (load_safe sound custody).mono ?_
  intro result held after loaded
  obtain rfl := loaded.same
  cases result with
  | error error =>
    obtain ⟨failed, noted⟩ := loaded.failure error rfl
    refine .of_readFailure loaded.sound loaded.custody ?_ failed
    intro start _
    refine .inr (.inr ?_)
    rw [noted]
    change (view.notes.reloadFailed || view.notes.conflicted) = true
    rw [conflicted, Bool.or_true]
  | ok root =>
    obtain ⟨rows, log, ⟨isPrefix, recent, represents, rootLoaded⟩, noted⟩ := loaded.success root rfl
    obtain ⟨state, usable, reflects⟩ := rootLoaded.state
    have kept : Kept none after := by
      intro start started
      rw [noted] at started ⊢
      rcases passed start started with ⟨past, present, longer⟩ | failed | past
      · exact .inr (.inl ⟨past, List.mem_append_left _ present, longer⟩)
      · exact .inr (.inr failed)
      · exact .inr (.inl ⟨rows, by simp [Notes.loaded], by omega⟩)
    simp only [Program.safe_run_bind, safe_kernel, usable, mapError_ok, safe_lookup]
    cases found : state.receipt request with
    | error error =>
      exact .of_refusal loaded.sound loaded.custody kept
        (lastLoadLacks_of_loaded noted (lacks_of_mismatch represents reflects found))
    | ok receipt =>
      rw [mapError_ok]
      cases receipt with
      | none =>
        exact .of_refusal loaded.sound loaded.custody kept
          (lastLoadLacks_of_loaded noted (lacks_of_missing represents reflects found))
      | some receipt =>
        exact {
          sound := loaded.sound
          custody := loaded.custody
          accepted := by
            intro same isReceipt
            cases isReceipt
            exact committed_of_found represents reflects isPrefix found
          refused := by simp
          kept := by simp }

theorem AfterWrite.answered (written : AfterWrite request view (.error error) held after)
    (notConflict : error ≠ .conflict) (lacks : LastLoadLacks view (· = request)) :
    Answered request (.error error) held after where
  sound := written.sound
  custody := written.custody
  accepted := by simp
  refused := by
    intro failure isError refusal
    cases isError
    obtain ⟨sameNotes, _, released⟩ := written.failure error rfl notConflict
    obtain rfl := released refusal
    exact ⟨lacks.congr sameNotes, written.custody.dead _⟩
  kept _ _ := (written.failure error rfl notConflict).2.1

theorem acknowledge_safe (written : AfterWrite request view (.ok root) held after) :
    Program.Safe (contract P) (Answered request)
      (Engine.acknowledge root request).run held after := by
  obtain ⟨rfl, record, state, committed, sameRequest, usable, found, past⟩ :=
    written.accepted root rfl
  have observed : (do
      let state ← root.state.mapError .kernel
      let receipt ← (state.receipt request).mapError fun _ => .corrupt
      okOr receipt .corrupt : Except (Cause P) P.Receipt) = .ok record.receipt := by
    simp [usable, found]
  simp only [Engine.acknowledge, observed]
  exact {
    sound := written.sound
    custody := written.custody.release written.sound past
    accepted := by
      intro receipt isReceipt
      cases isReceipt
      exact ⟨record, committed, sameRequest, rfl⟩
    refused := by simp
    kept := by simp }

/-- An append is acknowledged, denied or kept in custody. -/
theorem append_safe (ready : Ready view request root rows log state) (sound : Sound view)
    (custody : Custody held view) (kept : Kept held view) (own : held = none ∨ held = some request)
    (lacks : LastLoadLacks view (· = request)) :
    Program.Safe (contract P) (Answered request) (Engine.append root request).run held view := by
  simp only [Engine.append, Program.safe_run_bind, safe_attempt]
  refine (write_safe ready sound custody kept own).mono ?_
  intro result heldAfter after written
  cases result with
  | ok root => exact acknowledge_safe written
  | error error =>
    cases error with
    | conflict =>
      obtain ⟨rfl, past, noted⟩ := written.conflict rfl
      refine reload_safe request written.sound written.custody ?_ ?_
      · intro start started
        rw [noted] at started ⊢
        rcases kept start started with same | loaded | failed
        · rcases own with rfl | rfl
          · cases same
          · cases same
            exact .inr (.inr past)
        · exact .inl loaded
        · exact .inr (.inl failed)
      · rw [noted]
    | _ => exact written.answered (by simp) lacks

/-- A request that is not in the history is appended or refused. -/
theorem submitNew_safe (isPrefix : rows <+: view.history)
    (represents : Represents rows log) (loaded : Loaded log root) (usable : root.state = .ok state)
    (reflects : Reflects log state) (missing : state.receipt request = .ok none)
    (sound : Sound view) (lacks : LastLoadLacks view (· = request))
    (settling : AfterSettle before view settled held view) :
    Program.Safe (contract P) (Answered request)
      (Engine.submitNew root request
        (decide (before = some request ∧ request.expected = root.version))
        settled).run held view := by
  simp only [Engine.submitNew, Program.safe_run_bind, safe_pending]
  by_cases clash : (held.any fun original =>
      decide (original.id = request.id ∧ original ≠ request)) = true
  · rw [if_pos clash]
    -- Another request is held under this identity, so no append of this one is
    -- unspent.
    exact {
      sound := sound
      custody := settling.custody
      accepted := by simp
      refused := by
        intro error _ _
        refine ⟨lacks, ?_⟩
        rintro attempt issued carried carries rfl
        rcases settling.custody attempt issued with spent | ⟨original, rfl, same⟩
        · exact spent
        · rw [same, List.mem_singleton] at carries
          simp [carries] at clash
      kept := fun _ _ => settling.kept }
  · rw [if_neg clash]
    cases settled with
    | ok _ =>
      obtain rfl := settling.success rfl
      by_cases atEnd : request.expected = root.version
      · simp only [atEnd, ne_eq, not_true_eq_false, if_false]
        exact append_safe
          ⟨isPrefix, represents, loaded, usable, reflects, missing, atEnd⟩
          sound settling.custody settling.kept (.inl rfl) lacks
      · simp only [ne_eq, atEnd, not_false_eq_true, if_true]
        exact .of_refusal sound settling.custody settling.kept lacks
    | error error =>
      obtain ⟨rfl, original, rfl, rfl⟩ := settling.failure error rfl
      by_cases canRetry : some original = some request ∧ request.expected = root.version
      · obtain ⟨same, atEnd⟩ := canRetry
        obtain rfl := Option.some.inj same
        simp only [atEnd, and_self, decide_true, ne_eq, not_true_eq_false, if_false]
        exact append_safe
          ⟨isPrefix, represents, loaded, usable, reflects, missing, atEnd⟩
          sound settling.custody settling.kept (.inr rfl) lacks
      · simp only [decide_eq_false canRetry]
        exact {
          sound := sound
          custody := settling.custody
          accepted := by simp
          refused := by
            intro failure isError refusal
            cases isError
            cases refusal
          kept := fun _ _ => settling.kept }

/-- The answer to a submitted request means what it says. -/
theorem submit_safe (request : P.Request)
    (sound : Sound view) (custody : Custody held view) (kept : Kept held view) :
    Program.Safe (contract P) (Answered request) (Engine.submit request).run held view := by
  simp only [Engine.submit, Program.safe_run_bind]
  refine (load_safe sound custody).mono ?_
  intro result heldAfter after loaded
  obtain rfl := loaded.same
  cases result with
  | error error =>
    obtain ⟨failed, noted⟩ := loaded.failure error rfl
    exact .of_readFailure loaded.sound loaded.custody (kept.loadFailed noted) failed
  | ok root =>
    obtain ⟨rows, log, ⟨isPrefix, recent, represents, rootLoaded⟩, noted⟩ := loaded.success root rfl
    obtain ⟨state, usable, reflects⟩ := rootLoaded.state
    have keptAfter := kept.loaded noted
    have present : rows ∈ after.notes.loads := by
      rw [noted]
      simp [Notes.loaded]
    simp only [Program.safe_run_bind, safe_kernel, usable, mapError_ok, safe_lookup]
    cases found : state.receipt request with
    | error error =>
      -- Other content was accepted under this identity, later than anything
      -- an append of this request was decided on.
      obtain ⟨other, otherPresent, sameId, _⟩ := reflects.receipt_eq_mismatch found
      have dead := loaded.sound.dead_of_mem isPrefix represents otherPresent sameId
      exact {
        sound := loaded.sound
        custody := loaded.custody
        accepted := by simp
        refused := fun _ _ _ =>
          ⟨lastLoadLacks_of_loaded noted (lacks_of_mismatch represents reflects found),
            fun attempt issued carried carries same =>
              dead attempt issued carried carries (congrArg Request.id same)⟩
        kept := fun _ _ => keptAfter }
    | ok existing =>
      simp only [mapError_ok, Program.safe_run_bind, safe_pending, safe_attempt]
      refine (settle_safe loaded.sound loaded.custody keptAfter isPrefix represents
        rootLoaded present).mono ?_
      intro settled heldSettled afterSettled settling
      obtain rfl := settling.same
      cases existing with
      | some receipt =>
        exact {
          sound := loaded.sound
          custody := settling.custody
          accepted := by
            intro same isReceipt
            cases isReceipt
            exact committed_of_found represents reflects isPrefix found
          refused := by simp
          kept := by simp }
      | none =>
        exact submitNew_safe isPrefix represents rootLoaded usable reflects found
          loaded.sound
          (lastLoadLacks_of_loaded noted (lacks_of_missing represents reflects found))
          settling

/-- What an answer to a read means. -/
structure ReadAnswered (result : Except (Error P) (Option Version × P.domain.State))
    (held : Option P.Request) (view : View P) : Prop where
  sound : Sound view
  custody : Custody held view
  settled : ∀ value, result = .ok value → held = none
  kept : ∀ error, result = .error error → Kept held view

/-- What an answer to the recovery of an original request means. -/
structure Recovered (id : P.I) (result : Except (Error P) (Option P.Request))
    (held : Option P.Request) (view : View P) : Prop where
  sound : Sound view
  custody : Custody held view
  found : ∀ request, result = .ok (some request) → ∃ record,
    Committed view.history record ∧ record.request = request ∧ request.id = id
  missing : result = .ok none → held = none ∧ LastLoadLacks view fun request => request.id = id
  kept : Kept held view

/-- What an answer to a retry means. -/
structure Retried (id : P.I) (result : Except (Error P) (Option P.Receipt))
    (held : Option P.Request) (view : View P) : Prop where
  sound : Sound view
  custody : Custody held view
  accepted : ∀ receipt, result = .ok (some receipt) → ∃ record,
    Committed view.history record ∧
    record.request.id = id ∧ record.receipt = receipt
  missing : result = .ok none →
    (LastLoadLacks view fun request => request.id = id) ∧
    Dead view fun request => request.id = id
  kept : ∀ error, result = .error error → Kept held view

/-- A read that succeeds leaves nothing unresolved. -/
theorem read_safe (sound : Sound view) (custody : Custody held view) (kept : Kept held view) :
    Program.Safe (contract P) ReadAnswered Engine.read.run held view := by
  simp only [Engine.read, Program.safe_run_bind]
  refine (load_safe sound custody).mono ?_
  intro result heldAfter after loaded
  obtain rfl := loaded.same
  cases result with
  | error error =>
    obtain ⟨_, noted⟩ := loaded.failure error rfl
    exact ⟨loaded.sound, loaded.custody, by simp, fun _ _ => kept.loadFailed noted⟩
  | ok root =>
    obtain ⟨rows, log, ⟨isPrefix, recent, represents, rootLoaded⟩, noted⟩ := loaded.success root rfl
    obtain ⟨state, usable, reflects⟩ := rootLoaded.state
    have present : rows ∈ after.notes.loads := by
      rw [noted]
      simp [Notes.loaded]
    simp only [Program.safe_run_bind]
    refine (settle_safe loaded.sound loaded.custody (kept.loaded noted) isPrefix
      represents rootLoaded present).mono ?_
    intro settled heldSettled afterSettled settling
    obtain rfl := settling.same
    cases settled with
    | error error =>
      exact ⟨loaded.sound, settling.custody, by simp, fun _ _ => settling.kept⟩
    | ok _ =>
      simp only [Program.safe_run_bind, safe_kernel, usable, mapError_ok]
      exact ⟨loaded.sound, settling.custody, fun _ _ => settling.success rfl,
        fun _ _ => settling.kept⟩

/-- A recovered request was accepted. -/
theorem original_safe (id : P.I) (sound : Sound view)
    (custody : Custody held view) (kept : Kept held view) :
    Program.Safe (contract P) (Recovered id) (Engine.original id).run held view := by
  simp only [Engine.original, Program.safe_run_bind]
  refine (load_safe sound custody).mono ?_
  intro result heldAfter after loaded
  obtain rfl := loaded.same
  cases result with
  | error error =>
    obtain ⟨_, noted⟩ := loaded.failure error rfl
    exact ⟨loaded.sound, loaded.custody, by simp, by simp, kept.loadFailed noted⟩
  | ok root =>
    obtain ⟨rows, log, ⟨isPrefix, recent, represents, rootLoaded⟩, noted⟩ := loaded.success root rfl
    obtain ⟨state, usable, reflects⟩ := rootLoaded.state
    have present : rows ∈ after.notes.loads := by
      rw [noted]
      simp [Notes.loaded]
    simp only [Program.safe_run_bind, safe_kernel, usable, mapError_ok, safe_attempt]
    refine (settle_safe loaded.sound loaded.custody (kept.loaded noted) isPrefix
      represents rootLoaded present).mono ?_
    intro settled heldSettled afterSettled settling
    obtain rfl := settling.same
    cases found : state.original id with
    | some request =>
      refine ⟨loaded.sound, settling.custody, ?_, by simp, settling.kept⟩
      intro same isRequest
      cases isRequest
      obtain ⟨record, inLog, sameRequest, sameId⟩ := reflects.original_eq_some found
      exact ⟨record, (represents.committed_iff.mpr inLog).mono isPrefix, sameRequest, sameId⟩
    | none =>
      simp only [Program.safe_run_bind, Program.safe_run_ofExcept]
      cases settled with
      | error error =>
        exact ⟨loaded.sound, settling.custody, by simp, by simp, settling.kept⟩
      | ok _ =>
        refine ⟨loaded.sound, settling.custody, by simp, ?_, settling.kept⟩
        intro _
        refine ⟨settling.success rfl, lastLoadLacks_of_loaded noted ?_⟩
        intro record committed
        exact reflects.original_eq_none found record (represents.committed_iff.mp committed)

theorem resubmit_safe {id : P.I} (sameId : request.id = id) (sound : Sound view)
    (custody : Custody held view) (kept : Kept held view) :
    Program.Safe (contract P) (Retried id)
      (do
        let receipt ← Engine.submit request
        return some receipt : Engine P (Option P.Receipt)).run held view := by
  simp only [Program.safe_run_bind]
  refine (submit_safe request sound custody kept).mono ?_
  intro result heldAfter after answered
  cases result with
  | error error =>
    exact ⟨answered.sound, answered.custody, by simp, by simp, fun _ _ => answered.kept error rfl⟩
  | ok receipt =>
    refine ⟨answered.sound, answered.custody, ?_, by simp, by simp⟩
    intro same isReceipt
    cases isReceipt
    obtain ⟨record, committed, rfl, sameReceipt⟩ := answered.accepted receipt rfl
    exact ⟨record, committed, sameId, sameReceipt⟩

/-- The answer to a retry means what it says. -/
theorem retry_safe (id : P.I) (sound : Sound view) (custody : Custody held view)
    (kept : Kept held view) :
    Program.Safe (contract P) (Retried id) (Engine.retry id).run held view := by
  simp only [Engine.retry, Program.safe_run_bind, safe_pending]
  cases own : held.filter fun request => decide (request.id = id) with
  | some request =>
    obtain ⟨rfl, sameId⟩ := Option.filter_eq_some_iff.mp own
    exact resubmit_safe (of_decide_eq_true sameId) sound custody kept
  | none =>
    simp only [Program.safe_run_bind]
    refine (original_safe id sound custody kept).mono ?_
    intro result heldAfter after recovered
    cases result with
    | error error =>
      exact ⟨recovered.sound, recovered.custody, by simp, by simp, fun _ _ => recovered.kept⟩
    | ok found =>
      cases found with
      | some request =>
        obtain ⟨_, _, _, sameId⟩ := recovered.found request rfl
        exact resubmit_safe sameId recovered.sound recovered.custody recovered.kept
      | none =>
        obtain ⟨rfl, lacks⟩ := recovered.missing rfl
        exact ⟨recovered.sound, recovered.custody, by simp,
          fun _ => ⟨lacks, recovered.custody.dead _⟩, by simp⟩

/-- What the answer to a call means. -/
def Served :
    Call P → Reply P → Option P.Request → View P → Prop
  | .submit request, .submit result => Answered request result
  | .read, .read result => ReadAnswered result
  | .original id, .original result => Recovered id result
  | .retry id, .retry result => Retried id result
  | _, _ => fun _ _ => False

theorem serve_safe (call : Call P) (sound : Sound view)
    (custody : Custody held view) (kept : Kept held view) :
    Program.Safe (contract P) (Served call) call.serve held view := by
  cases call with
  | submit request =>
    exact (Program.safe_bind _ _ _ _).mpr (submit_safe request sound custody kept)
  | read => exact (Program.safe_bind _ _ _ _).mpr (read_safe sound custody kept)
  | original id =>
    exact (Program.safe_bind _ _ _ _).mpr (original_safe id sound custody kept)
  | retry id => exact (Program.safe_bind _ _ _ _).mpr (retry_safe id sound custody kept)

theorem Dead.later (dead : Dead view concerns) (later : Later view after) :
    Dead after concerns := by
  intro attempt present request carries concerned
  obtain ⟨index, atIndex⟩ := List.mem_iff_getElem?.mp present
  obtain ⟨before, presentBefore, advances⟩ := later.advances index attempt atIndex
  rw [advances.requests] at carries
  rw [advances.spent_iff]
  exact (dead before (List.mem_of_getElem? presentBefore) request carries
    concerned).mono later.history

/-- What an answer means stays true. -/
theorem Served.later (served : Served call reply held view)
    (later : Later view after) (sound : Sound after) :
    Served call reply held after := by
  cases call <;> cases reply <;> try exact served.elim
  case submit request result =>
      exact {
        sound := sound
        custody := served.custody.later later
        accepted := by
          intro receipt accepted
          obtain ⟨record, committed, same⟩ := served.accepted receipt accepted
          exact ⟨record, committed.mono later.history, same⟩
        refused := by
          intro error failed refusal
          obtain ⟨lacks, dead⟩ := served.refused error failed refusal
          exact ⟨lacks.congr later.notes, dead.later later⟩
        kept := fun error failed => (served.kept error failed).congr later.notes }
  case read result =>
      exact {
        sound := sound
        custody := served.custody.later later
        settled := served.settled
        kept := fun error failed => (served.kept error failed).congr later.notes }
  case original id result =>
      exact {
        sound := sound
        custody := served.custody.later later
        found := by
          intro request found
          obtain ⟨record, committed, same⟩ := served.found request found
          exact ⟨record, committed.mono later.history, same⟩
        missing := fun missing =>
          ⟨(served.missing missing).1, (served.missing missing).2.congr later.notes⟩
        kept := served.kept.congr later.notes }
  case retry id result =>
      exact {
        sound := sound
        custody := served.custody.later later
        accepted := by
          intro receipt accepted
          obtain ⟨record, committed, same⟩ := served.accepted receipt accepted
          exact ⟨record, committed.mono later.history, same⟩
        missing := by
          intro missing
          obtain ⟨lacks, dead⟩ := served.missing missing
          exact ⟨lacks.congr later.notes, dead.later later⟩
        kept := fun error failed => (served.kept error failed).congr later.notes }

theorem Served.sound (served : Served call reply held view) : Sound view := by
  cases call <;> cases reply <;> try exact served.elim
  case submit => exact Answered.sound served
  case read => exact ReadAnswered.sound served
  case original => exact Recovered.sound served
  case retry => exact Retried.sound served

theorem Served.custody (served : Served call reply held view) : Custody held view := by
  cases call <;> cases reply <;> try exact served.elim
  case submit => exact Answered.custody served
  case read => exact ReadAnswered.custody served
  case original => exact Recovered.custody served
  case retry => exact Retried.custody served

end Mnesis.Command
