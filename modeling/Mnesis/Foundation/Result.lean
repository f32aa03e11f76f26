/-!
# Computations that may fail

Rewriting rules for `Except` in `do` blocks: a success is passed on, a failure
stops the block, and a block that succeeded is one whose steps all did.

An operation that holds a lock reads and changes the state behind it and may fail.
What it changed before it failed stays changed.
-/

namespace Mnesis.Foundation

section

variable {ε α β : Type}

/-- The value of an option, or the given failure. -/
def okOr (value : Option α) (error : ε) : Except ε α :=
  match value with
  | some value => .ok value
  | none => .error error

/-- Fail when a condition holds. -/
def rejectIf (condition : Prop) [Decidable condition] (error : ε) : Except ε Unit :=
  if condition then .error error else .ok ()

@[simp] theorem okOr_some (value : α) (error : ε) : okOr (some value) error = .ok value := rfl

@[simp] theorem okOr_none (error : ε) : okOr (none : Option α) error = .error error := rfl

@[simp] theorem okOr_eq_ok : okOr value error = .ok result ↔ value = some result := by
  cases value <;> simp

@[simp] theorem rejectIf_eq_ok [Decidable condition] :
    rejectIf condition error = .ok result ↔ ¬ condition := by
  unfold rejectIf
  split <;> simp [*]

@[simp] theorem rejectIf_of_not [Decidable condition] (error : ε) (clear : ¬ condition) :
    rejectIf condition error = .ok () :=
  if_neg clear

@[simp] theorem rejectIf_of [Decidable condition] (error : ε) (met : condition) :
    rejectIf condition error = .error error :=
  if_pos met

@[simp] theorem ok_bind (value : α) (next : α → Except ε β) :
    (Except.ok value >>= next) = next value := rfl

@[simp] theorem error_bind (error : ε) (next : α → Except ε β) :
    (Except.error error >>= next) = .error error := rfl

@[simp] theorem pure_eq_ok (value : α) : (pure value : Except ε α) = .ok value := rfl

@[simp] theorem throw_eq_error (error : ε) : (throw error : Except ε α) = .error error := rfl

@[simp] theorem mapError_ok (value : α) (convert : ε → ε') :
    (Except.ok value : Except ε α).mapError convert = .ok value := rfl

@[simp] theorem mapError_error (error : ε) (convert : ε → ε') :
    (Except.error error : Except ε α).mapError convert = .error (convert error) :=
  rfl

theorem mapError_eq_ok {source : Except ε α} :
    source.mapError convert = .ok value ↔ source = .ok value := by
  cases source <;> simp

theorem mapError_eq_error {source : Except ε α} :
    source.mapError convert = .error error ↔
      ∃ original, source = .error original ∧ convert original = error := by
  cases source <;> simp

@[simp] theorem okOr_eq_error {failure : ε} :
    okOr value error = .error failure ↔ value = none ∧ error = failure := by
  cases value <;> simp

/-- A block succeeds exactly when its first step and its continuation do. -/
theorem bind_eq_ok {next : α → Except ε β} :
    (first >>= next) = .ok result ↔ ∃ value, first = .ok value ∧ next value = .ok result := by
  cases first <;> simp

/-- A block fails where its first step fails, or later. -/
theorem bind_eq_error {next : α → Except ε β} {failure : ε} :
    (first >>= next) = .error failure ↔
      first = .error failure ∨ ∃ value, first = .ok value ∧ next value = .error failure := by
  cases first <;> simp

/-- A check passes and the rest succeeds. -/
theorem rejectIf_bind_eq_ok [Decidable condition] :
    (rejectIf condition error >>= next) = .ok result ↔ ¬ condition ∧ next () = .ok result := by
  unfold rejectIf
  split <;> simp [*]

/-- Without a failure of the given kind. -/
def Avoids (bad : ε → Prop) (result : Except ε α) : Prop :=
  ∀ error, result = .error error → ¬ bad error

theorem avoids_ok {bad : ε → Prop} (value : α) : Avoids bad (.ok value) := nofun

theorem avoids_mapError {result : Except ε α} {bad : ε' → Prop}
    (apart : ∀ failure, ¬ bad (convert failure)) : Avoids bad (result.mapError convert) := by
  intro _ failed
  obtain ⟨failure, _, rfl⟩ := mapError_eq_error.mp failed
  exact apart failure

theorem avoids_okOr {bad : ε → Prop} {value : Option α} (apart : ¬ bad error) :
    Avoids bad (okOr value error) := by
  intro _ failed
  rw [← (okOr_eq_error.mp failed).2]
  exact apart

theorem Avoids.bind {bad : ε → Prop} {result : Except ε α} {next : α → Except ε β}
    (first : Avoids bad result) (rest : ∀ value, Avoids bad (next value)) :
    Avoids bad (result >>= next) := by
  intro error failed
  rcases bind_eq_error.mp failed with failed | ⟨value, _, failed⟩
  · exact first error failed
  · exact rest value error failed

/-- A check of every element succeeds exactly when each of them passes. -/
theorem forM_eq_ok {values : List α} {check : α → Except ε Unit} :
    values.forM check = .ok result ↔ ∀ value ∈ values, check value = .ok () := by
  induction values with
  | nil => exact iff_of_true rfl fun _ impossible => nomatch impossible
  | cons value values rest =>
    change (check value >>= fun _ => values.forM check) = .ok result ↔ _
    rw [bind_eq_ok, List.forall_mem_cons, ← rest]
    constructor
    · rintro ⟨_, first, others⟩
      exact ⟨first, others⟩
    · intro ⟨first, others⟩
      exact ⟨(), first, others⟩

end

/-- Operations on a locked state. -/
abbrev Locked (State Error : Type) := ExceptT Error (StateM State)

namespace Locked

variable {State Error α : Type}

/-- Continue with a result. -/
def ofResult (result : Except Error α) : Locked State Error α :=
  ExceptT.mk (pure result)

/-- Run an operation and continue with its answer, a failure included. -/
def attempt {Failure : Type} (operation : Locked State Failure α) :
    Locked State Error (Except Failure α) :=
  ExceptT.mk (Except.ok <$> operation.run)

/-- Report failures in another type. -/
def mapError {Failure : Type} (convert : Failure → Error) (operation : Locked State Failure α) :
    Locked State Error α :=
  ExceptT.mk ((·.mapError convert) <$> operation.run)

/-- The answer of an operation and the state it leaves. -/
def exec (operation : Locked State Error α) (state : State) : Except Error α × State :=
  operation.run state

end Locked

section

open Locked

variable {State Error α β : Type}

@[simp] theorem exec_get_bind (next : State → Locked State Error β) :
    (get >>= next : Locked State Error β).exec state = (next state).exec state := rfl

@[simp] theorem exec_set_bind (changed : State) (next : PUnit → Locked State Error β) :
    (set changed >>= next : Locked State Error β).exec state = (next ⟨⟩).exec changed := rfl

@[simp] theorem exec_ofResult_ok_bind (value : α) (next : α → Locked State Error β) :
    (ofResult (.ok value) >>= next : Locked State Error β).exec state =
      (next value).exec state := rfl

theorem exec_mapped_bind {Failure : Type} {result : Except Failure α} {convert : Failure → Error}
    (done : result = .ok value) :
    (ofResult (result.mapError convert) >>= next : Locked State Error β).exec state =
      (next value).exec state := by
  subst done
  rfl

@[simp] theorem exec_ofResult_error_bind (error : Error) (next : α → Locked State Error β) :
    (ofResult (.error error) >>= next : Locked State Error β).exec state =
      (.error error, state) := rfl

@[simp] theorem exec_attempt_bind (operation : Locked State Failure α)
    (next : Except Failure α → Locked State Error β) :
    (attempt operation >>= next : Locked State Error β).exec state =
      (next (operation.exec state).1).exec (operation.exec state).2 := rfl

theorem exec_mapError (convert : Failure → Error) (operation : Locked State Failure α) :
    (operation.mapError convert).exec state =
      ((operation.exec state).1.mapError convert, (operation.exec state).2) := rfl

@[simp] theorem exec_pure (value : α) :
    (pure value : Locked State Error α).exec state = (.ok value, state) := rfl

section Bind

variable {next : α → Locked State Error β}

theorem exec_bind :
    (operation >>= next).exec state =
      match operation.exec state with
      | (.ok value, middle) => (next value).exec middle
      | (.error error, middle) => (.error error, middle) := by
  change (ExceptT.bindCont next (operation.exec state).1 : StateM State _)
    (operation.exec state).2 = _
  rcases operation.exec state with ⟨_ | value, middle⟩ <;> rfl

theorem exec_bind_of_ok (done : operation.exec state = (.ok value, middle)) :
    (operation >>= next).exec state = (next value).exec middle := by
  rw [exec_bind, done]

theorem exec_bind_of_error (failed : operation.exec state = (.error error, middle)) :
    (operation >>= next).exec state = (.error error, middle) := by
  rw [exec_bind, failed]

/-- A block succeeds exactly when its first step and its continuation do. -/
theorem exec_bind_eq_ok :
    (operation >>= next).exec state = (.ok result, last) ↔
      ∃ value middle, operation.exec state = (.ok value, middle) ∧
        (next value).exec middle = (.ok result, last) := by
  rw [exec_bind]
  rcases operation.exec state with ⟨_ | value, middle⟩ <;> simp [and_assoc]

/-- Two steps that leave the state as it is leave it so together. -/
theorem exec_bind_unchanged (first : (operation.exec state).2 = state)
    (rest : ∀ value, ((next value).exec state).2 = state) :
    ((operation >>= next).exec state).2 = state := by
  rw [exec_bind]
  rcases ran : operation.exec state with ⟨_ | value, middle⟩ <;> rw [ran] at first <;> cases first
  · rfl
  · exact rest value

end Bind

/-- An operation succeeds with the one condition or fails with the other. -/
def Locked.Ends (operation : Locked State Error α) (state : State) (succeeded : α → State → Prop)
    (failed : Error → State → Prop) : Prop :=
  match operation.exec state with
  | (.ok value, after) => succeeded value after
  | (.error error, after) => failed error after

section Ends

variable {operation : Locked State Error α} {succeeded : α → State → Prop}
variable {failed : Error → State → Prop}

theorem Locked.Ends.mono (ends : operation.Ends state succeeded failed)
    (ofSucceeded : ∀ value after, succeeded value after → succeeded' value after)
    (ofFailed : ∀ error after, failed error after → failed' error after) :
    operation.Ends state succeeded' failed' := by
  unfold Ends at ends ⊢
  split at ends
  next value after _ => exact ofSucceeded value after ends
  next error after _ => exact ofFailed error after ends

theorem Locked.Ends.of_error (ends : operation.Ends state succeeded failed)
    (answered : (operation.exec state).1 = .error error) :
    failed error (operation.exec state).2 := by
  unfold Ends at ends
  rcases ran : operation.exec state with ⟨answer, after⟩
  rw [ran] at ends answered
  cases answered
  exact ends

theorem Locked.Ends.bind {middle : α → State → Prop} {succeeded : β → State → Prop}
    (first : operation.Ends state middle failed)
    (rest : ∀ value after, middle value after → (next value).Ends after succeeded failed) :
    (operation >>= next).Ends state succeeded failed := by
  unfold Ends at first ⊢
  rw [exec_bind]
  split at first
  next value after _ => exact rest value after first
  next => exact first

theorem ends_pure (holds : succeeded value state) :
    (pure value : Locked State Error α).Ends state succeeded failed := holds

theorem ends_get_bind {succeeded : β → State → Prop}
    (rest : (next state).Ends state succeeded failed) :
    (get >>= next : Locked State Error β).Ends state succeeded failed := rest

theorem ends_set_bind
    {succeeded : β → State → Prop} (rest : (next ⟨⟩).Ends changed succeeded failed) :
    (set changed >>= next : Locked State Error β).Ends state succeeded failed := rest

theorem ends_ofResult_bind {next : α → Locked State Error β}
    {succeeded : β → State → Prop} (ofError : ∀ error, result = .error error → failed error state)
    (rest : ∀ value, result = .ok value → (next value).Ends state succeeded failed) :
    (ofResult result >>= next : Locked State Error β).Ends state succeeded failed := by
  cases result with
  | error error => exact ofError error rfl
  | ok value => exact rest value rfl

theorem ends_mapError {Failure : Type} {convert : Failure → Error}
    {operation : Locked State Failure α}
    (ends : operation.Ends state succeeded fun error => failed (convert error)) :
    (operation.mapError convert).Ends state succeeded failed := by
  unfold Ends at ends ⊢
  rw [exec_mapError]
  split at ends
  next value after ran =>
    rw [ran]
    exact ends
  next error after ran =>
    rw [ran]
    exact ends

end Ends

/-- An operation fails and leaves the state as it is. -/
def Locked.Fails (operation : Locked State Error α) (state : State) : Prop :=
  ∃ error, operation.exec state = (.error error, state)

/-- An operation that fails after a result fails, whatever the result is. -/
theorem fails_ofResult_bind {next : α → Locked State Error β}
    (continued : ∀ value, result = .ok value → (next value).Fails state) :
    (ofResult result >>= next : Locked State Error β).Fails state := by
  cases result with
  | error error => exact ⟨error, rfl⟩
  | ok value => exact continued value rfl

theorem fails_get_bind (continued : (next state).Fails state) :
    (get >>= next : Locked State Error β).Fails state :=
  continued

end

end Mnesis.Foundation
