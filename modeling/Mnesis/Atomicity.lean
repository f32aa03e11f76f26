import Mnesis.Fjall.Refinement
import Mnesis.InMemory.Refinement

/-!
# Appends to both stores

Both stores check and stage an atomic append in another order than an append.  In
every state that they reach, it does what the appends of its runs do one after
the other, or nothing.  The stores differ in the ids that they admit and in their
last position; calls that both admit have the same answers and leave the same log.
-/

namespace Mnesis

open Foundation Kernel Store

/-- An atomic append to different streams is its appends one after the other, in
every state that calls lead to. -/
theorem atomic_append_is_sequential (calls : List Call) (writes : List PlannedAppend)
    (nonempty : writes ≠ []) (distinct : (writes.map PlannedAppend.target).Nodup) :
    AtomicIsSequential InMemory.machine (InMemory.machine.run calls) writes ∧
      ∀ mode, AtomicIsSequential (Fjall.machine mode) ((Fjall.machine mode).run calls) writes :=
  ⟨InMemory.implements.atomicIsSequential (InMemory.implements.refines.run calls) nonempty distinct,
    fun mode => (Fjall.implements mode).atomicIsSequential
      ((Fjall.implements mode).refines.run calls) nonempty distinct⟩

/-- Two runs for fresh streams are appended to both stores, up to the second
position. -/
theorem two_fresh_runs_are_sequential :
    (InMemory.machine.step (InMemory.machine.run [])
        (.atomicAppendMany [freshRun [1], freshRun [2]])).1.position = some (some 2) ∧
      (∀ mode, ((Fjall.machine mode).step ((Fjall.machine mode).run [])
        (.atomicAppendMany [freshRun [1], freshRun [2]])).1.position = some (some 2)) ∧
      AtomicIsSequential InMemory.machine (InMemory.machine.run []) [freshRun [1], freshRun [2]] ∧
      ∀ mode, AtomicIsSequential (Fjall.machine mode) ((Fjall.machine mode).run [])
        [freshRun [1], freshRun [2]] :=
  ⟨(InMemory.implements.refines.answer [] _).trans (by decide),
    fun mode => ((Fjall.implements mode).refines.answer [] _).trans (by decide),
    atomic_append_is_sequential [] _ (List.cons_ne_nil _ _) (by decide)⟩

/-- Calls with ids that the persistent store admits, and fewer events than there are
positions in memory. -/
structure WithinBoth (calls : List Call) : Prop where
  ids : ∀ call ∈ calls, ∀ write ∈ call.toLog.runs, Fjall.limits.admits write.target = true
  room : (calls.map fun call => call.toLog.size).sum ≤ InMemory.limits.capacity

theorem admitted_alike (valid : Fjall.limits.admits write.target = true) :
    EventLog.Admitted InMemory.limits write ↔ EventLog.Admitted Fjall.limits write :=
  and_congr_left' (iff_of_true rfl valid)

theorem WithinBoth.earlier (within : WithinBoth (calls ++ more)) : WithinBoth calls where
  ids call isCall := within.ids call (List.mem_append_left _ isCall)
  room := by
    have room := within.room
    rw [List.map_append, List.sum_append] at room
    omega

theorem logMachine_step_alike (within : WithinBoth (calls ++ [call]))
    (counted : log.count ≤ (calls.map fun call => call.toLog.size).sum) :
    (logMachine InMemory.limits).step log call = (logMachine Fjall.limits).step log call := by
  have room := within.room
  have capacities : min InMemory.limits.capacity Fjall.limits.capacity =
      InMemory.limits.capacity := by decide
  rw [List.map_append, List.sum_append, List.map_singleton, List.sum_singleton] at room
  apply EventLog.answer_alike
  · intro write isWrite
    exact admitted_alike (within.ids call (by simp) write isWrite)
  · rw [capacities]
    omega

theorem logMachine_run_alike (within : WithinBoth calls) :
    (logMachine InMemory.limits).run calls = (logMachine Fjall.limits).run calls ∧
      ((logMachine Fjall.limits).run calls).count ≤
        (calls.map fun call => call.toLog.size).sum := by
  induction calls using List.reverseRecOn with
  | nil => exact ⟨rfl, Nat.le_refl _⟩
  | append_singleton calls call ih =>
    obtain ⟨same, counted⟩ := ih within.earlier
    rw [Machine.run_snoc, Machine.run_snoc, same, logMachine_step_alike within counted]
    refine ⟨rfl, (EventLog.count_answer_le _ call.toLog).trans ?_⟩
    rw [List.map_append, List.sum_append, List.map_singleton, List.sum_singleton]
    exact Nat.add_le_add_right counted _

/-- After calls that both stores admit they represent the same log, and they give the
next such call the same answer. -/
theorem stores_agree (mode : Fjall.AllIndex) {calls : List Call} {call : Call}
    (within : WithinBoth (calls ++ [call])) :
    (∃ log, InMemory.Represents (InMemory.machine.run calls) log ∧
        Fjall.Represents mode ((Fjall.machine mode).run calls) log) ∧
      (InMemory.machine.step (InMemory.machine.run calls) call).1.position =
        ((Fjall.machine mode).step ((Fjall.machine mode).run calls) call).1.position := by
  obtain ⟨same, counted⟩ := logMachine_run_alike within.earlier
  have inMemory := InMemory.implements.refines.run calls
  have answered := InMemory.implements.refines.answer calls call
  rw [same] at inMemory answered
  refine ⟨⟨_, inMemory, (Fjall.implements mode).refines.run calls⟩, answered.trans ?_⟩
  rw [logMachine_step_alike within counted]
  exact ((Fjall.implements mode).refines.answer calls call).symm

/-- Both stores take the first event of a stream. -/
theorem stores_agree_on_fresh_run :
    (InMemory.machine.step (InMemory.machine.run []) (freshRun [1]).toCall).1.position =
        some (some 1) ∧
      ∀ mode, ((Fjall.machine mode).step ((Fjall.machine mode).run [])
        (freshRun [1]).toCall).1.position = some (some 1) := by
  have first := (InMemory.implements.refines.answer [] (freshRun [1]).toCall).trans
    (show _ = some (some 1) by decide)
  refine ⟨first, fun mode => ((@stores_agree mode [] _ ⟨?_, by decide⟩).2.symm.trans first)⟩
  decide

end Mnesis
