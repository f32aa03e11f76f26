import Mnesis.Chunk.Layout

/-!
# Runs of a writer

Any sequence of operations, whatever the sink and the sources do.  Either all
operations succeed and the writer holds the layout of all items, or some
operation does not succeed, all later ones are refused, and the writer holds a
prefix of that layout.
-/

namespace Mnesis.Chunk

open Foundation Kernel Store

variable {SourceError : Type}

/-- The items that an operation writes. -/
def SectionOp.items : SectionOp SourceError → List Item
  | .block event => [.block event]
  | .extend source => (yielded source.items).map .block

/-- The items that a section writes. -/
def SectionScript.items (script : SectionScript SourceError) : List Item :=
  .heading script.streamId :: script.ops.flatMap SectionOp.items

/-- The items that sections write. -/
def scriptItems (scripts : List (SectionScript SourceError)) : List Item :=
  scripts.flatMap SectionScript.items

/-- An operation without a drain that stops early. -/
def SectionOp.Complete : SectionOp SourceError → Prop
  | .block _ => True
  | .extend source => source.Complete

/-- Sections without a drain that stops early. -/
def AllComplete (scripts : List (SectionScript SourceError)) : Prop :=
  ∀ script ∈ scripts, ∀ op ∈ script.ops, op.Complete

variable {items : List Item} {writer : ChunkWriter sink}

/-- The answer of a poisoned writer. -/
def refusal : OpResult sink SourceError := .error (writeFailed .poisoned)

/-- Everything succeeds up to some answer, and everything behind it is refused. -/
inductive StoppedAt : List (OpResult sink SourceError) → Prop
  | here (error : Interrupted (SectionError sink.Error SourceError))
      (refused : ∀ answer ∈ later, answer = refusal) : StoppedAt (.error error :: later)
  | later {answers : List (OpResult sink SourceError)} (stopped : StoppedAt answers) :
      StoppedAt (.ok () :: answers)

theorem StoppedAt.refused {later : List (OpResult sink SourceError)}
    (stopped : StoppedAt (before ++ answer :: later)) (failed : answer ≠ .ok ()) :
    ∀ other ∈ later, other = refusal := by
  induction before with
  | nil =>
    cases stopped with
    | here error refused => exact refused
    | later => exact absurd rfl failed
  | cons first before step =>
    cases stopped with
    | here error refused =>
      intro other present
      exact refused other (List.mem_append_right before (List.mem_cons_of_mem _ present))
    | later stopped => exact step stopped

theorem StoppedAt.append (stopped : StoppedAt answers)
    (refused : ∀ answer ∈ more, answer = refusal) :
    StoppedAt (answers ++ more) := by
  induction stopped with
  | here error refusedFirst =>
    apply StoppedAt.here error
    intro answer present
    rcases List.mem_append.mp present with first | second
    · exact refusedFirst answer first
    · exact refused answer second
  | later _ step => exact step.later

theorem StoppedAt.after {more : List (OpResult sink SourceError)}
    (succeeded : ∀ answer ∈ answers, answer = .ok ()) (stopped : StoppedAt more) :
    StoppedAt (answers ++ more) := by
  induction answers with
  | nil => exact stopped
  | cons answer answers step =>
    obtain ⟨first, others⟩ := List.forall_mem_cons.mp succeeded
    rw [first]
    exact (step others).later

/-- How operations with whole sources or not left a writer that was asked to write items. -/
def Ran (libs : Libraries) (origin : Option Slice) (items : List Item) (whole : Prop)
    (answers : List (OpResult sink SourceError)) (writer : ChunkWriter sink) : Prop :=
  (∀ answer ∈ answers, answer = .ok ()) ∧ whole ∧ writer.Wrote libs origin items ∨
    StoppedAt answers ∧ writer.Torn libs origin items whole

/-- Operations go on behind others, or are refused behind them. -/
theorem Ran.append {added : List Item} (ran : Ran libs origin items whole answers writer)
    (goesOn : writer.Wrote libs origin items → Ran libs origin (items ++ added) others more after)
    (refused : writer.state = .poisoned → (∀ answer ∈ more, answer = refusal) ∧ after = writer) :
    Ran libs origin (items ++ added) (whole ∧ others) (answers ++ more) after := by
  rcases ran with ⟨succeeded, isWhole, wrote⟩ | ⟨stopped, torn⟩
  · rcases goesOn wrote with ⟨moreSucceeded, areWhole, wroteAll⟩ | ⟨stopped, torn⟩
    · exact .inl ⟨List.forall_mem_append.mpr ⟨succeeded, moreSucceeded⟩, ⟨isWhole, areWhole⟩,
        wroteAll⟩
    · exact .inr ⟨.after succeeded stopped, torn.poisoned, torn.part, torn.fits,
        fun never both => torn.overflows never both.2⟩
  · obtain ⟨allRefused, unchanged⟩ := refused torn.poisoned
    rw [unchanged]
    exact .inr ⟨stopped.append allRefused, torn.append added others⟩

theorem ran_of_ends
    {operation : Locked (ChunkWriter sink) (Interrupted (SectionError sink.Error SourceError)) Unit}
    (ends : operation.Ends writer (fun _ after => whole ∧ after.Wrote libs origin items)
      (fun _ after => after.Torn libs origin items whole)) :
    Ran libs origin items whole [(operation.exec writer).1] (operation.exec writer).2 := by
  unfold Locked.Ends at ends
  split at ends
  next value after ran =>
    rw [ran]
    exact .inl ⟨List.forall_mem_singleton.mpr rfl, ends⟩
  next error after ran =>
    rw [ran]
    exact .inr ⟨.here error (List.forall_mem_nil _), ends⟩

theorem SectionOp.run_ends (lawful : libs.Lawful) (wrote : writer.Wrote libs origin items)
    (op : SectionOp SourceError) :
    (op.run libs).Ends writer
      (fun _ after => op.Complete ∧ after.Wrote libs origin (items ++ op.items))
      (fun _ after => after.Torn libs origin (items ++ op.items) op.Complete) := by
  cases op with
  | block event =>
    apply ends_mapError
    exact (ChunkWriter.block_ends lawful wrote event).mono (fun _ _ wrote => ⟨trivial, wrote⟩)
      fun _ _ torn => torn
  | extend source => exact ChunkWriter.tryExtend_ends lawful wrote source

theorem SectionOp.exec_run_of_poisoned (poisoned : writer.state = .poisoned)
    (op : SectionOp SourceError) :
    (op.run libs).exec writer = (refusal, writer) := by
  have refused := ChunkWriter.exec_ensureReady_of_poisoned poisoned
  cases op with
  | block event =>
    change ((ChunkWriter.block libs event).mapError writeFailed).exec writer = _
    rw [exec_mapError, ChunkWriter.block, exec_bind_of_error refused]
    rfl
  | extend source =>
    change (ChunkWriter.tryExtend libs source).exec writer = _
    unfold ChunkWriter.tryExtend
    apply exec_bind_of_error
    rw [exec_mapError, refused]
    rfl

theorem runOps_of_poisoned (poisoned : writer.state = .poisoned)
    (ops : List (SectionOp SourceError)) :
    (∀ answer ∈ (runOps libs ops writer).1, answer = refusal) ∧
      (runOps libs ops writer).2 = writer := by
  induction ops with
  | nil => exact ⟨by simp [runOps], rfl⟩
  | cons op ops step =>
    unfold runOps
    rw [op.exec_run_of_poisoned poisoned]
    exact ⟨List.forall_mem_cons.mpr ⟨rfl, step.1⟩, step.2⟩

theorem runOps_ran (lawful : libs.Lawful) (wrote : writer.Wrote libs origin items)
    (ops : List (SectionOp SourceError)) :
    Ran libs origin (items ++ ops.flatMap SectionOp.items) (∀ op ∈ ops, op.Complete)
      (runOps libs ops writer).1 (runOps libs ops writer).2 := by
  induction ops generalizing writer items with
  | nil =>
    rw [List.flatMap_nil, List.append_nil]
    exact .inl ⟨List.forall_mem_nil _, List.forall_mem_nil _, wrote⟩
  | cons op ops step =>
    rw [List.flatMap_cons, ← List.append_assoc, List.forall_mem_cons]
    apply (ran_of_ends (op.run_ends lawful wrote)).append
    · intro wroteFirst
      exact step wroteFirst
    · intro poisoned
      exact runOps_of_poisoned poisoned ops

theorem ChunkWriter.exec_beginSection_of_poisoned (poisoned : writer.state = .poisoned)
    (streamId : Slice) :
    (ChunkWriter.beginSection libs streamId).exec writer = (.error .poisoned, writer) := by
  unfold ChunkWriter.beginSection
  exact exec_bind_of_error (ChunkWriter.exec_ensureReady_of_poisoned poisoned)

theorem runSection_of_poisoned (poisoned : writer.state = .poisoned)
    (script : SectionScript SourceError) :
    runSection libs script writer = ([refusal], writer) := by
  unfold runSection
  rw [ChunkWriter.exec_beginSection_of_poisoned poisoned]
  rfl

theorem runSections_of_poisoned (poisoned : writer.state = .poisoned)
    (scripts : List (SectionScript SourceError)) :
    (∀ answer ∈ (runSections libs scripts writer).1, answer = refusal) ∧
      (runSections libs scripts writer).2 = writer := by
  induction scripts with
  | nil => exact ⟨by simp [runSections], rfl⟩
  | cons script scripts step =>
    unfold runSections
    rw [runSection_of_poisoned poisoned]
    exact ⟨List.forall_mem_cons.mpr ⟨rfl, step.1⟩, step.2⟩

theorem runSection_ran (lawful : libs.Lawful) (wrote : writer.Wrote libs origin items)
    (script : SectionScript SourceError) :
    Ran libs origin (items ++ script.items) (∀ op ∈ script.ops, op.Complete)
      (runSection libs script writer).1 (runSection libs script writer).2 := by
  have begun := @ChunkWriter.beginSection_ends _ _ _ _ _ True lawful wrote script.streamId
  unfold Locked.Ends at begun
  unfold runSection
  rw [SectionScript.items, List.append_cons, ← true_and (∀ op ∈ script.ops, op.Complete)]
  split at begun
  next value middle opened =>
    rw [opened]
    have heading : Ran libs origin (items ++ [.heading script.streamId]) True
        [(.ok () : OpResult sink SourceError)] middle := .inl ⟨by simp, trivial, begun⟩
    apply heading.append
    · intro wroteHeading
      exact runOps_ran lawful wroteHeading script.ops
    · intro poisoned
      exact runOps_of_poisoned poisoned script.ops
  next error middle refused =>
    rw [refused]
    exact .inr ⟨.here _ (List.forall_mem_nil _), begun.append _ _⟩

theorem runSections_ran (lawful : libs.Lawful) (wrote : writer.Wrote libs origin items)
    (scripts : List (SectionScript SourceError)) :
    Ran libs origin (items ++ scriptItems scripts) (AllComplete scripts)
      (runSections libs scripts writer).1 (runSections libs scripts writer).2 := by
  induction scripts generalizing writer items with
  | nil =>
    rw [scriptItems, List.flatMap_nil, List.append_nil]
    exact .inl ⟨List.forall_mem_nil _, List.forall_mem_nil _, wrote⟩
  | cons script scripts step =>
    have split : items ++ scriptItems (script :: scripts) =
        items ++ script.items ++ scriptItems scripts := by
      rw [scriptItems, List.flatMap_cons, ← List.append_assoc, scriptItems]
    rw [split, AllComplete, List.forall_mem_cons]
    apply (runSection_ran lawful wrote script).append
    · intro wroteSection
      exact step wroteSection
    · intro poisoned
      exact runSections_of_poisoned poisoned scripts

theorem ChunkWriter.new_wrote (lawful : libs.Lawful) (origin : Option Slice) :
    match (ChunkWriter.new libs origin :
      Except (WriteError sink.Error) (ChunkWriter sink) × sink.State) with
    | (.ok writer, left) => writer.Wrote libs origin [] ∧ left = writer.enc.inner
    | (.error _, left) => sink.contents left <+: layout libs origin [] ∧
        (sink.contents left).length < 2 ^ 64 ∧
        (sink.NeverFails → 2 ^ 64 ≤ (layout libs origin []).length) := by
  have initially : (⟨sink.initial, 0, 0⟩ : TrackedSink sink).Holds libs [] :=
    ⟨sink.contents_initial, rfl, (lawful.crc_nil 0).symm⟩
  have written := TrackedSink.encode_ends lawful
    (libs.writeHeader ⟨magic, formatVersion, origin.map Slice.bytes⟩) initially
  have header : layout libs origin [] =
      (libs.writeHeader ⟨magic, formatVersion, origin.map Slice.bytes⟩).flatten :=
    List.append_nil _
  unfold Locked.Ends at written
  unfold ChunkWriter.new
  split at written
  next value enc ran =>
    rw [ran]
    refine ⟨⟨⟨?_, rfl, rfl⟩, rfl⟩, rfl⟩
    rw [header]
    exact written
  next error enc ran =>
    rw [ran]
    obtain ⟨part, isPart, contents⟩ := written.part
    rw [header]
    exact ⟨contents ▸ isPart, written.fits, written.overflows⟩

/-- The completion record behind items. -/
def completionOf (libs : Libraries) (origin : Option Slice) (items : List Item) : Completion where
  sections := UInt64.ofNat (sectionCount items)
  events := UInt64.ofNat (eventCount items)
  length := UInt64.ofNat (layout libs origin items).length
  crc := libs.crc32c (layout libs origin items)

/-- The bytes of the completion record behind items. -/
def completionBytes (libs : Libraries) (origin : Option Slice) (items : List Item) : Bytes :=
  (ChunkWriter.completionPieces libs (completionOf libs origin items)).flatten

/-- The bytes of a finished backup. -/
def finished (libs : Libraries) (origin : Option Slice) (items : List Item) : Bytes :=
  layout libs origin items ++ completionBytes libs origin items

theorem eq_ofNat_of_toNat (same : word.toNat = number) :
    word = UInt64.ofNat number := by
  rw [← same, UInt64.ofNat_toNat]

theorem ChunkWriter.Wrote.declares (wrote : writer.Wrote libs origin items) :
    (⟨writer.sections, writer.events, writer.enc.bytes, writer.enc.crc⟩ : Completion) =
      completionOf libs origin items := by
  rw [completionOf, eq_ofNat_of_toNat wrote.sections, eq_ofNat_of_toNat wrote.events,
    eq_ofNat_of_toNat wrote.enc.length, wrote.enc.crc]

theorem ChunkWriter.finish_ends (lawful : libs.Lawful) (wrote : writer.Wrote libs origin items) :
    (ChunkWriter.finish libs).Ends writer
      (fun _ after => after.enc.Holds libs (finished libs origin items))
      (fun _ after => sink.contents after.enc.inner <+: finished libs origin items ∧
        (sink.contents after.enc.inner).length < 2 ^ 64 ∧
        (sink.NeverFails → 2 ^ 64 ≤ (finished libs origin items).length)) := by
  unfold ChunkWriter.finish Locked.Ends
  rw [exec_bind_of_ok (ChunkWriter.exec_ensureReady wrote.ready),
    exec_get_bind, wrote.declares]
  apply (ChunkWriter.encode_ends lawful wrote.toHolds _).mono
  · rintro _ _ ⟨enc, rfl, holds⟩
    exact holds
  · rintro _ _ ⟨enc, rfl, ⟨part, isPart, contents⟩, fits, overflows⟩
    refine ⟨?_, fits, overflows⟩
    change sink.contents enc.inner <+: _
    rw [contents]
    exact (List.prefix_append_right_inj _).mpr isPart

theorem ChunkWriter.exec_finish_of_poisoned (poisoned : writer.state = .poisoned) :
    (ChunkWriter.finish libs).exec writer = (.error .poisoned, writer) := by
  unfold ChunkWriter.finish
  exact exec_bind_of_error (ChunkWriter.exec_ensureReady_of_poisoned poisoned)

end Mnesis.Chunk
