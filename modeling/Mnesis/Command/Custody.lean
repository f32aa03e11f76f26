import Mnesis.Command.Log
import Mnesis.Command.System

/-!
# Custody of unresolved appends

An append is spent once the stream has grown past its base: it has taken effect
or never will.  Custody says that every append an engine has issued is spent or
belongs to the request the engine holds.
-/

namespace Mnesis.Command

open Foundation Kernel Store

variable {P : Processor}

namespace Attempt

/-- The requests whose records an append carries. -/
def requests (attempt : Attempt P) : List P.Request :=
  attempt.records.map Record.request

/-- The stream has grown past the base of an append. -/
def Spent (history : List PendingEnvelope) (attempt : Attempt P) : Prop :=
  depth attempt.base < history.length

/-- One attempt is a later state of another: the store may have acted on it. -/
structure Advances (earlier later : Attempt P) : Prop where
  records : later.records = earlier.records
  base : later.base = earlier.base
  batch : later.batch = earlier.batch
  decided : earlier.fate ≠ .inFlight → later.fate = earlier.fate

theorem Advances.refl (attempt : Attempt P) : attempt.Advances attempt :=
  ⟨rfl, rfl, rfl, fun _ => rfl⟩

theorem Advances.trans {first : Attempt P} (early : first.Advances second)
    (late : second.Advances third) :
    first.Advances third where
  records := late.records.trans early.records
  base := late.base.trans early.base
  batch := late.batch.trans early.batch
  decided decided := by
    have kept := early.decided decided
    rw [late.decided (kept ▸ decided), kept]

theorem Advances.requests {earlier : Attempt P} (advances : earlier.Advances later) :
    later.requests = earlier.requests := by
  rw [Attempt.requests, advances.records]
  rfl

theorem Spent.mono {attempt : Attempt P}
    (spent : attempt.Spent history) (isPrefix : history <+: longer) :
    attempt.Spent longer :=
  Nat.lt_of_lt_of_le spent isPrefix.length_le

theorem Advances.spent_iff {earlier : Attempt P} (advances : earlier.Advances later) :
    later.Spent history ↔ earlier.Spent history := by
  rw [Spent, Spent, advances.base]

end Attempt

/-- An append was decided on the part of the stream below its base, carries the
one record that continues it, and its fate is visible in the stream. -/
structure Grounding (history : List PendingEnvelope) (attempt : Attempt P) (log : List P.Record)
    (record : P.Record) (row : PendingEnvelope) : Prop where
  inside : depth attempt.base ≤ history.length
  represents : Represents (history.take (depth attempt.base)) log
  extending : Extends log record
  decoded : decode row = .ok record
  records : attempt.records = [record]
  batch : attempt.batch = .of row
  landed : attempt.fate = .landed → history[depth attempt.base]? = some row
  refused : attempt.fate = .refused → attempt.Spent history

/-- An append that some decision on the stream stands behind. -/
def Grounded (history : List PendingEnvelope) (attempt : Attempt P) : Prop :=
  ∃ log record row, Grounding history attempt log record row

namespace Grounding

variable {attempt : Attempt P} {log : List P.Record} {record : P.Record}

section

variable (grounding : Grounding history attempt log record row)
include grounding

theorem length_log : log.length = depth attempt.base := by
  rw [← grounding.represents.length_eq, List.length_take, Nat.min_eq_left grounding.inside]

theorem expected_eq : record.request.expected = attempt.base := by
  apply depth_injective
  rw [grounding.extending.base, grounding.length_log]

theorem requests_eq : attempt.requests = [record.request] := by
  rw [Attempt.requests, grounding.records]
  rfl

theorem spent_of_landed (landed : attempt.fate = .landed) :
    attempt.Spent history :=
  (List.getElem?_eq_some_iff.mp (grounding.landed landed)).1

theorem grow (isPrefix : history <+: longer) :
    Grounding longer attempt log record row where
  inside := Nat.le_trans grounding.inside isPrefix.length_le
  represents := by
    obtain ⟨rest, rfl⟩ := isPrefix
    rw [List.take_append_of_le_length grounding.inside]
    exact grounding.represents
  extending := grounding.extending
  decoded := grounding.decoded
  records := grounding.records
  batch := grounding.batch
  landed landed := by
    obtain ⟨rest, rfl⟩ := isPrefix
    rw [List.getElem?_append_left (grounding.spent_of_landed landed)]
    exact grounding.landed landed
  refused refused := (grounding.refused refused).mono isPrefix

end

end Grounding

theorem Grounded.base_of_requests (grounded : Grounded history attempt)
    (carries : attempt.requests = [request]) :
    attempt.base = request.expected := by
  obtain ⟨log, record, row, grounding⟩ := grounded
  rw [grounding.requests_eq, List.singleton_inj] at carries
  rw [← carries, grounding.expected_eq]

/-- The stream represents a log, every append is grounded in it, and an append
for another request is only issued when the earlier ones are spent. -/
structure Sound (view : View P) : Prop where
  log : ∃ log : List P.Record, Represents view.history log
  grounded : ∀ attempt ∈ view.attempts, Grounded view.history attempt
  ordered : view.attempts.Pairwise fun earlier later =>
    earlier.requests ≠ later.requests → earlier.Spent view.history

/-- Every append is spent or belongs to the held request. -/
def Custody (held : Option P.Request) (view : View P) : Prop :=
  ∀ attempt ∈ view.attempts, attempt.Spent view.history ∨
    ∃ request, held = some request ∧ attempt.requests = [request]

/-- What other engines and the store may do to a view. -/
structure Later (earlier later : View P) : Prop where
  history : earlier.history <+: later.history
  length : later.attempts.length = earlier.attempts.length
  advances : ∀ (index : Nat) (attempt : Attempt P),
    later.attempts[index]? = some attempt →
    ∃ before, earlier.attempts[index]? = some before ∧ before.Advances attempt
  notes : later.notes = earlier.notes

theorem Later.refl (view : View P) : Later view view where
  history := List.prefix_rfl
  length := rfl
  advances _ attempt present := ⟨attempt, present, .refl attempt⟩
  notes := rfl

theorem Later.trans (early : Later first second) (late : Later second third) :
    Later first third where
  history := early.history.trans late.history
  length := late.length.trans early.length
  advances index attempt present := by
    obtain ⟨between, presentBetween, advanced⟩ := late.advances index attempt present
    obtain ⟨before, presentBefore, advancedBefore⟩ := early.advances index between presentBetween
    exact ⟨before, presentBefore, advancedBefore.trans advanced⟩
  notes := late.notes.trans early.notes

theorem Custody.later {held : Option P.Request} {view after : View P} (custody : Custody held view)
    (later : Later view after) :
    Custody held after := by
  intro attempt present
  obtain ⟨index, atIndex⟩ := List.mem_iff_getElem?.mp present
  obtain ⟨before, presentBefore, advances⟩ := later.advances index attempt atIndex
  rw [advances.requests, advances.spent_iff]
  rcases custody before (List.mem_of_getElem? presentBefore) with spent | held
  · exact .inl (spent.mono later.history)
  · exact .inr held

theorem Custody.spent_of_none (custody : Custody none view) (present : attempt ∈ view.attempts) :
    attempt.Spent view.history := by
  rcases custody attempt present with spent | ⟨request, impossible, _⟩
  · exact spent
  · cases impossible

theorem Custody.release (sound : Sound view) (custody : Custody (some request) view)
    (past : depth request.expected < view.history.length) :
    Custody none view := by
  intro attempt present
  rcases custody attempt present with spent | ⟨held, isHeld, carries⟩
  · exact .inl spent
  · cases isHeld
    refine .inl ?_
    rw [Attempt.Spent, (sound.grounded attempt present).base_of_requests carries]
    exact past

theorem Custody.hold (custody : Custody none view) (request : P.Request) :
    Custody (some request) view :=
  fun _ present => .inl (custody.spent_of_none present)

theorem Sound.congr (sound : Sound view)
    (sameHistory : other.history = view.history) (sameAttempts : other.attempts = view.attempts) :
    Sound other := by
  constructor
  · rw [sameHistory]
    exact sound.log
  · rw [sameHistory, sameAttempts]
    exact sound.grounded
  · rw [sameHistory, sameAttempts]
    exact sound.ordered

theorem Custody.congr (custody : Custody held view)
    (sameHistory : other.history = view.history) (sameAttempts : other.attempts = view.attempts) :
    Custody held other := by
  rw [Custody, sameHistory, sameAttempts]
  exact custody

theorem Sound.read (sound : Sound view) : Sound (issue .readStream view) :=
  sound.congr rfl rfl

theorem Custody.read (custody : Custody held view) : Custody held (issue .readStream view) :=
  custody.congr rfl rfl

/-- An append of the next record of a loaded history, issued while nothing but
its own request is unresolved. -/
theorem Custody.append (sound : Sound view)
    (custody : Custody (some record.request) view) (isPrefix : rows <+: view.history)
    (represents : Represents rows log) (extending : Extends log record)
    (decoded : decode row = .ok record) (atEnd : depth base = rows.length) :
    Sound (issue (.append [record] base (.of row)) view) ∧
      Custody (some record.request) (issue (.append [record] base (.of row)) view) := by
  have grounding : Grounding view.history ⟨[record], base, .of row, .inFlight⟩ log record row := {
    inside := by
      rw [atEnd]
      exact isPrefix.length_le
    represents := by
      rw [atEnd, ← List.prefix_iff_eq_take.mp isPrefix]
      exact represents
    extending := extending
    decoded := decoded
    records := rfl
    batch := rfl
    landed := by simp
    refused := by simp }
  refine ⟨⟨sound.log, ?_, ?_⟩, ?_⟩
  · intro attempt present
    rcases List.mem_append.mp present with earlier | isNew
    · exact sound.grounded attempt earlier
    · rw [List.mem_singleton.mp isNew]
      exact ⟨log, record, row, grounding⟩
  · refine List.pairwise_append.mpr ⟨sound.ordered, List.pairwise_singleton _ _, ?_⟩
    intro earlier present new isNew different
    rw [List.mem_singleton.mp isNew] at different
    rcases custody earlier present with spent | ⟨request, isHeld, carries⟩
    · exact spent
    · cases isHeld
      exact absurd carries different
  · intro attempt present
    rcases List.mem_append.mp present with earlier | isNew
    · exact custody attempt earlier
    · rw [List.mem_singleton.mp isNew]
      exact .inr ⟨record.request, rfl, rfl⟩

/-- The contract of engine code: soundness and custody hold whenever a store
call is sent out, and the environment keeps the view sound. -/
def contract (P : Processor) :
    Contract (Option P.Request) (StoreCall P.Record)
      (StoreCall.Answer P.AdapterError) (View P) where
  guard call held view := Sound (issue call view) ∧ Custody held (issue call view)
  issue := issue
  rely view after := Later view after ∧ Sound after
  answer := Answers
  rely_trans early late := ⟨early.1.trans late.1, late.2⟩

end Mnesis.Command
