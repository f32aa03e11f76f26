import Mathlib.Data.List.Infix
import Mnesis.Foundation.Result

/-!
# Parsers of items

A parser reads an item from the front of its input and leaves the rest.  Bytes behind
the item do not change what is read, and an item that is cut short is reported as
such.  Both are kept when parsers are put together.
-/

namespace Mnesis.Foundation

/-- A reader of items from the front of an input. -/
abbrev Parser (Symbol Error α : Type) := StateT (List Symbol) (Except Error) α

namespace Parser

variable {Symbol ε ε' α β : Type}

/-- Read nothing and continue with a result. -/
def ofResult (result : Except ε α) : Parser Symbol ε α :=
  fun input => result.map fun value => (value, input)

/-- Read one symbol. -/
def symbol (missing : ε) : Parser Symbol ε Symbol
  | [] => .error missing
  | first :: rest => .ok (first, rest)

/-- Read a number of symbols. -/
def take (missing : ε) (count : Nat) : Parser Symbol ε (List Symbol) :=
  fun input =>
    if count ≤ input.length then .ok (input.take count, input.drop count) else .error missing

/-- Read ahead without moving. -/
def lookahead (parser : Parser Symbol ε α) : Parser Symbol ε α :=
  fun input => (parser.run input).map fun read => (read.1, input)

/-- Report failures in another type. -/
def mapError (convert : ε → ε') (parser : Parser Symbol ε α) : Parser Symbol ε' α :=
  fun input => (parser.run input).mapError convert

variable {next : α → Parser Symbol ε β}

section Run

theorem run_ofResult_eq_ok :
    (ofResult result : Parser Symbol ε α).run input = .ok (value, rest) ↔
      result = .ok value ∧ rest = input := by
  change result.map _ = _ ↔ _
  cases result with
  | error error => simp [Except.map]
  | ok found => simp [Except.map, eq_comm]

theorem run_lookahead_eq_ok :
    (lookahead parser).run input = .ok (value, rest) ↔
      (∃ left, parser.run input = .ok (value, left)) ∧ rest = input := by
  change (parser.run input).map _ = _ ↔ _
  cases parser.run input with
  | error error => simp [Except.map]
  | ok read =>
    obtain ⟨found, left⟩ := read
    simp [Except.map, eq_comm]

theorem run_lookahead_eq_error :
    (lookahead parser).run input = .error error ↔ parser.run input = .error error := by
  change (parser.run input).map _ = _ ↔ _
  cases parser.run input <;> simp [Except.map]

theorem run_mapError_eq_ok :
    (mapError convert parser).run input = .ok (value, rest) ↔
      parser.run input = .ok (value, rest) :=
  mapError_eq_ok

theorem run_bind_eq_ok :
    (parser >>= next).run input = .ok (result, rest) ↔
      ∃ value left, parser.run input = .ok (value, left) ∧
        (next value).run left = .ok (result, rest) := by
  rw [StateT.run_bind, bind_eq_ok, Prod.exists]

theorem run_bind_of_ok (next : α → Parser Symbol ε β)
    (read : parser.run input = .ok (value, rest)) :
    (parser >>= next).run input = (next value).run rest := by
  rw [StateT.run_bind, read, ok_bind]

theorem run_bind_of_error (next : α → Parser Symbol ε β)
    (failed : parser.run input = .error error) :
    (parser >>= next).run input = .error error := by
  rw [StateT.run_bind, failed, error_bind]

end Run

/-- A parser that reads its item whatever follows, and that reports an item
whose end is missing with an error of the given kind. -/
structure Resumable (short : ε → Prop) (parser : Parser Symbol ε α) : Prop where
  suffix : ∀ {input value rest}, parser.run input = .ok (value, rest) → rest <:+ input
  extended : ∀ {input value rest},
    parser.run input = .ok (value, rest) →
      ∀ tail, parser.run (input ++ tail) = .ok (value, rest ++ tail)
  cut : ∀ {input tail value rest},
    parser.run (input ++ tail) = .ok (value, rest) →
      (∃ error, short error ∧ parser.run input = .error error) ∨
        ∃ left, parser.run input = .ok (value, left) ∧ rest = left ++ tail

/-- A parser reads exactly the given item. -/
def Reads (parser : Parser Symbol ε α) (item : List Symbol) (value : α) : Prop :=
  parser.run item = .ok (value, [])

variable {short : ε → Prop} {parser : Parser Symbol ε α}

/-- An item is read in front of anything. -/
theorem Reads.followed (reads : parser.Reads item value)
    (resumable : parser.Resumable short) (rest : List Symbol) :
    parser.run (item ++ rest) = .ok (value, rest) :=
  resumable.extended reads rest

/-- An item without its end is reported. -/
theorem Reads.cut
    (reads : parser.Reads (part ++ missing) value) (resumable : parser.Resumable short)
    (cut : missing ≠ []) :
    ∃ error, short error ∧ parser.run part = .error error := by
  rcases resumable.cut reads with reported | ⟨left, _, whole⟩
  · exact reported
  · exact absurd (List.append_eq_nil_iff.mp whole.symm).2 cut

theorem Reads.bind (reads : parser.Reads first value) (resumable : parser.Resumable short)
    (continues : (next value).Reads second result) :
    (parser >>= next).Reads (first ++ second) result := by
  unfold Reads
  rw [run_bind_of_ok next (reads.followed resumable second)]
  exact continues

theorem Resumable.pure (value : α) : Resumable short (pure value : Parser Symbol ε α) where
  suffix read := by
    cases read
    exact List.suffix_refl _
  extended read tail := by
    cases read
    rfl
  cut read := by
    cases read
    exact .inr ⟨_, rfl, rfl⟩

theorem Resumable.ofResult (result : Except ε α) :
    Resumable short (ofResult result : Parser Symbol ε α) where
  suffix read := by
    rw [(run_ofResult_eq_ok.mp read).2]
  extended read tail := by
    obtain ⟨isResult, same⟩ := run_ofResult_eq_ok.mp read
    exact run_ofResult_eq_ok.mpr ⟨isResult, by rw [same]⟩
  cut read := by
    obtain ⟨isResult, same⟩ := run_ofResult_eq_ok.mp read
    exact .inr ⟨_, run_ofResult_eq_ok.mpr ⟨isResult, rfl⟩, same⟩

theorem Resumable.symbol (isShort : short missing) :
    Resumable short (symbol missing : Parser Symbol ε Symbol) where
  suffix := by
    intro input value rest read
    cases input with
    | nil => cases read
    | cons first input =>
      cases read
      exact List.suffix_cons _ _
  extended := by
    intro input value rest read tail
    cases input with
    | nil => cases read
    | cons first input =>
      cases read
      rfl
  cut := by
    intro input tail value rest read
    cases input with
    | nil => exact .inl ⟨missing, isShort, rfl⟩
    | cons first input =>
      cases read
      exact .inr ⟨input, rfl, rfl⟩

theorem run_take_eq_ok :
    (take missing count : Parser Symbol ε _).run input = .ok (value, rest) ↔
      value.length = count ∧ input = value ++ rest := by
  change (if count ≤ input.length then _ else _) = _ ↔ _
  constructor
  · intro read
    split at read
    next enough =>
      cases read
      exact ⟨List.length_take_of_le enough, (List.take_append_drop count input).symm⟩
    next => cases read
  · rintro ⟨rfl, rfl⟩
    rw [if_pos (by simp), List.take_left, List.drop_left]

theorem Resumable.take (isShort : short missing) (count : Nat) :
    Resumable short (take missing count : Parser Symbol ε _) where
  suffix := by
    intro input value rest read
    rw [(run_take_eq_ok.mp read).2]
    exact List.suffix_append value rest
  extended := by
    intro input value rest read tail
    obtain ⟨length, same⟩ := run_take_eq_ok.mp read
    exact run_take_eq_ok.mpr ⟨length, by rw [same, List.append_assoc]⟩
  cut := by
    intro input tail value rest read
    obtain ⟨length, same⟩ := run_take_eq_ok.mp read
    by_cases enough : count ≤ input.length
    · right
      rcases List.append_eq_append_iff.mp same with
        ⟨more, isValue, isTail⟩ | ⟨left, isInput, isRest⟩
      · -- the value ends where the input does
        have empty : more = [] := by
          have total := congrArg List.length isValue
          rw [List.length_append] at total
          exact List.length_eq_zero_iff.mp (by omega)
        rw [empty, List.append_nil] at isValue
        rw [empty, List.nil_append] at isTail
        exact ⟨[], run_take_eq_ok.mpr ⟨length, by rw [isValue, List.append_nil]⟩, isTail.symm⟩
      · exact ⟨left, run_take_eq_ok.mpr ⟨length, isInput⟩, isRest⟩
    · left
      exact ⟨missing, isShort, if_neg enough⟩

theorem Resumable.bind (first : parser.Resumable short)
    (second : ∀ value, (next value).Resumable short) :
    (parser >>= next).Resumable short where
  suffix read := by
    obtain ⟨value, left, reads, continues⟩ := run_bind_eq_ok.mp read
    exact ((second value).suffix continues).trans (first.suffix reads)
  extended read tail := by
    obtain ⟨value, left, reads, continues⟩ := run_bind_eq_ok.mp read
    exact run_bind_eq_ok.mpr
      ⟨value, _, first.extended reads tail, (second value).extended continues tail⟩
  cut read := by
    obtain ⟨value, left, reads, continues⟩ := run_bind_eq_ok.mp read
    -- the end is missing already for the first parser, or only for the second
    rcases first.cut reads with ⟨error, isShort, failed⟩ | ⟨middle, partly, rfl⟩
    · exact .inl ⟨error, isShort, run_bind_of_error next failed⟩
    · rw [run_bind_of_ok next partly]
      exact (second value).cut continues

theorem Resumable.mapError
    (resumable : parser.Resumable short) (kept : ∀ error, short error → short' (convert error)) :
    (parser.mapError convert).Resumable short' where
  suffix read := resumable.suffix (run_mapError_eq_ok.mp read)
  extended read tail :=
    run_mapError_eq_ok.mpr (resumable.extended (run_mapError_eq_ok.mp read) tail)
  cut read := by
    rcases resumable.cut (run_mapError_eq_ok.mp read) with
      ⟨error, isShort, failed⟩ | ⟨left, reads, same⟩
    · exact .inl ⟨convert error, kept error isShort, mapError_eq_error.mpr ⟨error, failed, rfl⟩⟩
    · exact .inr ⟨left, run_mapError_eq_ok.mpr reads, same⟩

theorem Resumable.lookahead (resumable : parser.Resumable short) :
    parser.lookahead.Resumable short where
  suffix read := by
    rw [(run_lookahead_eq_ok.mp read).2]
  extended read tail := by
    obtain ⟨⟨left, reads⟩, same⟩ := run_lookahead_eq_ok.mp read
    exact run_lookahead_eq_ok.mpr ⟨⟨_, resumable.extended reads tail⟩, by rw [same]⟩
  cut read := by
    obtain ⟨⟨left, reads⟩, same⟩ := run_lookahead_eq_ok.mp read
    rcases resumable.cut reads with ⟨error, isShort, failed⟩ | ⟨middle, reads, _⟩
    · exact .inl ⟨error, isShort, run_lookahead_eq_error.mpr failed⟩
    · exact .inr ⟨_, run_lookahead_eq_ok.mpr ⟨⟨middle, reads⟩, rfl⟩, same⟩

/-- A parser has only failures of a kind. -/
def FailsWith (kind : ε → Prop) (parser : Parser Symbol ε α) : Prop :=
  ∀ input error, parser.run input = .error error → kind error

section Failures

variable {kind : ε → Prop}

theorem FailsWith.pure (value : α) : FailsWith kind (pure value : Parser Symbol ε α) := by
  intro input error failed
  cases failed

theorem FailsWith.ofResult (kinds : ∀ error, result = .error error → kind error) :
    FailsWith kind (ofResult result : Parser Symbol ε α) := by
  intro input error failed
  cases result with
  | ok value => cases failed
  | error found =>
    cases failed
    exact kinds error rfl

theorem FailsWith.bind (first : parser.FailsWith kind)
    (second : ∀ value, (next value).FailsWith kind) :
    (parser >>= next).FailsWith kind := by
  intro input error failed
  rw [StateT.run_bind] at failed
  rcases bind_eq_error.mp failed with failed | ⟨⟨value, left⟩, _, failed⟩
  · exact first _ _ failed
  · exact second value _ _ failed

theorem FailsWith.mapError (parser : Parser Symbol ε α) (kinds : ∀ error, kind' (convert error)) :
    (parser.mapError convert).FailsWith kind' := by
  intro input error failed
  obtain ⟨original, _, rfl⟩ := mapError_eq_error.mp failed
  exact kinds original

end Failures

end Parser

end Mnesis.Foundation
