import Mnesis.Foundation.Bytes
import Mnesis.Foundation.Parser

/-!
# Items of CBOR

Every item begins with a head: a kind and a number, which is kept in the first
byte or in one, two, four or eight bytes behind it.  Byte strings and texts have
their content behind the head; the entries of a map follow its head one after the
other.  Only items of definite length are read here.
-/

namespace Mnesis.Foundation.Cbor

/-- Failures of reading an item. -/
inductive DecodeError
  | endOfInput
  | message (text : String)
  deriving DecidableEq

/-- The end of an item is missing. -/
def IsEnd (error : DecodeError) : Prop := error = .endOfInput

theorem isEnd_endOfInput : IsEnd .endOfInput := rfl

/-- A reader of bytes. -/
abbrev Reader (α : Type) := Parser UInt8 DecodeError α

/-- How many bytes behind the first one hold the number. -/
def argumentWidth (info : Nat) : Except DecodeError Nat :=
  if info < 24 then .ok 0
  else if info = 24 then .ok 1
  else if info = 25 then .ok 2
  else if info = 26 then .ok 4
  else if info = 27 then .ok 8
  else .error (.message "no definite length")

/-- The number of a head. -/
def argument (info : Nat) (bytes : List UInt8) : Nat :=
  if info < 24 then info else ofBigEndian bytes

/-- Read a head: the kind and the number. -/
def head : Reader (Nat × Nat) := do
  let first ← Parser.symbol .endOfInput
  let width ← Parser.ofResult (argumentWidth (first.toNat % 32))
  let bytes ← Parser.take .endOfInput width
  return (first.toNat / 32, argument (first.toNat % 32) bytes)

/-- The shortest form of a number: what the first byte says, and how many bytes
follow. -/
def shortestForm (value : Nat) : Nat × Nat :=
  if value < 24 then (value, 0)
  else if value < 2 ^ 8 then (24, 1)
  else if value < 2 ^ 16 then (25, 2)
  else if value < 2 ^ 32 then (26, 4)
  else (27, 8)

/-- Write a head. -/
def writeHead (major value : Nat) : List UInt8 :=
  UInt8.ofNat (32 * major + (shortestForm value).1) :: bigEndian (shortestForm value).2 value

theorem head_resumable : head.Resumable IsEnd := by
  unfold head
  apply (Parser.Resumable.symbol isEnd_endOfInput).bind
  intro first
  apply (Parser.Resumable.ofResult _).bind
  intro width
  apply (Parser.Resumable.take isEnd_endOfInput width).bind
  intro bytes
  exact .pure _

/-- The shortest form holds the number. -/
theorem shortestForm_spec (fits : value < 2 ^ 64) :
    (shortestForm value).1 < 32 ∧
      argumentWidth (shortestForm value).1 = .ok (shortestForm value).2 ∧
      argument (shortestForm value).1 (bigEndian (shortestForm value).2 value) = value := by
  unfold shortestForm
  split
  next small =>
    exact ⟨by omega, if_pos small, if_pos small⟩
  split
  next below => exact ⟨by decide, rfl, ofBigEndian_bigEndian below⟩
  split
  next below => exact ⟨by decide, rfl, ofBigEndian_bigEndian below⟩
  split
  next below => exact ⟨by decide, rfl, ofBigEndian_bigEndian below⟩
  next => exact ⟨by decide, rfl, ofBigEndian_bigEndian fits⟩

theorem head_reads (known : major < 8) (fits : value < 2 ^ 64) :
    head.Reads (writeHead major value) (major, value) := by
  obtain ⟨small, width, number⟩ := shortestForm_spec fits
  have byte : (UInt8.ofNat (32 * major + (shortestForm value).1)).toNat =
      32 * major + (shortestForm value).1 := by
    rw [UInt8.toNat_ofNat_of_lt']
    change _ < 256
    omega
  have info : (32 * major + (shortestForm value).1) % 32 = (shortestForm value).1 := by omega
  have kind : (32 * major + (shortestForm value).1) / 32 = major := by omega
  unfold head writeHead Parser.Reads
  rw [Parser.run_bind_of_ok _ rfl, byte, info, kind, width]
  rw [Parser.run_bind_of_ok _ rfl]
  rw [Parser.run_bind_of_ok _
    (Parser.run_take_eq_ok.mpr ⟨length_bigEndian _ value, (List.append_nil _).symm⟩), number]
  rfl

theorem length_writeHead (major value : Nat) : (writeHead major value).length ≤ 9 := by
  have width : (shortestForm value).2 ≤ 8 := by
    unfold shortestForm
    split
    next => exact Nat.zero_le 8
    split
    next => decide
    split
    next => decide
    split <;> decide
  rw [writeHead, List.length_cons, length_bigEndian]
  omega

/-- Read a head of a kind. -/
def sized (major : Nat) : Reader Nat := do
  let (found, value) ← head
  Parser.ofResult (if found = major then .ok value else .error (.message "unexpected type"))

theorem sized_resumable (major : Nat) : (sized major).Resumable IsEnd := by
  unfold sized
  apply head_resumable.bind
  intro found
  exact .ofResult _

theorem sized_reads (known : major < 8) (fits : value < 2 ^ 64) :
    (sized major).Reads (writeHead major value) value := by
  unfold sized Parser.Reads
  rw [Parser.run_bind_of_ok _ (head_reads known fits)]
  exact Parser.run_ofResult_eq_ok.mpr ⟨if_pos rfl, rfl⟩

/-- Items without parts. -/
inductive Value
  | uint (number : Nat)
  | bytes (content : List UInt8)
  | text (content : List UInt8)
  deriving DecidableEq

/-- How many bytes of content an item has. -/
def contentLength (major argument : Nat) : Except DecodeError Nat :=
  if major = 0 then .ok 0
  else if major = 2 ∨ major = 3 then .ok argument
  else .error (.message "unexpected type")

/-- The item with a head and a content. -/
def valueOf (major argument : Nat) (content : List UInt8) : Value :=
  if major = 0 then .uint argument
  else if major = 2 then .bytes content
  else .text content

/-- Read an item without parts. -/
def item : Reader Value := do
  let found ← head
  let length ← Parser.ofResult (contentLength found.1 found.2)
  let content ← Parser.take .endOfInput length
  return valueOf found.1 found.2 content

/-- Write an item without parts. -/
def writeItem : Value → List UInt8
  | .uint number => writeHead 0 number
  | .bytes content => writeHead 2 content.length ++ content
  | .text content => writeHead 3 content.length ++ content

/-- The number in the head of an item fits a word. -/
def Value.Fits : Value → Prop
  | .uint number => number < 2 ^ 64
  | .bytes content => content.length < 2 ^ 64
  | .text content => content.length < 2 ^ 64

theorem item_resumable : item.Resumable IsEnd := by
  unfold item
  apply head_resumable.bind
  intro found
  apply (Parser.Resumable.ofResult _).bind
  intro length
  apply (Parser.Resumable.take isEnd_endOfInput length).bind
  intro content
  exact .pure _

theorem item_reads_content {argument : Nat} (known : major < 8) (fits : argument < 2 ^ 64)
    (isLength : contentLength major argument = .ok length) (whole : content.length = length) :
    item.Reads (writeHead major argument ++ content) (valueOf major argument content) := by
  unfold item
  apply (head_reads known fits).bind head_resumable
  unfold Parser.Reads
  rw [isLength]
  rw [Parser.run_bind_of_ok _ rfl]
  rw [Parser.run_bind_of_ok _ (Parser.run_take_eq_ok.mpr ⟨whole, (List.append_nil content).symm⟩)]
  rfl

theorem item_reads {value : Value} (fits : value.Fits) : item.Reads (writeItem value) value := by
  cases value with
  | uint number =>
    rw [writeItem, ← List.append_nil (writeHead 0 number)]
    exact item_reads_content (by decide) fits rfl rfl
  | bytes content => exact item_reads_content (by decide) fits rfl rfl
  | text content => exact item_reads_content (by decide) fits rfl rfl

/-- Read entries: a number and an item each. -/
def entries : Nat → Reader (List (Nat × Value))
  | 0 => return []
  | count + 1 => do
    let key ← sized 0
    let value ← item
    let others ← entries count
    return (key, value) :: others

/-- Read a map from numbers to items. -/
def record : Reader (List (Nat × Value)) := do
  let count ← sized 5
  entries count

/-- Write the entries of a map. -/
def writeEntries (fields : List (Nat × Value)) : List UInt8 :=
  fields.flatMap fun field => writeHead 0 field.1 ++ writeItem field.2

theorem entries_resumable (count : Nat) : (entries count).Resumable IsEnd := by
  induction count with
  | zero => exact .pure _
  | succ count step =>
    unfold entries
    apply (sized_resumable 0).bind
    intro key
    apply item_resumable.bind
    intro value
    apply step.bind
    intro others
    exact .pure _

theorem record_resumable : record.Resumable IsEnd :=
  (sized_resumable 5).bind entries_resumable

theorem entries_reads (fits : ∀ field ∈ fields, field.1 < 2 ^ 64 ∧ field.2.Fits) :
    (entries fields.length).Reads (writeEntries fields) fields := by
  induction fields with
  | nil => rfl
  | cons field fields step =>
    obtain ⟨⟨keyFits, valueFits⟩, others⟩ := List.forall_mem_cons.mp fits
    rw [List.length_cons, entries, writeEntries, List.flatMap_cons, List.append_assoc]
    apply (sized_reads (by decide) keyFits).bind (sized_resumable 0)
    apply (item_reads valueFits).bind item_resumable
    rw [← List.append_nil (List.flatMap _ fields)]
    apply (step others).bind (entries_resumable fields.length)
    rfl

theorem record_reads (few : fields.length < 2 ^ 64)
    (fits : ∀ field ∈ fields, field.1 < 2 ^ 64 ∧ field.2.Fits) :
    record.Reads (writeHead 5 fields.length ++ writeEntries fields) fields := by
  unfold record
  apply (sized_reads (by decide) few).bind (sized_resumable 5)
  exact entries_reads fits

end Mnesis.Foundation.Cbor
