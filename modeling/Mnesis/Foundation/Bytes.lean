import Mathlib.Algebra.Group.Nat.Defs
import Mathlib.Data.List.Basic
import Mathlib.Tactic.Tauto

/-!
# Numbers of a fixed width

`checkedAdd` is addition that reports overflow instead of wrapping, and `narrow` is the
conversion of a length to a type that holds the numbers below a limit.

Numbers are written with their most or their least significant byte first.  The most
significant byte first makes the lexicographic order of the bytes the order of the
numbers.
-/

namespace Mnesis.Foundation

/-- Addition that fails when the sum does not fit a word. -/
def checkedAdd (left right : UInt64) : Option UInt64 :=
  if left.toNat + right.toNat < 2 ^ 64 then some (left + right) else none

theorem checkedAdd_eq_some :
    checkedAdd left right = some sum ↔ sum.toNat = left.toNat + right.toNat := by
  unfold checkedAdd
  split
  next fits =>
    rw [Option.some_inj, ← UInt64.toNat_inj, UInt64.toNat_add, Nat.mod_eq_of_lt fits]
    exact eq_comm
  next overflows =>
    have bounded := sum.toNat_lt
    constructor
    · intro impossible
      cases impossible
    · intro exact
      omega

/-- The sum exists as soon as it fits. -/
theorem checkedAdd_of_lt (fits : left.toNat + right.toNat < 2 ^ 64) :
    checkedAdd left right = some (left + right) :=
  if_pos fits

theorem toNat_add_of_lt {left right : UInt64} (fits : left.toNat + right.toNat < 2 ^ 64) :
    (left + right).toNat = left.toNat + right.toNat :=
  checkedAdd_eq_some.mp (checkedAdd_of_lt fits)

/-- Adding a number to a word. -/
theorem toNat_add_ofNat (fits : word.toNat + number < 2 ^ 64) :
    (word + UInt64.ofNat number).toNat = word.toNat + number := by
  have same : (UInt64.ofNat number).toNat = number :=
    UInt64.toNat_ofNat_of_lt' (Nat.lt_of_le_of_lt (Nat.le_add_left _ _) fits)
  rw [toNat_add_of_lt (by rw [same]; exact fits), same]

/-- Subtraction that fails when the difference is negative. -/
def checkedSub (left right : UInt64) : Option UInt64 :=
  if right ≤ left then some (left - right) else none

theorem checkedSub_of_le (fits : right ≤ left) : checkedSub left right = some (left - right) :=
  if_pos fits

/-- A number that stays below a limit. -/
def narrow (limit value : Nat) : Option Nat :=
  if value < limit then some value else none

@[simp] theorem narrow_eq_some :
    narrow limit value = some result ↔ value < limit ∧ value = result := by
  unfold narrow
  split <;> simp [*]

theorem narrow_of_lt (fits : value < limit) : narrow limit value = some value :=
  if_pos fits

/-- A number as a 32-bit word. -/
def toU32 (value : Nat) : Option UInt32 :=
  if value < 2 ^ 32 then some (UInt32.ofNat value) else none

@[simp] theorem toU32_eq_some : toU32 value = some word ↔ word.toNat = value := by
  unfold toU32
  split
  next fits =>
    rw [Option.some_inj, ← UInt32.toNat_inj, UInt32.toNat_ofNat_of_lt' fits]
    exact eq_comm
  next tooLarge =>
    have bounded := word.toNat_lt
    constructor
    · intro impossible
      cases impossible
    · intro same
      omega

theorem toU32_of_lt (fits : value < 2 ^ 32) : toU32 value = some (UInt32.ofNat value) :=
  if_pos fits

/-- A number as a 64-bit word. -/
def toU64 (value : Nat) : Option UInt64 :=
  if value < 2 ^ 64 then some (UInt64.ofNat value) else none

theorem toU64_of_lt (fits : value < 2 ^ 64) : toU64 value = some (UInt64.ofNat value) :=
  if_pos fits

theorem toNat_of_toU64 (isWord : toU64 value = some word) : word.toNat = value := by
  unfold toU64 at isWord
  split at isWord
  next fits =>
    cases isWord
    exact UInt64.toNat_ofNat_of_lt' fits
  next => cases isWord

theorem toNat_ofNat_u32 (fits : value < 2 ^ 32) : (UInt32.ofNat value).toNat = value :=
  UInt32.toNat_ofNat_of_lt' fits

/-- The lowest `width` bytes of a number, most significant first. -/
def bigEndian : Nat → Nat → List UInt8
  | 0, _ => []
  | width + 1, value => UInt8.ofNat (value / 256 ^ width) :: bigEndian width value

/-- The number written most significant byte first. -/
def ofBigEndian : List UInt8 → Nat
  | [] => 0
  | byte :: rest => byte.toNat * 256 ^ rest.length + ofBigEndian rest

/-- The lowest `width` bytes of a number, least significant first. -/
def littleEndian : Nat → Nat → List UInt8
  | 0, _ => []
  | width + 1, value => UInt8.ofNat value :: littleEndian width (value / 256)

/-- The number written least significant byte first. -/
def ofLittleEndian : List UInt8 → Nat
  | [] => 0
  | byte :: rest => byte.toNat + 256 * ofLittleEndian rest

@[simp] theorem length_bigEndian (width value : Nat) : (bigEndian width value).length = width := by
  induction width with
  | zero => rfl
  | succ width same => rw [bigEndian, List.length_cons, same]

theorem ofBigEndian_lt (bytes : List UInt8) : ofBigEndian bytes < 256 ^ bytes.length := by
  induction bytes with
  | nil => decide
  | cons byte rest below =>
    have bounded : byte.toNat + 1 ≤ 256 := byte.toNat_lt
    calc byte.toNat * 256 ^ rest.length + ofBigEndian rest
        < (byte.toNat + 1) * 256 ^ rest.length := by
          rw [Nat.succ_mul]
          exact Nat.add_lt_add_left below _
      _ ≤ 256 * 256 ^ rest.length := Nat.mul_le_mul_right _ bounded
      _ = 256 ^ (byte :: rest).length := by rw [List.length_cons, Nat.pow_succ']

/-- Reading back what was written gives the number modulo the width. -/
theorem ofBigEndian_bigEndian_mod (width value : Nat) :
    ofBigEndian (bigEndian width value) = value % 256 ^ width := by
  induction width with
  | zero => rw [Nat.pow_zero, Nat.mod_one, bigEndian, ofBigEndian]
  | succ width readsBack =>
    have split : value % 256 ^ (width + 1) =
        value % 256 ^ width + 256 ^ width * (value / 256 ^ width % 2 ^ 8) :=
      Nat.mod_mul
    rw [bigEndian, ofBigEndian, length_bigEndian, readsBack, UInt8.toNat_ofNat', split,
      Nat.mul_comm]
    exact Nat.add_comm _ _

theorem ofBigEndian_bigEndian (fits : value < 256 ^ width) :
    ofBigEndian (bigEndian width value) = value := by
  rw [ofBigEndian_bigEndian_mod, Nat.mod_eq_of_lt fits]

/-- Bytes of the same length are equal when they denote the same number. -/
theorem ofBigEndian_injective (sameLength : left.length = right.length)
    (sameValue : ofBigEndian left = ofBigEndian right) :
    left = right := by
  induction left generalizing right with
  | nil => exact (List.length_eq_zero_iff.mp sameLength.symm).symm
  | cons byte rest injective =>
    cases right with
    | nil => cases sameLength
    | cons other others =>
      have sameRest : rest.length = others.length := Nat.succ.inj sameLength
      simp only [ofBigEndian, sameRest] at sameValue
      have below := ofBigEndian_lt rest
      have othersBelow := ofBigEndian_lt others
      rw [sameRest] at below
      have positive : 0 < 256 ^ others.length := Nat.pow_pos (by decide)
      have leading : ∀ high low, low < 256 ^ others.length →
          (high * 256 ^ others.length + low) / 256 ^ others.length = high := by
        intro high low small
        rw [Nat.mul_comm, Nat.mul_add_div positive, Nat.div_eq_of_lt small, Nat.add_zero]
      have sameByte : byte.toNat = other.toNat := by
        rw [← leading byte.toNat _ below, sameValue, leading _ _ othersBelow]
      rw [sameByte] at sameValue
      rw [UInt8.toNat_inj.mp sameByte, injective sameRest (Nat.add_left_cancel sameValue)]

theorem bigEndian_ofBigEndian (bytes : List UInt8) :
    bigEndian bytes.length (ofBigEndian bytes) = bytes :=
  ofBigEndian_injective (length_bigEndian _ _) (ofBigEndian_bigEndian (ofBigEndian_lt bytes))

@[simp] theorem length_littleEndian (width value : Nat) :
    (littleEndian width value).length = width := by
  induction width generalizing value with
  | zero => rfl
  | succ width same => rw [littleEndian, List.length_cons, same]

theorem ofLittleEndian_littleEndian (fits : value < 256 ^ width) :
    ofLittleEndian (littleEndian width value) = value := by
  induction width generalizing value with
  | zero =>
    rw [Nat.pow_zero, Nat.lt_one_iff] at fits
    rw [fits, littleEndian, ofLittleEndian]
  | succ width readsBack =>
    have restFits : value / 256 < 256 ^ width := by
      rw [Nat.div_lt_iff_lt_mul (by decide), ← Nat.pow_succ]
      exact fits
    rw [littleEndian, ofLittleEndian, readsBack restFits, UInt8.toNat_ofNat']
    omega

theorem ofLittleEndian_lt (bytes : List UInt8) : ofLittleEndian bytes < 256 ^ bytes.length := by
  induction bytes with
  | nil => decide
  | cons byte rest below =>
    have bounded := byte.toNat_lt
    rw [ofLittleEndian, List.length_cons, Nat.pow_succ']
    omega

theorem littleEndian_ofLittleEndian (bytes : List UInt8) :
    littleEndian bytes.length (ofLittleEndian bytes) = bytes := by
  induction bytes with
  | nil => rfl
  | cons byte rest same =>
    have bounded : byte.toNat < 256 := byte.toNat_lt
    have low : UInt8.ofNat (byte.toNat + 256 * ofLittleEndian rest) = byte := by
      rw [← UInt8.toNat_inj, UInt8.toNat_ofNat']
      omega
    have high : (byte.toNat + 256 * ofLittleEndian rest) / 256 = ofLittleEndian rest := by
      omega
    rw [List.length_cons, ofLittleEndian, littleEndian, low, high, same]

section Order

variable {left right before after : List UInt8}

/-- Behind parts of the same length, the order is decided by these parts first. -/
theorem append_lt_append_iff (sameLength : left.length = right.length) :
    left ++ before < right ++ after ↔ left < right ∨ left = right ∧ before < after := by
  induction left generalizing right with
  | nil =>
    rw [List.length_eq_zero_iff.mp sameLength.symm]
    simp
  | cons byte rest step =>
    cases right with
    | nil => cases sameLength
    | cons other others =>
      have step := step (Nat.succ.inj sameLength)
      simp only [List.cons_append, List.cons_lt_cons_iff, step, List.cons.injEq]
      tauto

/-- Bytes of the same length are ordered as the numbers they denote. -/
theorem lt_iff_ofBigEndian_lt (sameLength : left.length = right.length) :
    left < right ↔ ofBigEndian left < ofBigEndian right := by
  induction left generalizing right with
  | nil =>
    rw [List.length_eq_zero_iff.mp sameLength.symm]
    simp
  | cons byte rest step =>
    cases right with
    | nil => cases sameLength
    | cons other others =>
      have sameRest : rest.length = others.length := Nat.succ.inj sameLength
      have below := ofBigEndian_lt rest
      have othersBelow := ofBigEndian_lt others
      rw [sameRest] at below
      rw [List.cons_lt_cons_iff, step sameRest, UInt8.lt_iff_toNat_lt,
        ← UInt8.toNat_inj, ofBigEndian, ofBigEndian, sameRest]
      constructor
      · rintro (less | ⟨same, less⟩)
        · have room := Nat.mul_le_mul_right (256 ^ others.length) (Nat.succ_le_of_lt less)
          rw [Nat.succ_mul] at room
          omega
        · rw [same]
          exact Nat.add_lt_add_left less _
      · intro less
        rcases Nat.lt_trichotomy byte.toNat other.toNat with lower | same | higher
        · exact .inl lower
        · rw [same] at less
          exact .inr ⟨same, Nat.lt_of_add_lt_add_left less⟩
        · have room := Nat.mul_le_mul_right (256 ^ others.length) (Nat.succ_le_of_lt higher)
          rw [Nat.succ_mul] at room
          omega

/-- Numbers of the same width are ordered as their bytes. -/
theorem bigEndian_lt_iff (firstFits : first < 256 ^ width) (secondFits : second < 256 ^ width) :
    bigEndian width first < bigEndian width second ↔ first < second := by
  rw [lt_iff_ofBigEndian_lt (by rw [length_bigEndian, length_bigEndian]),
    ofBigEndian_bigEndian firstFits, ofBigEndian_bigEndian secondFits]

theorem bigEndian_inj (firstFits : first < 256 ^ width) (secondFits : second < 256 ^ width) :
    bigEndian width first = bigEndian width second ↔ first = second := by
  constructor
  · intro same
    rw [← ofBigEndian_bigEndian firstFits, same, ofBigEndian_bigEndian secondFits]
  · rintro rfl
    rfl

end Order

section Fields

variable {α : Type} {left middle right bytes : List α}

/-- Neighbouring fields make up one field. -/
theorem extract_append_extract (ordered : start ≤ between) (orderedAfter : between ≤ stop) :
    bytes.extract start between ++ bytes.extract between stop = bytes.extract start stop := by
  have length : stop - start = (between - start) + (stop - between) := by omega
  have offset : start + (between - start) = between := by omega
  simp only [List.extract_eq_take_drop]
  rw [length, List.take_add, List.drop_drop, offset]

theorem extract_all (all : bytes.length = stop) : bytes.extract 0 stop = bytes := by
  rw [List.extract_eq_take_drop, List.drop_zero, Nat.sub_zero, ← all, List.take_length]

theorem length_extract (inside : stop ≤ bytes.length) :
    (bytes.extract start stop).length = stop - start := by
  rw [List.extract_eq_take_drop, List.length_take, List.length_drop]
  omega

/-- A field is found between what precedes and what follows it. -/
theorem extract_middle (starts : left.length = start) (stops : start + middle.length = stop) :
    (left ++ (middle ++ right)).extract start stop = middle := by
  subst starts stops
  rw [List.extract_eq_take_drop, List.drop_left, Nat.add_sub_cancel_left, List.take_left]

/-- The first field is found at the start. -/
theorem extract_first (stops : left.length = stop) : (left ++ right).extract 0 stop = left := by
  subst stops
  rw [List.extract_eq_take_drop, List.drop_zero, Nat.sub_zero, List.take_left]

/-- The last field is found at the end. -/
theorem extract_last (starts : left.length = start) (stops : start + right.length = stop) :
    (left ++ right).extract start stop = right := by
  subst starts stops
  rw [List.extract_eq_take_drop, List.drop_left, Nat.add_sub_cancel_left, List.take_length]

/-- A prefix of two parts ends within the first one, or behind it. -/
theorem prefix_append_cases (isPrefix : left <+: first ++ second) :
    (∃ missing, missing ≠ [] ∧ first = left ++ missing) ∨
      ∃ more, left = first ++ more ∧ more <+: second := by
  by_cases within : left.length < first.length
  · left
    obtain ⟨missing, isFirst⟩ :=
      List.prefix_of_prefix_length_le isPrefix (List.prefix_append first second)
        (Nat.le_of_lt within)
    refine ⟨missing, ?_, isFirst.symm⟩
    rintro rfl
    rw [List.append_nil] at isFirst
    exact absurd (congrArg List.length isFirst) (Nat.ne_of_lt within)
  · right
    obtain ⟨more, isLeft⟩ := List.prefix_of_prefix_length_le
      (List.prefix_append first second) isPrefix (Nat.not_lt.mp within)
    refine ⟨more, isLeft.symm, ?_⟩
    rw [← isLeft] at isPrefix
    exact (List.prefix_append_right_inj first).mp isPrefix

/-- Lists that differ at most in the given places. -/
structure EqualOutside (start stop : Nat) (left right : List α) : Prop where
  length : left.length = right.length
  getElem? : ∀ index, index < start ∨ stop ≤ index → left[index]? = right[index]?

theorem equalOutside_middle (starts : left.length = start)
    (stops : start + middle.length = stop) (sameLength : other.length = middle.length) :
    EqualOutside start stop (left ++ (middle ++ right)) (left ++ (other ++ right)) where
  length := by
    simp only [List.length_append, sameLength]
  getElem? := by
    rintro index (before | behind)
    · rw [List.getElem?_append_left (by omega), List.getElem?_append_left (by omega)]
    · rw [List.getElem?_append_right (by omega), List.getElem?_append_right (by omega),
        List.getElem?_append_right (by omega), List.getElem?_append_right (by omega), sameLength]

end Fields

end Mnesis.Foundation
