import Mathlib.Data.Nat.Basic
import Mathlib.Order.Lattice
import Mnesis.Foundation.Bytes

/-!
# Stream versions

A `Version` is a non-zero 64-bit number.  The position of a stream is an
`Option Version`: `none` before its first event.  `depth` reads such a
position as the number of events it stands for, and the order and successor of
positions are characterised through it.
-/

namespace Mnesis.Kernel

open Foundation

/-- Version of an event in its stream. -/
structure Version where
  asU64 : UInt64
  ne_zero : asU64 ≠ 0
  deriving DecidableEq

namespace Version

/-- The first version of every stream. -/
def initial : Version := ⟨1, by decide⟩

/-- A version from its number; zero is not one. -/
def new (value : UInt64) : Option Version :=
  if nonzero : value ≠ 0 then some ⟨value, nonzero⟩ else none

/-- The following version, unless the number is exhausted. -/
def next (version : Version) : Option Version :=
  (checkedAdd version.asU64 1).bind new

/-- The natural number a version stands for. -/
def toNat (version : Version) : Nat := version.asU64.toNat

instance : LE Version where
  le left right := left.asU64 ≤ right.asU64

instance (left right : Version) : Decidable (left ≤ right) :=
  inferInstanceAs (Decidable (left.asU64 ≤ right.asU64))

instance : (left right : Option Version) → Decidable (left ≤ right)
  | none, _ => isTrue (by simp)
  | some _, none => isFalse (by simp)
  | some left, some right =>
    decidable_of_iff (left ≤ right) Option.some_le_some.symm

theorem toNat_injective {right : Version} (equal : left.toNat = right.toNat) :
    left = right := by
  cases left
  cases right
  simpa only [toNat, UInt64.toNat_inj, mk.injEq] using equal

theorem toNat_pos (version : Version) : 0 < version.toNat := by
  have nonzero : version.asU64.toNat ≠ 0 := fun zero =>
    version.ne_zero (UInt64.toNat_inj.mp zero)
  unfold toNat
  omega

theorem new_eq_some : new value = some version ↔ version.asU64 = value := by
  unfold new
  split
  next nonzero =>
    rw [Option.some_inj]
    constructor
    · rintro rfl
      rfl
    · rintro rfl
      rfl
  next zero =>
    constructor
    · intro impossible
      cases impossible
    · rintro rfl
      exact absurd version.ne_zero zero

/-- The next version has the next number. -/
theorem next_eq_some {version : Version} :
    version.next = some successor ↔ successor.toNat = version.toNat + 1 := by
  unfold next
  rw [Option.bind_eq_some_iff]
  constructor
  · rintro ⟨sum, added, isSum⟩
    have exact := checkedAdd_eq_some.mp added
    rw [← new_eq_some.mp isSum] at exact
    exact exact
  · intro exact
    exact ⟨successor.asU64, checkedAdd_eq_some.mpr exact, new_eq_some.mpr rfl⟩

end Version

open Version

/-- The number of a stream position; an empty stream has number zero. -/
def rawHead (version : Option Version) : UInt64 :=
  version.elim 0 asU64

/-- How many events lie at or below a stream position. -/
def depth (version : Option Version) : Nat :=
  (rawHead version).toNat

/-- The version that continues a stream position. -/
def following (version : Option Version) : Option Version :=
  version.elim (some initial) next

/-- The stream position after a number of events. -/
def ofDepth (count : Nat) : Option Version :=
  new (UInt64.ofNat count)

@[simp] theorem depth_none : depth none = 0 := rfl

@[simp] theorem depth_some (version : Version) : depth (some version) = version.toNat := rfl

theorem depth_lt (version : Option Version) : depth version < 2 ^ 64 :=
  (rawHead version).toNat_lt

/-- Positions of the same depth are the same. -/
theorem depth_injective {right : Option Version} (equal : depth left = depth right) :
    left = right := by
  cases left with
  | none =>
    cases right with
    | none => rfl
    | some right => exact absurd equal (Nat.ne_of_lt (toNat_pos right))
  | some left =>
    cases right with
    | none => exact absurd equal (Nat.ne_of_gt (toNat_pos left))
    | some right => rw [toNat_injective equal]

@[simp] theorem rawHead_new (value : UInt64) : rawHead (new value) = value := by
  unfold new
  split
  next nonzero => rfl
  next zero =>
    rw [Decidable.not_not.mp zero]
    rfl

/-- What follows a position is one deeper. -/
theorem following_eq_some {version : Option Version} :
    following version = some successor ↔ successor.toNat = depth version + 1 := by
  cases version with
  | none =>
    rw [following, Option.elim_none, Option.some_inj]
    constructor
    · rintro rfl
      rfl
    · intro exact
      exact (toNat_injective exact).symm
  | some version => exact next_eq_some

theorem following_of_lt (fits : depth version + 1 < 2 ^ 64) :
    ∃ successor, following version = some successor := by
  have sum : (rawHead version + 1).toNat = depth version + 1 := toNat_add_of_lt fits
  have nonzero : rawHead version + 1 ≠ 0 := by
    intro zero
    rw [zero] at sum
    exact absurd sum (by simp)
  exact ⟨⟨rawHead version + 1, nonzero⟩, following_eq_some.mpr sum⟩

/-- Only behind the last version nothing follows. -/
theorem following_eq_none : following version = none ↔ depth version + 1 = 2 ^ 64 := by
  have bounded := depth_lt version
  constructor
  · intro exhausted
    refine Decidable.byContradiction fun notLast => ?_
    have fits : depth version + 1 < 2 ^ 64 := by omega
    obtain ⟨successor, continued⟩ := following_of_lt fits
    rw [exhausted] at continued
    cases continued
  · intro last
    cases continued : following version with
    | none => rfl
    | some successor =>
      have exact := following_eq_some.mp continued
      have fits := depth_lt (some successor)
      rw [depth_some] at fits
      omega

theorem depth_ofDepth (fits : count < 2 ^ 64) : depth (ofDepth count) = count := by
  rw [depth, ofDepth, rawHead_new]
  exact UInt64.toNat_ofNat_of_lt' fits

theorem Version.exists_toNat_eq (positive : 0 < number) (fits : number < 2 ^ 64) :
    ∃ version : Version, version.toNat = number := by
  have number_eq := depth_ofDepth fits
  cases isVersion : ofDepth number with
  | none =>
    rw [isVersion, depth_none] at number_eq
    omega
  | some version =>
    rw [isVersion, depth_some] at number_eq
    exact ⟨version, number_eq⟩

@[simp] theorem ofDepth_depth (version : Option Version) : ofDepth (depth version) = version :=
  depth_injective (depth_ofDepth (depth_lt version))

/-- Positions are ordered by their depths. -/
theorem le_iff_depth_le (left right : Option Version) :
    left ≤ right ↔ depth left ≤ depth right := by
  cases left with
  | none => simp
  | some left =>
    cases right with
    | none =>
      have positive := toNat_pos left
      simp only [depth_some, depth_none, Option.not_some_le_none, false_iff]
      omega
    | some right =>
      rw [Option.some_le_some]
      exact UInt64.le_iff_toNat_le

/-- Versions are ordered by their numbers. -/
instance : LinearOrder Version :=
  LinearOrder.lift' toNat fun _ _ => toNat_injective

theorem Version.lt_iff_toNat_lt {right : Version} : left < right ↔ left.toNat < right.toNat :=
  Iff.rfl

end Mnesis.Kernel
