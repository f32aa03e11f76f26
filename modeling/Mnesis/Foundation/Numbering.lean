import Mathlib.Data.List.Nodup

/-!
# Numbering by optimistic writers

Rows of any number of streams, each with a number in its stream and the stamp of
the writer it is from.  A writer looks at a stream, and numbers its rows from the
last number that it saw, while others do the same.  Nothing else is coordinated,
except that no two rows of a stream have one number.

That is enough: all rows come behind those that were there, a writer's stamp is larger
than those of the rows that precede its own, and streams that begin without rows have
the numbers one, two, three and so on.
-/

namespace Mnesis.Foundation

/-- What rows carry. -/
structure Numbering (Row Key : Type) where
  stream : Row → Key
  number : Row → Nat
  stamp : Row → Nat

namespace Numbering

variable {Row Key : Type} (N : Numbering Row Key)

/-- What must be unique about a row. -/
def place (row : Row) : Key × Nat := (N.stream row, N.number row)

/-- The numbers of a stream have no gap behind a base. -/
def Solid (rows : List Row) (key : Key) (base : Nat) : Prop :=
  ∀ row ∈ rows, N.stream row = key → ∀ number, base < number → number < N.number row →
    (key, number) ∈ rows.map N.place

/-- A base is a number of a stream, or it is before all of them. -/
def Reached (rows : List Row) (key : Key) (base : Nat) : Prop :=
  base = 0 ∨ (key, base) ∈ rows.map N.place

/-- More rows, all of them beyond those that were there, and no new gap. -/
structure Extends (rows after : List Row) : Prop where
  isPrefix : rows <+: after
  beyond : ∀ row ∈ after, row ∈ rows ∨
    ∀ other ∈ rows, N.stream other = N.stream row → N.number other < N.number row
  solid : ∀ {key base}, N.Solid rows key base → N.Solid after key base

/-- A number that a stream has reached, with no gap behind it, and rows up to it that have
smaller stamps. -/
structure Based (rows : List Row) (stamp : Nat) (key : Key) (base : Nat) : Prop where
  reached : N.Reached rows key base
  solid : N.Solid rows key base
  older : ∀ row ∈ rows, N.stream row = key → 0 < N.number row → N.number row ≤ base →
    N.stamp row < stamp

/-- The rows of a writer, each of them next to what the writer saw or to one of its
own rows. -/
inductive Justified (rows : List Row) (stamp : Nat) : List Row → Prop
  | nil : Justified rows stamp []
  | snoc {own : List Row} {row : Row} {base : Nat}
      (before : Justified rows stamp own)
      (next : N.number row = base + 1)
      (basis : N.Based rows stamp (N.stream row) base ∨
        ∃ earlier ∈ own, N.place earlier = (N.stream row, base)) :
      Justified rows stamp (own ++ [row])

variable {N} {stamp larger base : Nat}

theorem Extends.refl (rows : List Row) : N.Extends rows rows where
  isPrefix := List.prefix_refl rows
  beyond _ := .inl
  solid := id

theorem Extends.trans (first : N.Extends rows middle) (second : N.Extends middle after) :
    N.Extends rows after where
  isPrefix := first.isPrefix.trans second.isPrefix
  beyond row present := by
    rcases second.beyond row present with present | beyond
    · exact first.beyond row present
    · exact .inr fun other known => beyond other (first.isPrefix.subset known)
  solid solid := second.solid (first.solid solid)

theorem Reached.mono (reached : N.Reached rows key base) (subset : rows ⊆ after) :
    N.Reached after key base :=
  reached.imp_right fun present => List.map_subset N.place subset present

/-- What a writer saw stays true when others add their rows. -/
theorem Based.extend (based : N.Based rows stamp key base) (grows : N.Extends rows after)
    (le : stamp ≤ larger) :
    N.Based after larger key base where
  reached := based.reached.mono grows.isPrefix.subset
  solid := grows.solid based.solid
  older row present isKey positive small := by
    rcases grows.beyond row present with present | beyond
    · exact Nat.lt_of_lt_of_le (based.older row present isKey positive small) le
    -- a row that was added is beyond the base
    · rcases based.reached with rfl | taken
      · omega
      · obtain ⟨other, known, isPlace⟩ := List.mem_map.mp taken
        obtain ⟨isStream, isNumber⟩ := Prod.mk.inj isPlace
        have larger := beyond other known (isStream.trans isKey.symm)
        omega

theorem Justified.extend (justified : N.Justified rows stamp own) (grows : N.Extends rows after)
    (le : stamp ≤ larger) :
    N.Justified after larger own := by
  induction justified with
  | nil => exact .nil
  | snoc _ next basis before =>
    exact before.snoc next (basis.imp_left fun based => based.extend grows le)

/-- A row next to a number that its stream has reached leaves no new gap. -/
theorem Solid.snoc (solid : N.Solid rows key floor) (next : N.number row = base + 1)
    (reached : N.Reached rows (N.stream row) base) :
    N.Solid (rows ++ [row]) key floor := by
  intro other present isKey number above below
  rw [List.map_append]
  apply List.mem_append_left
  rcases List.mem_append.mp present with present | isRow
  · exact solid other present isKey number above below
  · cases List.mem_singleton.mp isRow
    rcases reached with rfl | taken
    · omega
    · rw [isKey] at taken
      rcases Nat.lt_or_eq_of_le (show number ≤ base by omega) with smaller | rfl
      · obtain ⟨last, known, isPlace⟩ := List.mem_map.mp taken
        obtain ⟨isStream, rfl⟩ := Prod.mk.inj isPlace
        exact solid last known isStream number above smaller
      · exact taken

/-- A free number behind a base is beyond the whole stream. -/
theorem Solid.beyond (solid : N.Solid rows key floor) (above : floor ≤ base)
    (free : (key, base + 1) ∉ rows.map N.place) :
    ∀ other ∈ rows, N.stream other = key → N.number other < base + 1 := by
  intro other present isKey
  by_contra large
  rcases Nat.lt_or_eq_of_le (Nat.le_of_not_lt large) with larger | same
  · exact free (solid other present isKey (base + 1) (by omega) larger)
  · refine free (List.mem_map.mpr ⟨other, present, ?_⟩)
    rw [place, isKey, ← same]

section Gapless

variable (N) [DecidableEq Key]

/-- The rows of one stream. -/
def rowsOf (rows : List Row) (key : Key) : List Row :=
  rows.filter fun row => N.stream row = key

/-- The numbers of every stream have no gap. -/
def Gapless (rows : List Row) : Prop :=
  ∀ key, (N.rowsOf rows key).map N.number = List.range' 1 (N.rowsOf rows key).length

variable {N}

theorem mem_rowsOf : row ∈ N.rowsOf rows key ↔ row ∈ rows ∧ N.stream row = key := by
  simp [rowsOf]

theorem rowsOf_append (more : List Row) :
    N.rowsOf (rows ++ more) key = N.rowsOf rows key ++ N.rowsOf more key :=
  List.filter_append ..

theorem gapless_nil : N.Gapless [] := fun _ => rfl

/-- The numbers of a stream are those up to its length. -/
theorem Gapless.mem_number (gapless : N.Gapless rows) {number : Nat} :
    number ∈ (N.rowsOf rows key).map N.number ↔
      0 < number ∧ number ≤ (N.rowsOf rows key).length := by
  rw [gapless key, List.mem_range'_1]
  omega

/-- One more row that has the next number. -/
theorem Gapless.snoc (gapless : N.Gapless rows)
    (next : N.number row = (N.rowsOf rows (N.stream row)).length + 1) :
    N.Gapless (rows ++ [row]) := by
  intro key
  rw [rowsOf_append]
  by_cases same : N.stream row = key
  · subst same
    have single : N.rowsOf [row] (N.stream row) = [row] := by simp [rowsOf]
    rw [single, List.map_append, gapless, List.map_singleton, next, List.length_append,
      List.length_singleton, List.range'_1_concat, Nat.add_comm]
  · have empty : N.rowsOf [row] key = [] := by simp [rowsOf, same]
    rw [empty, List.append_nil, gapless]

/-- Of two rows of one stream the earlier one has the smaller number. -/
theorem Gapless.pairwise (gapless : N.Gapless rows) :
    rows.Pairwise fun row other =>
      N.stream row = N.stream other → N.number row < N.number other := by
  apply List.pairwise_iff_forall_sublist.mpr
  intro row other sublist same
  have inStream : List.Sublist [row, other] (N.rowsOf rows (N.stream other)) := by
    have filtered := sublist.filter fun row => N.stream row = N.stream other
    simpa [rowsOf, same] using filtered
  have numbers := inStream.map N.number
  rw [gapless] at numbers
  exact List.pairwise_iff_forall_sublist.mp List.pairwise_lt_range' numbers

/-- The last number of a stream without gaps is its length. -/
theorem Gapless.length_eq (gapless : N.Gapless rows) (reached : N.Reached rows key base)
    (beyond : ∀ other ∈ rows, N.stream other = key → N.number other < base + 1) :
    (N.rowsOf rows key).length = base := by
  have upper : base ≤ (N.rowsOf rows key).length := by
    rcases reached with rfl | taken
    · exact Nat.zero_le _
    · obtain ⟨other, present, isPlace⟩ := List.mem_map.mp taken
      obtain ⟨isStream, rfl⟩ := Prod.mk.inj isPlace
      exact (gapless.mem_number.mp (List.mem_map_of_mem (mem_rowsOf.mpr ⟨present, isStream⟩))).2
  by_contra different
  have isNumber : (N.rowsOf rows key).length ∈ (N.rowsOf rows key).map N.number :=
    gapless.mem_number.mpr ⟨by omega, Nat.le_refl _⟩
  obtain ⟨last, inStream, isLast⟩ := List.mem_map.mp isNumber
  obtain ⟨present, isStream⟩ := mem_rowsOf.mp inStream
  have below := beyond last present isStream
  omega

/-- What the rows of a writer are when all places are unique. -/
structure Continues (N : Numbering Row Key) (rows : List Row) (stamp : Nat) (own : List Row) :
    Prop where
  extend : N.Extends rows (rows ++ own)
  rooted : ∀ row ∈ own, ∃ base, N.Based rows stamp (N.stream row) base ∧ base < N.number row
  older : ∀ row ∈ own, ∀ earlier ∈ rows, N.stream earlier = N.stream row →
    0 < N.number earlier → N.stamp earlier < stamp
  gapless : N.Gapless rows → N.Gapless (rows ++ own)

theorem Continues.nil : N.Continues rows stamp [] where
  extend := by
    rw [List.append_nil]
    exact .refl rows
  rooted _ absent := (nomatch absent)
  older _ absent := (nomatch absent)
  gapless gapless := by rwa [List.append_nil]

theorem Continues.snoc (continues : N.Continues rows stamp own) (next : N.number row = base + 1)
    (basis : N.Based rows stamp (N.stream row) base ∨
      ∃ earlier ∈ own, N.place earlier = (N.stream row, base))
    (free : N.place row ∉ (rows ++ own).map N.place) :
    N.Continues rows stamp (own ++ [row]) := by
  -- the chain of own rows below the new one ends at what the writer saw
  obtain ⟨root, based, above⟩ : ∃ root, N.Based rows stamp (N.stream row) root ∧ root ≤ base := by
    rcases basis with based | ⟨link, linked, isPlace⟩
    · exact ⟨base, based, Nat.le_refl _⟩
    · obtain ⟨isStream, isNumber⟩ := Prod.mk.inj isPlace
      obtain ⟨root, based, above⟩ := continues.rooted link linked
      exact ⟨root, isStream ▸ based, by omega⟩
  have reached : N.Reached (rows ++ own) (N.stream row) base := by
    rcases basis with based | ⟨link, linked, isPlace⟩
    · exact based.reached.mono (List.subset_append_left _ _)
    · exact .inr (List.mem_map.mpr ⟨link, List.mem_append_right _ linked, isPlace⟩)
  rw [place, next] at free
  have beyond := (continues.extend.solid based.solid).beyond above free
  refine ⟨⟨List.prefix_append .., ?_, ?_⟩, ?_, ?_, ?_⟩
  · rw [← List.append_assoc]
    refine List.forall_mem_append.mpr ⟨continues.extend.beyond, List.forall_mem_singleton.mpr ?_⟩
    rw [next]
    exact .inr fun other known => beyond other (List.mem_append_left _ known)
  · intro key floor solid
    rw [← List.append_assoc]
    exact (continues.extend.solid solid).snoc next reached
  · exact List.forall_mem_append.mpr ⟨continues.rooted,
      List.forall_mem_singleton.mpr ⟨root, based, by omega⟩⟩
  · refine List.forall_mem_append.mpr ⟨continues.older, List.forall_mem_singleton.mpr ?_⟩
    intro earlier present isStream positive
    rcases basis with based | ⟨link, linked, isPlace⟩
    · have below := beyond earlier (List.mem_append_left _ present) isStream
      exact based.older earlier present isStream positive (by omega)
    · exact continues.older link linked earlier present
        (isStream.trans (Prod.mk.inj isPlace).1.symm) positive
  · intro gapless
    have gapless := continues.gapless gapless
    rw [← List.append_assoc]
    refine gapless.snoc ?_
    rw [gapless.length_eq reached beyond, next]

/-- Unique places make the rows of a writer continue their streams. -/
theorem Justified.continues (justified : N.Justified rows stamp own)
    (unique : ((rows ++ own).map N.place).Nodup) :
    N.Continues rows stamp own := by
  induction justified with
  | nil => exact .nil
  | snoc _ next basis before =>
    rw [← List.append_assoc, List.map_append, List.nodup_append] at unique
    obtain ⟨unique, -, disjoint⟩ := unique
    refine (before unique).snoc next basis fun taken => ?_
    exact disjoint _ taken _ (List.mem_singleton.mpr rfl) rfl

end Gapless

end Numbering

end Mnesis.Foundation
