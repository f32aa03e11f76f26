import Mnesis.InMemory.Refinement

/-!
# What holds in every state of the in-memory store

The rows of the streams, the index of all events and the position counter are
kept in step by separate updates.  They agree after every sequence of calls,
since they then represent an event log.
-/

namespace Mnesis.InMemory

open Foundation Kernel Store

/-- The rows, the index and the counter agree. -/
structure Coherent (inner : Inner) : Prop where
  /-- A stream that is present has rows, and they are numbered from one. -/
  numbered : ∀ (id : StreamKey) (rows : List StoredFrame), inner.streams[id]? = some rows →
    rows ≠ [] ∧ rows.map (fun row : StoredFrame => row.version.toNat) = List.range' 1 rows.length
  /-- The positions of the index increase. -/
  increasing : (inner.globalIndex.toList.map fun entry => entry.1.toNat).Pairwise (· < ·)
  /-- The counter is beyond every position of the index. -/
  below : ∀ entry ∈ inner.globalIndex.toList, entry.1.toNat < inner.nextGlobalSeq.toNat
  /-- The entries of the index are the rows of the streams, each of them once and
  with the stream of its row. -/
  correspondence : Set.BijOn Prod.snd {entry | entry ∈ inner.globalIndex.toList}
    {row | ∃ rows, inner.streams[row.1]? = some rows ∧ row.2 ∈ rows}
  /-- The rows of a stream have their positions in the order of their versions. -/
  ordered : ∀ (id : StreamKey) (first second : InMemoryAllPos × StoredFrame),
    (first.1, id, first.2) ∈ inner.globalIndex.toList →
    (second.1, id, second.2) ∈ inner.globalIndex.toList →
    (first.2.version.toNat < second.2.version.toNat ↔ first.1.toNat < second.1.toNat)

section Represents

variable {inner : Inner}

theorem Represents.mem_index (represents : Represents inner log) :
    entry ∈ inner.globalIndex.toList ↔
      ∃ envelope, log.entries[entry.1.toNat - 1]? = some (entry.2.1, envelope) ∧
        storedFrame envelope = entry.2.2 := by
  obtain ⟨position, id, frame⟩ := entry
  rw [Std.ExtTreeMap.mem_toList_iff_getElem?_eq_some, represents.index position,
    Option.map_eq_some_iff]
  constructor
  · rintro ⟨⟨_, envelope⟩, present, same⟩
    cases same
    exact ⟨envelope, present, rfl⟩
  · rintro ⟨envelope, present, rfl⟩
    exact ⟨_, present, rfl⟩

theorem Represents.mem_rows (represents : Represents inner log) {row : StreamKey × StoredFrame} :
    (∃ rows, inner.streams[row.1]? = some rows ∧ row.2 ∈ rows) ↔
      ∃ envelope, (row.1, envelope) ∈ log.entries ∧ storedFrame envelope = row.2 := by
  simp only [represents.streams.rows row.1, Option.ite_none_left_eq_some, Option.some_inj,
    ← mem_eventsOf, ← List.mem_map]
  constructor
  · rintro ⟨rows, ⟨_, rfl⟩, present⟩
    exact present
  · intro present
    refine ⟨_, ⟨?_, rfl⟩, present⟩
    intro empty
    rw [empty] at present
    cases present

theorem Represents.exists_position (represents : Represents inner log)
    (inside : place < log.count) :
    ∃ position : InMemoryAllPos, position.toNat = place + 1 := by
  have within : log.count ≤ 2 ^ 64 - 2 := represents.bounded.count_le
  exact Version.exists_toNat_eq (Nat.succ_pos place) (by omega)

/-- Rows, index and counter of a log are in step. -/
theorem Represents.coherent (represents : Represents inner log) : Coherent inner where
  numbered id rows present := by
    rw [represents.streams.rows id, Option.ite_none_left_eq_some, Option.some_inj] at present
    obtain ⟨nonempty, rfl⟩ := present
    rw [List.map_map, List.length_map]
    exact ⟨fun empty => nonempty (List.map_eq_nil_iff.mp empty), log.numbered id⟩
  increasing := by
    rw [List.pairwise_map]
    refine Std.ExtTreeMap.ordered_keys_toList.imp fun {first second} lower => ?_
    exact UInt64.lt_iff_toNat_lt.mp (Std.compare_eq_lt.mp lower)
  below := by
    intro entry present
    obtain ⟨envelope, present, _⟩ := represents.mem_index.mp present
    obtain ⟨inside, _⟩ := List.getElem?_eq_some_iff.mp present
    have positive := entry.1.toNat_pos
    have next : inner.nextGlobalSeq.toNat = log.entries.length + 1 := represents.next
    omega
  correspondence := by
    refine ⟨?_, ?_, ?_⟩
    · intro entry present
      obtain ⟨envelope, present, same⟩ := represents.mem_index.mp present
      exact represents.mem_rows.mpr ⟨envelope, List.mem_of_getElem? present, same⟩
    · intro first firstPresent second secondPresent same
      obtain ⟨earlier, firstAt, isFirst⟩ := represents.mem_index.mp firstPresent
      obtain ⟨later, secondAt, isSecond⟩ := represents.mem_index.mp secondPresent
      rw [← same] at secondAt isSecond
      have sameVersion : versionNumber earlier = versionNumber later :=
        congrArg (fun frame : StoredFrame => frame.version.toNat) (isFirst.trans isSecond.symm)
      have notBefore := EventLog.version_lt_iff firstAt secondAt
      have notBehind := EventLog.version_lt_iff secondAt firstAt
      have firstPositive := first.1.toNat_pos
      have secondPositive := second.1.toNat_pos
      exact Prod.ext (Version.toNat_injective (by omega)) same
    · intro row present
      obtain ⟨envelope, present, same⟩ := represents.mem_rows.mp present
      obtain ⟨place, present⟩ := List.mem_iff_getElem?.mp present
      obtain ⟨inside, _⟩ := List.getElem?_eq_some_iff.mp present
      obtain ⟨position, isPosition⟩ := represents.exists_position inside
      refine ⟨(position, row), represents.mem_index.mpr ⟨envelope, ?_, same⟩, rfl⟩
      rw [isPosition, Nat.add_sub_cancel]
      exact present
  ordered := by
    rintro id ⟨position, frame⟩ ⟨other, otherFrame⟩ firstPresent secondPresent
    obtain ⟨first, firstAt, isFirst⟩ := represents.mem_index.mp firstPresent
    obtain ⟨second, secondAt, isSecond⟩ := represents.mem_index.mp secondPresent
    obtain rfl : storedFrame first = frame := isFirst
    obtain rfl : storedFrame second = otherFrame := isSecond
    have positive := position.toNat_pos
    have otherPositive := other.toNat_pos
    calc versionNumber first < versionNumber second
      _ ↔ position.toNat - 1 < other.toNat - 1 := EventLog.version_lt_iff firstAt secondAt
      _ ↔ position.toNat < other.toNat := by omega

end Represents

/-- After every sequence of calls the rows, the index and the counter agree, and
the next call, if it fails, changes none of them. -/
theorem coherent_run (calls : List Call) :
    Coherent (machine.run calls) ∧
      ∀ call, (machine.step (machine.run calls) call).1.position = none →
        (machine.step (machine.run calls) call).2 = machine.run calls :=
  ⟨(implements.refines.run calls).coherent, implements.unchanged_of_refused calls⟩

/-- The append of a fresh stream fails the second time and changes nothing. -/
theorem repeated_append_changes_nothing :
    (machine.step (machine.run [(freshRun [1]).toCall]) (freshRun [1]).toCall).1.position = none ∧
      Coherent (machine.run [(freshRun [1]).toCall]) ∧
      (machine.step (machine.run [(freshRun [1]).toCall]) (freshRun [1]).toCall).2 =
        machine.run [(freshRun [1]).toCall] := by
  have failed : (machine.step (machine.run [(freshRun [1]).toCall])
      (freshRun [1]).toCall).1.position = none :=
    (implements.refines.answer [(freshRun [1]).toCall] (freshRun [1]).toCall).trans (by decide)
  obtain ⟨coherent, unchanged⟩ := coherent_run [(freshRun [1]).toCall]
  exact ⟨failed, coherent, unchanged _ failed⟩

end Mnesis.InMemory
