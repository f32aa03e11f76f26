import Mnesis.Kernel.Aggregate
import Mnesis.Store.Envelope

/-!
# Keys of the partitions

Events are stored under `[u16 BE id length][id][u64 BE version]`, and once more
under `[u64 BE position][u16 BE id length][id][u64 BE version]`.  The length in
front of an id keeps the keys of different streams apart, and the order of keys is
the order of their numbers.
-/

namespace Mnesis.Fjall

open Foundation Kernel Store

/-- Longest key of the storage engine. -/
def maxKeyLen : Nat := 65535

/-- Longest stream id: a key of the second layout has 18 other bytes. -/
def maxStreamIdLen : Nat := maxKeyLen - 18

/-- Refused stored bytes. -/
inductive DecodeError
  | invalidSize (expected actual : Nat)
  | valueTooShort (min actual : Nat)
  deriving DecidableEq

/-- Refused ids. -/
inductive EncodeError
  | idTooLong (len max : Nat)
  deriving DecidableEq

/-- Size of the length in front of an id. -/
def eventKeyHeaderSize : Nat := 2

/-- Size of the version behind an id. -/
def eventKeyVersionSize : Nat := 8

/-- Size of an event key. -/
def eventKeySize (idLen : Nat) : Nat :=
  eventKeyHeaderSize + idLen + eventKeyVersionSize

/-- Size of what is in front of the id in a key of the `$all` index. -/
def globalKeyPrefixSize : Nat := 8 + 2

/-- Size of the version behind the id in a key of the `$all` index. -/
def globalKeyVersionSize : Nat := 8

/-- The length of an id as 16 bits, unless it exceeds a bound. -/
def checkedIdLen (len max : Nat) : Except EncodeError Nat := do
  rejectIf (max < len) (.idTooLong len max)
  okOr (narrow (2 ^ 16) len) (.idTooLong len max)

/-- The key of an event in its stream. -/
def encodeEventKey (id : Bytes) (version : UInt64) : Except EncodeError Bytes := do
  let max := maxKeyLen - eventKeyHeaderSize - eventKeyVersionSize
  let idLen ← checkedIdLen id.length max
  return bigEndian 2 idLen ++ id ++ bigEndian 8 version.toNat

/-- The id and the version of an event key. -/
def decodeEventKey (key : Bytes) : Except DecodeError (Bytes × UInt64) := do
  rejectIf (key.length < eventKeyHeaderSize) (.valueTooShort eventKeyHeaderSize key.length)
  let idLen := ofBigEndian (key.extract 0 2)
  rejectIf (key.length ≠ eventKeySize idLen) (.invalidSize (eventKeySize idLen) key.length)
  let versionStart := eventKeyHeaderSize + idLen
  return (key.extract eventKeyHeaderSize (eventKeyHeaderSize + idLen),
    UInt64.ofNat (ofBigEndian (key.extract versionStart (versionStart + 8))))

/-- The key of an event in the `$all` index. -/
def encodeGlobalKey (globalSeq : UInt64) (id : Bytes)
    (version : UInt64) : Except EncodeError Bytes := do
  let idLen ← checkedIdLen id.length maxStreamIdLen
  return bigEndian 8 globalSeq.toNat ++ bigEndian 2 idLen ++ id ++ bigEndian 8 version.toNat

/-- The position, the id and the version of a key of the `$all` index. -/
def decodeGlobalKey (key : Bytes) : Except DecodeError (UInt64 × Bytes × UInt64) := do
  let min := globalKeyPrefixSize + globalKeyVersionSize
  rejectIf (key.length < min) (.valueTooShort min key.length)
  let globalSeq := UInt64.ofNat (ofBigEndian (key.extract 0 8))
  let idLen := ofBigEndian (key.extract 8 10)
  let expectedTotal ← okOr
    (do narrow usizeLimit ((← narrow usizeLimit (globalKeyPrefixSize + idLen)) +
      globalKeyVersionSize))
    (.invalidSize (usizeLimit - 1) key.length)
  rejectIf (key.length ≠ expectedTotal) (.invalidSize expectedTotal key.length)
  let versionStart := globalKeyPrefixSize + idLen
  return (globalSeq,
    key.extract globalKeyPrefixSize (globalKeyPrefixSize + idLen),
    UInt64.ofNat (ofBigEndian (key.extract versionStart (versionStart + 8))))

/-- A stream version as it is stored. -/
def encodeStreamVersion (version : UInt64) : Bytes :=
  littleEndian 8 version.toNat

/-- A stored stream version. -/
def decodeStreamVersion (bytes : Bytes) : Except DecodeError UInt64 := do
  rejectIf (bytes.length ≠ 8) (.invalidSize 8 bytes.length)
  return UInt64.ofNat (ofLittleEndian bytes)

theorem checkedIdLen_eq_ok {max : Nat} (narrowBound : max < 2 ^ 16) :
    checkedIdLen len max = .ok result ↔ len ≤ max ∧ len = result := by
  simp only [checkedIdLen, rejectIf_bind_eq_ok, okOr_eq_ok, narrow_eq_some, Nat.not_lt]
  constructor
  · rintro ⟨fits, _, same⟩
    exact ⟨fits, same⟩
  · rintro ⟨fits, same⟩
    exact ⟨fits, Nat.lt_of_le_of_lt fits narrowBound, same⟩

/-- The layout of an event key. -/
def eventKey (id : Bytes) (version : UInt64) : Bytes :=
  bigEndian 2 id.length ++ (id ++ bigEndian 8 version.toNat)

/-- The layout of a key of the `$all` index. -/
def globalKey (globalSeq : UInt64) (id : Bytes) (version : UInt64) : Bytes :=
  bigEndian 8 globalSeq.toNat ++ eventKey id version

/-- Longest id of an event key. -/
def maxEventKeyIdLen : Nat := maxKeyLen - eventKeyHeaderSize - eventKeyVersionSize

theorem encodeEventKey_eq_ok {id key : Bytes} :
    encodeEventKey id version = .ok key ↔
      id.length ≤ maxEventKeyIdLen ∧ eventKey id version = key := by
  simp only [encodeEventKey, bind_eq_ok, pure_eq_ok, Except.ok.injEq,
    checkedIdLen_eq_ok (show maxKeyLen - eventKeyHeaderSize - eventKeyVersionSize < 2 ^ 16
      by decide), List.append_assoc]
  constructor
  · rintro ⟨_, ⟨fits, rfl⟩, same⟩
    exact ⟨fits, same⟩
  · rintro ⟨fits, same⟩
    exact ⟨_, ⟨fits, rfl⟩, same⟩

theorem encodeGlobalKey_eq_ok {globalSeq version : UInt64} {id key : Bytes} :
    encodeGlobalKey globalSeq id version = .ok key ↔
      id.length ≤ maxStreamIdLen ∧ globalKey globalSeq id version = key := by
  simp only [encodeGlobalKey, bind_eq_ok, pure_eq_ok, Except.ok.injEq,
    checkedIdLen_eq_ok (show maxStreamIdLen < 2 ^ 16 by decide), List.append_assoc]
  constructor
  · rintro ⟨_, ⟨fits, rfl⟩, same⟩
    exact ⟨fits, same⟩
  · rintro ⟨fits, same⟩
    exact ⟨_, ⟨fits, rfl⟩, same⟩

theorem length_eventKey (id : Bytes) (version : UInt64) :
    (eventKey id version).length = 2 + id.length + 8 := by
  simp only [eventKey, List.length_append, length_bigEndian]
  omega

theorem length_globalKey (globalSeq : UInt64) (id : Bytes) (version : UInt64) :
    (globalKey globalSeq id version).length = 10 + id.length + 8 := by
  simp only [globalKey, List.length_append, length_bigEndian, length_eventKey]
  omega

theorem ofBigEndian_word (value : UInt64) :
    UInt64.ofNat (ofBigEndian (bigEndian 8 value.toNat)) = value := by
  rw [ofBigEndian_bigEndian value.toNat_lt, UInt64.ofNat_toNat]

theorem bigEndian_word (eight : bytes.length = 8) :
    bigEndian 8 (UInt64.ofNat (ofBigEndian bytes)).toNat = bytes := by
  have fits := ofBigEndian_lt bytes
  rw [eight] at fits
  rw [UInt64.toNat_ofNat_of_lt' fits, ← eight, bigEndian_ofBigEndian]

theorem extract_eventKey {id : Bytes} (fits : id.length < 2 ^ 16) :
    ofBigEndian ((eventKey id version).extract 0 2) = id.length ∧
    (eventKey id version).extract 2 (2 + id.length) = id ∧
    (eventKey id version).extract (2 + id.length) (2 + id.length + 8) =
      bigEndian 8 version.toNat := by
  refine ⟨?_, ?_, ?_⟩
  · rw [eventKey, extract_first (length_bigEndian _ _), ofBigEndian_bigEndian fits]
  · exact extract_middle (length_bigEndian _ _) rfl
  · rw [eventKey, ← List.append_assoc]
    refine extract_last ?_ ?_
    · rw [List.length_append, length_bigEndian]
    · rw [length_bigEndian]

/-- Exactly the keys of events are decoded. -/
theorem decodeEventKey_eq_ok {id : Bytes} :
    decodeEventKey key = .ok (id, version) ↔ id.length < 2 ^ 16 ∧ key = eventKey id version := by
  simp only [decodeEventKey, rejectIf_bind_eq_ok, pure_eq_ok, Except.ok.injEq,
    Prod.mk.injEq, Nat.not_lt, Decidable.not_not]
  simp only [eventKeySize, eventKeyHeaderSize, eventKeyVersionSize]
  constructor
  · rintro ⟨enough, size, isId, isVersion⟩
    have two : (key.extract 0 2).length = 2 := length_extract (by omega)
    have eight : (key.extract (2 + ofBigEndian (key.extract 0 2))
        (2 + ofBigEndian (key.extract 0 2) + 8)).length = 8 := by
      rw [length_extract (by omega), Nat.add_sub_cancel_left]
    have idLength : id.length = ofBigEndian (key.extract 0 2) := by
      rw [← isId, length_extract (by omega), Nat.add_sub_cancel_left]
    have bounded := ofBigEndian_lt (key.extract 0 2)
    have header := bigEndian_ofBigEndian (key.extract 0 2)
    rw [two] at bounded header
    refine ⟨by rwa [idLength], ?_⟩
    rw [← isVersion, eventKey, bigEndian_word eight, idLength, header, ← isId,
      extract_append_extract (by omega) (by omega),
      extract_append_extract (by omega) (by omega), extract_all size]
  · rintro ⟨fits, rfl⟩
    obtain ⟨length, isId, isVersion⟩ := extract_eventKey fits
    rw [length, length_eventKey, isId, isVersion, ofBigEndian_word]
    exact ⟨by omega, rfl, rfl, rfl⟩

theorem decodeGlobalKey_eq_ok_iff_event {id : Bytes} :
    decodeGlobalKey key = .ok (globalSeq, id, version) ↔
      8 ≤ key.length ∧ UInt64.ofNat (ofBigEndian (key.extract 0 8)) = globalSeq ∧
        decodeEventKey (key.drop 8) = .ok (id, version) := by
  have behind : ∀ start stop,
      (key.drop 8).extract start stop = key.extract (8 + start) (8 + stop) := by
    intro start stop
    simp only [List.extract_eq_take_drop, List.drop_drop, Nat.add_sub_add_left]
  have header := ofBigEndian_lt (key.extract 8 10)
  have short : (key.extract 8 10).length ≤ 2 := by
    rw [List.extract_eq_take_drop, List.length_take]
    exact Nat.min_le_left _ _
  have bounded : ofBigEndian (key.extract 8 10) < 2 ^ 16 :=
    Nat.lt_of_lt_of_le header (Nat.pow_le_pow_right (by decide) short)
  simp only [decodeGlobalKey, decodeEventKey, bind_eq_ok, rejectIf_eq_ok, pure_eq_ok,
    okOr_eq_ok, Option.bind_eq_bind, Option.bind_eq_some_iff, narrow_eq_some,
    exists_const, Except.ok.injEq, Prod.mk.injEq, Nat.not_lt,
    Decidable.not_not, behind, List.length_drop]
  simp only [eventKeySize, eventKeyHeaderSize, eventKeyVersionSize, globalKeyPrefixSize,
    globalKeyVersionSize, usizeLimit, Nat.reduceAdd, Nat.add_zero, ← Nat.add_assoc]
  constructor
  · rintro ⟨enough, _, ⟨_, ⟨_, rfl⟩, _, rfl⟩, size, isSeq, isId, isVersion⟩
    exact ⟨by omega, isSeq, by omega, by omega, isId, isVersion⟩
  · rintro ⟨enough, isSeq, rest, size, isId, isVersion⟩
    exact ⟨by omega, _, ⟨_, ⟨by omega, rfl⟩, by omega, rfl⟩, by omega, isSeq, isId, isVersion⟩

theorem decodeGlobalKey_eq_ok {id : Bytes} :
    decodeGlobalKey key = .ok (globalSeq, id, version) ↔
      id.length < 2 ^ 16 ∧ key = globalKey globalSeq id version := by
  rw [decodeGlobalKey_eq_ok_iff_event, decodeEventKey_eq_ok]
  constructor
  · rintro ⟨enough, isSeq, fits, isEvent⟩
    refine ⟨fits, ?_⟩
    rw [globalKey, ← isEvent, ← isSeq, bigEndian_word (length_extract enough),
      List.extract_eq_take_drop, List.drop_zero, Nat.sub_zero, List.take_append_drop]
  · rintro ⟨fits, rfl⟩
    refine ⟨?_, ?_, fits, ?_⟩
    · rw [length_globalKey]
      omega
    · rw [globalKey, extract_first (length_bigEndian _ _), ofBigEndian_word]
    · exact List.drop_left' (length_bigEndian _ _)

theorem eventKey_lt_iff {id : Bytes} (fits : id.length < 2 ^ 16)
    (otherFits : other.length < 2 ^ 16) :
    eventKey id version < eventKey other another ↔
      id.length < other.length ∨
        id.length = other.length ∧ (id < other ∨ id = other ∧ version < another) := by
  rw [eventKey, eventKey, append_lt_append_iff (by simp only [length_bigEndian]),
    bigEndian_lt_iff fits otherFits, bigEndian_inj fits otherFits]
  refine or_congr Iff.rfl (and_congr_right fun sameLength => ?_)
  rw [append_lt_append_iff sameLength, bigEndian_lt_iff version.toNat_lt another.toNat_lt,
    UInt64.lt_iff_toNat_lt]

theorem globalKey_lt_iff {id : Bytes} :
    globalKey globalSeq id version < globalKey position other another ↔
      globalSeq < position ∨
        globalSeq = position ∧ eventKey id version < eventKey other another := by
  rw [globalKey, globalKey, append_lt_append_iff (by simp only [length_bigEndian]),
    bigEndian_lt_iff globalSeq.toNat_lt position.toNat_lt,
    bigEndian_inj globalSeq.toNat_lt position.toNat_lt, UInt64.lt_iff_toNat_lt,
    UInt64.toNat_inj]

theorem eventKey_injective {id other : Bytes} (fits : id.length < 2 ^ 16)
    (otherFits : other.length < 2 ^ 16) (same : eventKey id version = eventKey other another) :
    id = other ∧ version = another := by
  have decoded : decodeEventKey (eventKey id version) = .ok (id, version) :=
    decodeEventKey_eq_ok.mpr ⟨fits, rfl⟩
  rw [same, decodeEventKey_eq_ok.mpr ⟨otherFits, rfl⟩, Except.ok.injEq, Prod.mk.injEq] at decoded
  exact ⟨decoded.1.symm, decoded.2.symm⟩

theorem globalKey_injective {id : Bytes} (fits : id.length < 2 ^ 16)
    (otherFits : other.length < 2 ^ 16)
    (same : globalKey globalSeq id version = globalKey position other another) :
    globalSeq = position ∧ id = other ∧ version = another := by
  have decoded : decodeGlobalKey (globalKey globalSeq id version) = .ok (globalSeq, id, version) :=
    decodeGlobalKey_eq_ok.mpr ⟨fits, rfl⟩
  rw [same, decodeGlobalKey_eq_ok.mpr ⟨otherFits, rfl⟩, Except.ok.injEq,
    Prod.mk.injEq, Prod.mk.injEq] at decoded
  exact ⟨decoded.1.symm, decoded.2.1.symm, decoded.2.2.symm⟩

/-- The keys of a stream from one version on are exactly the keys between the
key of that version and the key of the last one. -/
theorem eventKey_mem_range_iff {id : Bytes} (fits : id.length < 2 ^ 16)
    (otherFits : other.length < 2 ^ 16) :
    (eventKey id start ≤ eventKey other version ∧
      eventKey other version ≤ eventKey id (UInt64.ofNat (2 ^ 64 - 1))) ↔
      other = id ∧ start ≤ version := by
  have ceiling : ¬ UInt64.ofNat (2 ^ 64 - 1) < version := by
    rw [UInt64.lt_iff_toNat_lt, UInt64.toNat_ofNat_of_lt' (by decide)]
    have := version.toNat_lt
    omega
  rw [← List.not_lt, ← List.not_lt, eventKey_lt_iff otherFits fits, eventKey_lt_iff fits otherFits]
  constructor
  · rintro ⟨notBelow, notAbove⟩
    have sameLength : other.length = id.length := by
      apply Nat.le_antisymm
      · exact Nat.not_lt.mp fun longer => notAbove (.inl longer)
      · exact Nat.not_lt.mp fun shorter => notBelow (.inl shorter)
    have same : other = id := by
      refine Std.le_antisymm ?_ ?_
      · exact List.not_lt.mp fun above => notAbove (.inr ⟨sameLength.symm, .inl above⟩)
      · exact List.not_lt.mp fun below => notBelow (.inr ⟨sameLength, .inl below⟩)
    refine ⟨same, UInt64.not_lt.mp ?_⟩
    intro earlier
    exact notBelow (.inr ⟨sameLength, .inr ⟨same, earlier⟩⟩)
  · rintro ⟨rfl, notEarlier⟩
    simp only [Nat.lt_irrefl, List.lt_irrefl, true_and, false_or, ceiling, not_false_iff, and_true]
    exact UInt64.not_lt.mpr notEarlier

end Mnesis.Fjall
