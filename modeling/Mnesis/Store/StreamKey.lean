import Mnesis.Store.Append

/-!
# The text of a stream key

A key that is UTF-8 is displayed as its text, and any other key as `0x` and the two
hexadecimal digits of each byte.  Either way of displaying is faithful, but a text may itself
be spelled like the digits of another key.  There are no other collisions.
-/

namespace Mnesis.Store

/-- The two lower-case hexadecimal digits of a byte. -/
def lowerHex (byte : UInt8) : String :=
  .ofList [Nat.digitChar (byte.toNat / 16), Nat.digitChar (byte.toNat % 16)]

/-- The bytes of a key in hexadecimal digits. -/
def hexText (key : StreamKey) : String :=
  key.foldl (fun shown byte => shown ++ lowerHex byte) "0x"

/-- Display a key. -/
def StreamKey.fmt (key : StreamKey) : String :=
  if text : isUtf8 key = true then
    .ofByteArray ⟨key.toArray⟩ (ByteArray.validateUTF8_eq_true_iff.mp text)
  else
    hexText key

theorem digitChar_injective (firstLow : first < 16) (secondLow : second < 16)
    (same : first.digitChar = second.digitChar) : first = second := by
  have all : ∀ first second : Fin 16, first.val.digitChar = second.val.digitChar →
      first = second := by decide
  exact congrArg Fin.val (all ⟨first, firstLow⟩ ⟨second, secondLow⟩ same)

theorem lowerHex_injective : Function.Injective lowerHex := by
  intro first second same
  have digits := String.ofList_injective same
  simp only [List.cons.injEq, and_true] at digits
  have firstLow := first.toNat_lt
  have secondLow := second.toNat_lt
  have high := digitChar_injective (by omega) (by omega) digits.1
  have low := digitChar_injective (by omega) (by omega) digits.2
  apply UInt8.toNat_inj.mp
  omega

theorem toList_hexText (key : StreamKey) :
    (hexText key).toList = "0x".toList ++ key.flatMap fun byte => (lowerHex byte).toList := by
  have general (shown : String) :
      (key.foldl (fun shown byte => shown ++ lowerHex byte) shown).toList =
        shown.toList ++ key.flatMap fun byte => (lowerHex byte).toList := by
    induction key generalizing shown with
    | nil => simp
    | cons byte key ih => simp [ih]
  exact general "0x"

theorem length_lowerHex (byte : UInt8) : (lowerHex byte).toList.length = 2 := by
  simp [lowerHex]

theorem hexText_injective : Function.Injective hexText := by
  intro first second same
  have digits := congrArg String.toList same
  rw [toList_hexText, toList_hexText, List.append_cancel_left_eq] at digits
  clear same
  -- Each byte takes two digits, so the digits can be read back byte by byte.
  induction first generalizing second with
  | nil =>
    cases second with
    | nil => rfl
    | cons byte second => simp [lowerHex] at digits
  | cons byte first ih =>
    cases second with
    | nil => simp [lowerHex] at digits
    | cons other second =>
      simp only [List.flatMap_cons] at digits
      have sameLength := (length_lowerHex byte).trans (length_lowerHex other).symm
      obtain ⟨sameByte, sameRest⟩ := List.append_inj digits sameLength
      rw [lowerHex_injective (String.toList_injective sameByte), ih sameRest]

/-- The first key is the text of the digits of the second, which is not UTF-8. -/
def SpelledAs (key other : StreamKey) : Prop :=
  isUtf8 other = false ∧ key = utf8Bytes (hexText other)

theorem utf8Bytes_fmt (text : isUtf8 key = true) : utf8Bytes (StreamKey.fmt key) = key := by
  rw [StreamKey.fmt, dif_pos text]
  rfl

theorem fmt_utf8Bytes (text : String) : StreamKey.fmt (utf8Bytes text) = text := by
  rw [StreamKey.fmt, dif_pos (isUtf8_utf8Bytes text)]
  rfl

theorem fmt_of_not_utf8 (binary : isUtf8 key = false) : StreamKey.fmt key = hexText key := by
  rw [StreamKey.fmt, dif_neg (ne_true_of_eq_false binary)]

theorem SpelledAs.fmt_eq (spelled : SpelledAs key other) :
    StreamKey.fmt key = StreamKey.fmt other := by
  obtain ⟨binary, rfl⟩ := spelled
  rw [fmt_utf8Bytes, fmt_of_not_utf8 binary]

theorem SpelledAs.ne (spelled : SpelledAs key other) : key ≠ other := by
  rintro rfl
  obtain ⟨binary, isText⟩ := spelled
  rw [isText, isUtf8_utf8Bytes] at binary
  cases binary

theorem spelledAs_of_fmt_eq (text : isUtf8 key = true) (binary : isUtf8 other = false)
    (same : StreamKey.fmt key = StreamKey.fmt other) : SpelledAs key other := by
  refine ⟨binary, ?_⟩
  rw [← fmt_of_not_utf8 binary, ← same, utf8Bytes_fmt text]

/-- A key of one byte is displayed like the text of its digits. -/
theorem byte_is_displayed_as_other_text :
    ¬ ∀ first second, StreamKey.fmt first = StreamKey.fmt second → first = second := by
  intro identifies
  have spelled : SpelledAs (utf8Bytes (hexText [0xff])) [0xff] := ⟨by decide, rfl⟩
  exact spelled.ne (identifies _ _ spelled.fmt_eq)

/-- The displayed texts of two keys tell them apart exactly if neither key is the text of the
digits of the other. -/
theorem displayed_text_identifies_keys (first second : StreamKey) :
    (StreamKey.fmt first = StreamKey.fmt second → first = second) ↔
      ¬ SpelledAs first second ∧ ¬ SpelledAs second first := by
  constructor
  · intro identifies
    refine ⟨fun spelled => ?_, fun spelled => ?_⟩
    · exact spelled.ne (identifies spelled.fmt_eq)
    · exact spelled.ne (identifies spelled.fmt_eq.symm).symm
  · rintro ⟨firstPlain, secondPlain⟩ same
    cases firstText : isUtf8 first with
    | true =>
      cases secondText : isUtf8 second with
      | true => rw [← utf8Bytes_fmt firstText, same, utf8Bytes_fmt secondText]
      | false => exact absurd (spelledAs_of_fmt_eq firstText secondText same) firstPlain
    | false =>
      cases secondText : isUtf8 second with
      | true => exact absurd (spelledAs_of_fmt_eq secondText firstText same.symm) secondPlain
      | false =>
        rw [fmt_of_not_utf8 firstText, fmt_of_not_utf8 secondText] at same
        exact hexText_injective same

end Mnesis.Store
