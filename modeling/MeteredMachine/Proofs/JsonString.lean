import Mathlib.Tactic.SplitIfs
import MeteredMachine.Json.Scalar

/-!
# Strings in JSON text

The text of a string reads back as the string, whatever characters it has: each character is
written so that reading it gives that character and leaves the rest alone.  So a value that is
kept as a string survives JSON if its own text reads back.

Main results:

- Theorem {lit}`Json.readString_escapeChar`: reading one written character.
- Theorem {lit}`Json.readText_stringText`: reading a written string.
- Theorem {lit}`Json.readWhole_string`: reading a value that is kept as a string.
-/

namespace MeteredMachine

namespace Json

/-! ## One character -/

section

variable (rest : List Char)

/-- A character that needs no escape is read as it stands. -/
theorem readString_cons {c : Char} (hquote : c ≠ '"') (hslash : c ≠ '\\')
    (hcontrol : ¬ c.toNat < 0x20) : readString (c :: rest) = prepend c (readString rest) := by
  rw [readString]
  · exact if_neg hcontrol
  · exact hquote
  all_goals
    intros
    exact hslash ‹_›

/-- A short escape is read as the character that it stands for. -/
theorem readString_short {e c : Char} (hshort : shortEscape? e = some c) :
    readString ('\\' :: e :: rest) = prepend c (readString rest) := by
  have hletter : e ≠ 'u' := by
    rintro rfl
    cases hshort
  rw [readString, hshort]
  · intro _ _ _ _ _ hu
    exact absurd hu hletter
  · exact hletter

theorem hexValue?_digitChar {d : Nat} (h : d < 16) : hexValue? (Nat.digitChar d) = some d := by
  revert d
  decide

/-- A control character is read from its number. -/
theorem readString_control {n : Nat} (h : n < 0x20) :
    readString (['\\', 'u', '0', '0', Nat.digitChar (n / 16), Nat.digitChar (n % 16)] ++ rest) =
      prepend (Char.ofNat n) (readString rest) := by
  have hzero : hexValue? '0' = some 0 := rfl
  have hunit : unit? '0' '0' (Nat.digitChar (n / 16)) (Nat.digitChar (n % 16)) = some n := by
    rw [unit?, hzero, hexValue?_digitChar (by omega), hexValue?_digitChar (by omega)]
    exact congrArg some (by omega)
  have hlow : isLowHalf n = false := by
    rw [isLowHalf, Bool.and_eq_false_iff, decide_eq_false_iff_not]
    omega
  have hhigh : isHighHalf n = false := by
    rw [isHighHalf, Bool.and_eq_false_iff, decide_eq_false_iff_not]
    omega
  change readString ('\\' :: 'u' :: '0' :: '0' :: _ :: _ :: rest) = _
  rw [readString, hunit]
  simp only [hlow, hhigh]
  rfl

end

/-- How a character is written: behind a backslash, as the number of a control character, or as
it stands. -/
theorem escapeChar_cases (c : Char) :
    (∃ e, shortEscape? e = some c ∧ escapeChar c = ['\\', e]) ∨
      (c.toNat < 0x20 ∧ escapeChar c =
        ['\\', 'u', '0', '0', Nat.digitChar (c.toNat / 16), Nat.digitChar (c.toNat % 16)]) ∨
      (c ≠ '"' ∧ c ≠ '\\' ∧ ¬ c.toNat < 0x20 ∧ escapeChar c = [c]) := by
  rw [escapeChar]
  split_ifs with hquote hslash hline htab hreturn hback hfeed hcontrol
  · exact Or.inl ⟨'"', congrArg some hquote.symm, rfl⟩
  · exact Or.inl ⟨'\\', congrArg some hslash.symm, rfl⟩
  · exact Or.inl ⟨'n', congrArg some hline.symm, rfl⟩
  · exact Or.inl ⟨'t', congrArg some htab.symm, rfl⟩
  · exact Or.inl ⟨'r', congrArg some hreturn.symm, rfl⟩
  · exact Or.inl ⟨'b', congrArg some hback.symm, rfl⟩
  · exact Or.inl ⟨'f', congrArg some hfeed.symm, rfl⟩
  · have hbyte : (UInt8.ofNat c.toNat).toNat = c.toNat := by
      rw [UInt8.toNat_ofNat']
      omega
    rw [Hex.byteDigits, hbyte]
    exact Or.inr (Or.inl ⟨hcontrol, rfl⟩)
  · exact Or.inr (Or.inr ⟨hquote, hslash, hcontrol, rfl⟩)

/-- Reading one written character gives it and leaves the rest alone. -/
theorem readString_escapeChar (c : Char) (rest : List Char) :
    readString (escapeChar c ++ rest) = prepend c (readString rest) := by
  rcases escapeChar_cases c with
    ⟨e, hshort, heq⟩ | ⟨hcontrol, heq⟩ | ⟨hquote, hslash, hcontrol, heq⟩
  · rw [heq]
    exact readString_short rest hshort
  · rw [heq, readString_control rest hcontrol, Char.ofNat_toNat]
  · rw [heq]
    exact readString_cons rest hquote hslash hcontrol

/-! ## Strings -/

theorem readString_flatMap_escapeChar (chars rest : List Char) :
    readString (chars.flatMap escapeChar ++ '"' :: rest) = .ok { value := chars, rest } := by
  induction chars with
  | nil => rw [List.flatMap_nil, List.nil_append, readString]
  | cons c chars ih =>
    rw [List.flatMap_cons, List.append_assoc, readString_escapeChar, ih]
    rfl

/-- Reading a written string gives it back and leaves the rest alone. -/
theorem readText_stringText (s : String) (rest : List Char) :
    readText ((stringText s).toList ++ rest) = .ok { value := s, rest } := by
  have hchars : (stringText s).toList ++ rest =
      '"' :: (s.toList.flatMap escapeChar ++ '"' :: rest) := by
    simp [stringText]
  rw [hchars, readText, skipBlanks, List.dropWhile_cons_of_neg (by decide)]
  simp only [readString_flatMap_escapeChar, String.ofList_toList]

/-- A value that is kept as a string survives JSON if its own text reads back. -/
theorem readWhole_string {α : Type} {parse : String → Except ReadError α} {text : String}
    {value : α} (h : parse text = .ok value) :
    readWhole (readVia parse) (Json.string text).compact = .ok value := by
  have hread := readText_stringText text []
  rw [List.append_nil] at hread
  rw [compact, readWhole, readVia, hread]
  simp only [h]
  rfl

end Json

end MeteredMachine
