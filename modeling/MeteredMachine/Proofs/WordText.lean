import MeteredMachine.Proofs.HexText
import MeteredMachine.Proofs.JsonString

/-!
# Reading and writing words

A word is read from the hexadecimal texts of at most 64 bytes, whatever the case of their digits
and however many zeros stand in front, behind up to two marks.  Every other text is refused.  Among
the texts of a word one is written, and it reads back, with the mark or without it and through
JSON.

Main results:

- Theorem {lit}`Word.ofHex_cases`: what reading a text gives.
- Theorem {lit}`Word.ofHex_eq_ok_iff`: the texts that are read as a word.
- Theorems {lit}`Word.ofHex_hex` and {lit}`Word.ofHex_markedHex`: written texts read back.
- Theorem {lit}`Word.hex_text_exact` says all this about every text and every word.
-/

namespace MeteredMachine

namespace Word

/-! ## Reading -/

theorem even_length_evenDigits (text : List UInt8) : (evenDigits text).length % 2 = 0 := by
  unfold evenDigits
  split
  next hodd =>
    rw [List.length_cons]
    omega
  next heven => omega

/-- Pairing up the digits of a text keeps the number that it denotes. -/
theorem denotes_evenDigits_iff {text : List UInt8} {n : Nat} :
    Hex.Denotes (evenDigits text) n ↔ Hex.Denotes text n := by
  unfold evenDigits
  split
  next => exact Hex.Denotes.zero_cons_iff
  next => exact Iff.rfl

/-- Pairing up at most 64 digits gives at most 64. -/
theorem length_evenDigits_le {text : List UInt8} (h : text.length ≤ maxDigits) :
    (evenDigits text).length ≤ maxDigits := by
  rw [maxDigits] at h ⊢
  unfold evenDigits
  split
  next hodd =>
    rw [List.length_cons]
    omega
  next => exact h

/-- A text of at most 64 bytes that denotes a number is read as the word of that number.  A longer
text and a text that denotes no number are refused. -/
theorem ofHex_cases {s digits text : String} (hdigits : Hex.Unmarked s digits)
    (htext : Hex.Unmarked digits text) :
    (∃ w, ofHex s = .ok w ∧ (Text.utf8 text).length ≤ maxDigits ∧
        Hex.Denotes (Text.utf8 text) w.toNat) ∨
      (maxDigits < (Text.utf8 text).length ∧ ofHex s = .error (.wordTooLong digits)) ∨
      ((∀ n, ¬ Hex.Denotes (Text.utf8 text) n) ∧
        ∃ byte index, ofHex s = .error (.wordDigit digits byte index)) := by
  rw [← Hex.stripMark_eq_iff] at hdigits htext
  unfold ofHex ofDigits
  rw [hdigits, htext]
  by_cases hlong : (Text.utf8 text).length > maxDigits
  · exact Or.inr (Or.inl ⟨hlong, if_pos hlong⟩)
  · simp only [if_neg hlong]
    rcases Hex.decode_cases (even_length_evenDigits (Text.utf8 text)) with
      ⟨bytes, hok, hlength, hdenotes⟩ | ⟨good, byte, hbad, herror⟩
    · have hshort := length_evenDigits_le (Nat.not_lt.1 hlong)
      rw [hlength, maxDigits] at hshort
      rw [denotes_evenDigits_iff, ← toNat_ofBytes_of_le (by omega)] at hdenotes
      rw [hok]
      exact Or.inl ⟨ofBytes bytes, rfl, Nat.not_lt.1 hlong, hdenotes⟩
    · rw [herror]
      refine Or.inr (Or.inr ⟨?_, byte, good.length, rfl⟩)
      intro n hn
      exact hbad.not_denotes n (denotes_evenDigits_iff.2 hn)

section

variable {s digits text : String} (hdigits : Hex.Unmarked s digits)
  (htext : Hex.Unmarked digits text)

include hdigits htext

/-- The texts that are read as a word are those of at most 64 bytes that denote it. -/
theorem ofHex_eq_ok_iff (w : Word) :
    ofHex s = .ok w ↔
      (Text.utf8 text).length ≤ maxDigits ∧ Hex.Denotes (Text.utf8 text) w.toNat := by
  rcases ofHex_cases hdigits htext with
    ⟨v, hok, hlength, hdenotes⟩ | ⟨hlong, herror⟩ | ⟨hnone, byte, index, herror⟩
  · rw [hok, Except.ok.injEq]
    constructor
    · rintro rfl
      exact ⟨hlength, hdenotes⟩
    · rintro ⟨_, hw⟩
      exact ext_toNat (hdenotes.unique hw)
  · rw [herror]
    constructor
    · intro h
      cases h
    · rintro ⟨hlength, _⟩
      omega
  · rw [herror]
    constructor
    · intro h
      cases h
    · rintro ⟨_, hw⟩
      exact absurd hw (hnone _)

/-- A text is read exactly when it has at most 64 bytes, all of which are digits. -/
theorem exists_ofHex_eq_ok_iff :
    (∃ w, ofHex s = .ok w) ↔
      (Text.utf8 text).length ≤ maxDigits ∧ ∀ byte ∈ Text.utf8 text, ∃ d, Hex.IsDigit d byte := by
  rw [← Hex.exists_denotes_iff]
  constructor
  · rintro ⟨w, hw⟩
    obtain ⟨hlength, hdenotes⟩ := (ofHex_eq_ok_iff hdigits htext w).1 hw
    exact ⟨hlength, w.toNat, hdenotes⟩
  · rintro ⟨hlength, n, hn⟩
    rcases ofHex_cases hdigits htext with ⟨w, hok, _⟩ | ⟨hlong, _⟩ | ⟨hnone, _⟩
    · exact ⟨w, hok⟩
    · omega
    · exact absurd hn (hnone n)

/-- A refusal is about hexadecimal digits and shows the text behind its first mark. -/
theorem of_ofHex_eq_error {e : ReadError} (h : ofHex s = .error e) :
    e.isLength = false ∧
      ∃ detail, e.message = "invalid hex string: " ++ digits ++ ": " ++ detail := by
  rcases ofHex_cases hdigits htext with
    ⟨w, hok, _⟩ | ⟨_, herror⟩ | ⟨_, byte, index, herror⟩
  · cases hok.symm.trans h
  · cases herror.symm.trans h
    exact ⟨rfl, _, rfl⟩
  · cases herror.symm.trans h
    exact ⟨rfl, _, rfl⟩

end

/-! ## Writing -/

theorem isPlain_hex (w : Word) : Hex.IsPlain w.hex :=
  Hex.isPlain_numeral w.toNat

theorem length_utf8_hex_le (w : Word) : (Text.utf8 w.hex).length ≤ maxDigits := by
  have hlt : w.toNat < 16 ^ 64 := w.toNat_lt
  exact (Hex.length_utf8_numeral_le_iff (by decide)).2 hlt

/-- Any text whose marks leave the digits of a word is read as the word. -/
theorem ofHex_of_unmarked {s : String} {w : Word} (h : Hex.Unmarked s w.hex) : ofHex s = .ok w :=
  (ofHex_eq_ok_iff h w.isPlain_hex.unmarked w).2
    ⟨w.length_utf8_hex_le, Hex.denotes_numeral w.toNat⟩

theorem ofHex_hex (w : Word) : ofHex w.hex = .ok w :=
  ofHex_of_unmarked w.isPlain_hex.unmarked

theorem ofHex_markedHex (w : Word) : ofHex w.markedHex = .ok w :=
  ofHex_of_unmarked (Or.inl rfl)

theorem ofJson_toJson (w : Word) : ofJson w.toJson.compact = .ok w :=
  Json.readWhole_string w.ofHex_markedHex

/-- Words are read from exactly the hexadecimal texts that fit, and writing is undone by reading.

Every text has a part behind its first mark, if it has one, and that has a part behind a second
one.  The text is read as a word exactly when that last part has at most 64 bytes and denotes the
word, so it is read at all exactly when these bytes are digits; an empty part stands for zero; and a
refusal is about hexadecimal digits.  A word is written in lower case without zeros in front, with
or without the mark; both texts read back and so does JSON; and no two words share a text. -/
theorem hex_text_exact :
    (∀ s : String, ∃ digits text, Hex.Unmarked s digits ∧ Hex.Unmarked digits text ∧
      (∀ w, ofHex s = .ok w ↔
        (Text.utf8 text).length ≤ 64 ∧ Hex.Denotes (Text.utf8 text) w.toNat) ∧
      ((∃ w, ofHex s = .ok w) ↔
        (Text.utf8 text).length ≤ 64 ∧ ∀ byte ∈ Text.utf8 text, ∃ d, Hex.IsDigit d byte) ∧
      (text = "" → ofHex s = .ok 0) ∧
      ∀ e, ofHex s = .error e →
        e.isLength = false ∧
          ∃ detail, e.message = "invalid hex string: " ++ digits ++ ": " ++ detail) ∧
    (∀ w : Word, Hex.IsPlain w.hex ∧ w.markedHex = "0x" ++ w.hex ∧
      ofHex w.hex = .ok w ∧ ofHex w.markedHex = .ok w ∧ ofJson w.toJson.compact = .ok w) ∧
    hex 0 = "0" ∧ Function.Injective hex ∧ Function.Injective markedHex := by
  refine ⟨?_, ?_, rfl, ?_, ?_⟩
  · intro s
    have hdigits : Hex.Unmarked s (Hex.stripMark s) := Hex.stripMark_eq_iff.1 rfl
    have htext : Hex.Unmarked (Hex.stripMark s) (Hex.stripMark (Hex.stripMark s)) :=
      Hex.stripMark_eq_iff.1 rfl
    refine ⟨_, _, hdigits, htext, ofHex_eq_ok_iff hdigits htext,
      exists_ofHex_eq_ok_iff hdigits htext, ?_, fun e he => of_ofHex_eq_error hdigits htext he⟩
    intro hempty
    rw [ofHex_eq_ok_iff hdigits htext, hempty]
    exact ⟨Nat.zero_le _, [], .nil, rfl⟩
  · intro w
    exact ⟨w.isPlain_hex, rfl, w.ofHex_hex, w.ofHex_markedHex, w.ofJson_toJson⟩
  · intro a b hab
    have ha := a.ofHex_hex
    rw [hab, b.ofHex_hex] at ha
    exact (Except.ok.inj ha).symm
  · intro a b hab
    have ha := a.ofHex_markedHex
    rw [hab, b.ofHex_markedHex] at ha
    exact (Except.ok.inj ha).symm

-- Two marks, an odd number of digits and letters of both cases.
example : ofHex "0x0xAbC" = .ok 0xabc := by decide +kernel

end Word

end MeteredMachine
