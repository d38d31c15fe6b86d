import MeteredMachine.Proofs.HexText
import MeteredMachine.Proofs.JsonString

/-!
# Reading and writing addresses

An address is read from the texts of forty hexadecimal digits of either case, behind one mark at
most.  Every other text is refused for the first of three reasons: its bytes do not pair up, one
of them is no digit, or they are too many or too few.  An address is written with the digits that
it was read from, in lower case, and what is written reads back.

Main results:

- Theorem {lit}`Hex.forall_isDigit_utf8_iff`: digits as bytes and as characters.
- Theorem {lit}`Hex.toLower_of_halves`: writing bytes gives the text that they were read from.
- Theorem {lit}`Address.ofHex_cases`: what reading a text gives.
- Theorem {lit}`Address.hex_language_exact` says all this about every text and every address.
-/

namespace MeteredMachine

namespace Hex

/-! ## Characters of digits -/

/-- The digits of both cases as characters. -/
def alphabet : List Char :=
  "0123456789abcdefABCDEF".toList

/-- A digit stands for a character of one byte, which is written in lower case as the number's
own digit. -/
theorem IsDigit.char {d : Nat} {byte : UInt8} (h : IsDigit d byte) :
    String.utf8EncodeChar (Char.ofNat byte.toNat) = [byte] ∧
      Char.ofNat byte.toNat ∈ alphabet ∧
      (Char.ofNat byte.toNat).toLower = Nat.digitChar d := by
  have htable : ∀ d < 16, [Nat.digitChar d, (Nat.digitChar d).toUpper].Forall fun c =>
      String.utf8EncodeChar c = [UInt8.ofNat c.toNat] ∧ c ∈ alphabet ∧
        c.toLower = Nat.digitChar d := by
    decide
  obtain ⟨hlt, hbyte⟩ := h
  obtain ⟨c, hc, hnat⟩ : ∃ c ∈ [Nat.digitChar d, (Nat.digitChar d).toUpper],
      byte.toNat = c.toNat := by
    simpa using hbyte
  have hofNat : UInt8.ofNat c.toNat = byte := by
    rw [← hnat, UInt8.ofNat_toNat]
  have hentry := List.forall_iff_forall_mem.1 (htable d hlt) c hc
  rw [hofNat] at hentry
  rw [hnat, Char.ofNat_toNat]
  exact hentry

/-- A character among the digits is one byte, and that byte is a digit. -/
theorem isDigit_of_mem_alphabet :
    ∀ c ∈ alphabet, String.utf8EncodeChar c = [UInt8.ofNat c.toNat] ∧
      ∃ d, d < 16 ∧ IsDigit d (UInt8.ofNat c.toNat) := by
  rw [← List.forall_iff_forall_mem]
  decide

/-- A text whose bytes are digits has one character for each byte. -/
theorem toList_of_isDigit {text : String}
    (h : ∀ byte ∈ Text.utf8 text, ∃ d, IsDigit d byte) :
    text.toList = (Text.utf8 text).map fun byte => Char.ofNat byte.toNat := by
  have hbytes : Text.utf8 (String.ofList ((Text.utf8 text).map fun byte => Char.ofNat byte.toNat)) =
      Text.utf8 text := by
    rw [Text.utf8_ofList, List.flatMap_map]
    conv_rhs => rw [← List.flatMap_singleton' (Text.utf8 text)]
    apply List.flatMap_congr
    intro byte hbyte
    obtain ⟨d, hd⟩ := h byte hbyte
    exact hd.char.1
  have htext : String.ofList ((Text.utf8 text).map fun byte => Char.ofNat byte.toNat) = text := by
    apply String.toByteArray_inj.1
    apply ByteArray.ext
    exact Array.toList_inj.1 hbytes
  conv_lhs => rw [← htext, String.toList_ofList]

/-- The bytes of a text are digits exactly when its characters are. -/
theorem forall_isDigit_utf8_iff {text : String} :
    (∀ byte ∈ Text.utf8 text, ∃ d, IsDigit d byte) ↔ ∀ c ∈ text.toList, c ∈ alphabet := by
  constructor
  · intro h c hc
    rw [toList_of_isDigit h] at hc
    obtain ⟨byte, hbyte, rfl⟩ := List.mem_map.1 hc
    obtain ⟨d, hd⟩ := h byte hbyte
    exact hd.char.2.1
  · intro h byte hbyte
    rw [← String.ofList_toList (s := text), Text.utf8_ofList] at hbyte
    obtain ⟨c, hc, hmem⟩ := List.mem_flatMap.1 hbyte
    obtain ⟨hencode, d, _, hd⟩ := isDigit_of_mem_alphabet c (h c hc)
    rw [hencode, List.mem_singleton] at hmem
    exact ⟨d, hmem ▸ hd⟩

/-- Digits are as many bytes as characters. -/
theorem length_utf8_of_isDigit {text : String}
    (h : ∀ byte ∈ Text.utf8 text, ∃ d, IsDigit d byte) :
    (Text.utf8 text).length = text.length := by
  rw [← String.length_toList, toList_of_isDigit h, List.length_map]

/-! ## Bytes and the text that they were read from -/

theorem isDigit_of_halves {bytes text : List UInt8}
    (h : List.Forall₂ IsDigit (halves bytes) text) : ∀ byte ∈ text, ∃ d, IsDigit d byte :=
  exists_denotes_iff.1 ⟨_, _, h, rfl⟩

/-- Writing bytes gives the text that they were read from, in lower case. -/
theorem toLower_of_halves {bytes : List UInt8} {text : String}
    (h : List.Forall₂ IsDigit (halves bytes) (Text.utf8 text)) : text.toLower = encode bytes := by
  apply String.toList_inj.1
  have hlower : text.toLower.toList = text.toList.map Char.toLower := String.toList_map
  rw [hlower, toList_of_isDigit (isDigit_of_halves h), List.map_map, encode, String.toList_ofList,
    digits_eq_map_halves]
  generalize halves bytes = values at h
  generalize Text.utf8 text = read at h
  induction h with
  | nil => rfl
  | cons hd _ ih => rw [List.map_cons, List.map_cons, ih, Function.comp, hd.char.2.2]

/-- Written bytes have no mark. -/
theorem unmarked_encode (bytes : List UInt8) : Unmarked (encode bytes) (encode bytes) := by
  refine Or.inr ⟨rfl, ?_⟩
  intro rest hmark
  have hletter : 'x' ∈ (encode bytes).toList := by
    rw [hmark, String.toList_append]
    exact List.mem_append_left _ (by decide)
  exact absurd (lower_of_mem_encode hletter) (by decide)

end Hex

namespace Address

/-! ## Reading -/

@[simp] theorem length_toList (a : Address) : a.toList.length = 20 := by
  rw [toList, Vector.length_toList]

/-- Twenty bytes are read as the address that has them. -/
theorem ofBytes?_of_length {bytes : List UInt8} (h : bytes.length = 20) :
    ∃ a, ofBytes? bytes = .ok a ∧ a.toList = bytes := by
  rw [ofBytes?, dif_pos h]
  exact ⟨_, rfl, by simp [toList]⟩

/-- An address is read back from its bytes. -/
theorem ofBytes?_toList (a : Address) : ofBytes? a.toList = .ok a := by
  obtain ⟨b, hb, hbytes⟩ := ofBytes?_of_length a.length_toList
  obtain rfl : b = a := by
    cases a
    cases b
    exact congrArg Address.mk (Vector.toList_inj.1 hbytes)
  exact hb

/-- Reading a text gives the address whose bytes have its forty digits as halves, or the first
of three reasons to refuse it. -/
theorem ofHex_cases {s text : String} (htext : Hex.Unmarked s text) :
    (∃ a, ofHex s = .ok a ∧ List.Forall₂ Hex.IsDigit (Hex.halves a.toList) (Text.utf8 text)) ∨
      ((Text.utf8 text).length % 2 = 1 ∧ ofHex s = .error .addressOddDigits) ∨
      ((Text.utf8 text).length % 2 = 0 ∧ ∃ good byte, Hex.FirstBad (Text.utf8 text) good byte ∧
        ofHex s = .error (.addressDigit byte good.length)) ∨
      ((Text.utf8 text).length % 2 = 0 ∧ (∀ byte ∈ Text.utf8 text, ∃ d, Hex.IsDigit d byte) ∧
        (Text.utf8 text).length ≠ 40 ∧
        ofHex s = .error (.wrongLength 20 ((Text.utf8 text).length / 2))) := by
  rw [← Hex.stripMark_eq_iff] at htext
  rw [ofHex, htext]
  rcases Nat.mod_two_eq_zero_or_one (Text.utf8 text).length with heven | hodd
  · rcases Hex.decode_cases_halves heven with ⟨bytes, hok, hdigits⟩ | ⟨good, byte, hbad, herror⟩
    · have hlength := Hex.length_of_forall₂_halves hdigits
      rw [hok]
      by_cases htwenty : bytes.length = 20
      · obtain ⟨a, ha, hbytes⟩ := ofBytes?_of_length htwenty
        exact Or.inl ⟨a, ha, hbytes ▸ hdigits⟩
      · refine Or.inr (Or.inr (Or.inr ⟨heven, Hex.isDigit_of_halves hdigits, by omega, ?_⟩))
        have hhalf : (Text.utf8 text).length / 2 = bytes.length := by omega
        rw [hhalf]
        exact dif_neg htwenty
    · rw [herror]
      exact Or.inr (Or.inr (Or.inl ⟨heven, good, byte, hbad, rfl⟩))
  · rw [Hex.decode, if_pos hodd]
    exact Or.inr (Or.inl ⟨hodd, rfl⟩)

/-- An address is read exactly from forty digits. -/
theorem exists_ofHex_eq_ok_iff {s text : String} (htext : Hex.Unmarked s text) :
    (∃ a, ofHex s = .ok a) ↔ text.length = 40 ∧ ∀ c ∈ text.toList, c ∈ Hex.alphabet := by
  rw [← Hex.forall_isDigit_utf8_iff]
  constructor
  · rintro ⟨a, ha⟩
    rcases ofHex_cases htext with ⟨b, hb, hdigits⟩ | ⟨_, herror⟩ | ⟨_, _, _, _, herror⟩ |
      ⟨_, _, _, herror⟩
    · have hall := Hex.isDigit_of_halves hdigits
      refine ⟨?_, hall⟩
      rw [← Hex.length_utf8_of_isDigit hall, Hex.length_of_forall₂_halves hdigits, length_toList]
    all_goals
      rw [herror] at ha
      cases ha
  · rintro ⟨hlength, hall⟩
    rw [← Hex.length_utf8_of_isDigit hall] at hlength
    rcases ofHex_cases htext with ⟨a, ha, _⟩ | ⟨hodd, _⟩ | ⟨_, _, byte, hbad, _⟩ | ⟨_, _, hne, _⟩
    · exact ⟨a, ha⟩
    · omega
    · exact absurd hall hbad.not_forall
    · exact absurd hlength hne

/-- An address is written with the digits that it was read from, in lower case. -/
theorem hex_of_ofHex_eq_ok {s text : String} {a : Address} (htext : Hex.Unmarked s text)
    (h : ofHex s = .ok a) : a.hex = "0x" ++ text.toLower := by
  rcases ofHex_cases htext with ⟨b, hb, hdigits⟩ | ⟨_, herror⟩ | ⟨_, _, _, _, herror⟩ |
    ⟨_, _, _, herror⟩
  · cases hb.symm.trans h
    rw [Hex.toLower_of_halves hdigits]
    rfl
  all_goals cases herror.symm.trans h

/-! ## Writing -/

/-- Any text whose mark leaves the digits of an address is read as the address. -/
theorem ofHex_of_unmarked {s : String} {a : Address} (h : Hex.Unmarked s a.digits) :
    ofHex s = .ok a := by
  rw [← Hex.stripMark_eq_iff] at h
  rw [ofHex, h, digits, Hex.decode_digits]
  exact a.ofBytes?_toList

theorem ofHex_hex (a : Address) : ofHex a.hex = .ok a :=
  ofHex_of_unmarked (Or.inl rfl)

theorem ofHex_digits (a : Address) : ofHex a.digits = .ok a :=
  ofHex_of_unmarked (Hex.unmarked_encode a.toList)

theorem ofJson_toJson (a : Address) : ofJson a.toJson.compact = .ok a :=
  Json.readWhole_string a.ofHex_hex

/-- Addresses are read from exactly the texts of forty digits, and writing is undone by reading.

Every text has a part behind its mark, if it has one.  The text is read exactly when that part is
forty digits of either case, and the address is then written as the mark and these digits in lower
case.  Otherwise the part may have an odd number of bytes; if not, it may have a first byte that
is no digit, which the refusal names with its position; if not, it has another number of digits.
Only the last of these refusals is about a length.  Every address reads back from its text with or
without the mark, and from JSON. -/
theorem hex_language_exact :
    (∀ s : String, ∃ text, Hex.Unmarked s text ∧
      ((∃ a, ofHex s = .ok a) ↔
        text.length = 40 ∧ ∀ c ∈ text.toList, c ∈ "0123456789abcdefABCDEF".toList) ∧
      (∀ a, ofHex s = .ok a → a.hex = "0x" ++ text.toLower) ∧
      ((Text.utf8 text).length % 2 = 1 → ofHex s = .error .addressOddDigits) ∧
      ((Text.utf8 text).length % 2 = 0 → (¬ ∀ byte ∈ Text.utf8 text, ∃ d, Hex.IsDigit d byte) →
        ∃ good byte, Hex.FirstBad (Text.utf8 text) good byte ∧
          ofHex s = .error (.addressDigit byte good.length)) ∧
      ((Text.utf8 text).length % 2 = 0 → (∀ byte ∈ Text.utf8 text, ∃ d, Hex.IsDigit d byte) →
        (Text.utf8 text).length ≠ 40 →
          ofHex s = .error (.wrongLength 20 ((Text.utf8 text).length / 2))) ∧
      ∀ e, ofHex s = .error e → (e.isLength = true ↔
        (Text.utf8 text).length % 2 = 0 ∧ ∀ byte ∈ Text.utf8 text, ∃ d, Hex.IsDigit d byte)) ∧
    ∀ a : Address, a.hex = "0x" ++ a.digits ∧ ofHex a.hex = .ok a ∧ ofHex a.digits = .ok a ∧
      ofJson a.toJson.compact = .ok a := by
  refine ⟨?_, fun a => ⟨rfl, a.ofHex_hex, a.ofHex_digits, a.ofJson_toJson⟩⟩
  intro s
  have htext : Hex.Unmarked s (Hex.stripMark s) := Hex.stripMark_eq_iff.1 rfl
  refine ⟨_, htext, exists_ofHex_eq_ok_iff htext, fun a ha => hex_of_ofHex_eq_ok htext ha, ?_⟩
  generalize Hex.stripMark s = text at htext
  -- Each of the four cases meets one of the conditions and rules the others out.
  rcases ofHex_cases htext with ⟨a, ha, hdigits⟩ | ⟨hodd, herror⟩ |
    ⟨heven, good, byte, hbad, herror⟩ | ⟨heven, hall, hne, herror⟩
  · have hall := Hex.isDigit_of_halves hdigits
    have hforty : (Text.utf8 text).length = 40 := by
      rw [Hex.length_of_forall₂_halves hdigits, length_toList]
    grind
  · grind [ReadError.isLength]
  · have hsome := hbad.not_forall
    grind [ReadError.isLength]
  · grind [ReadError.isLength]

-- Letters of both cases behind a mark.
example : (ofHex "0x742d35Cc6634C0532925a3b844Bc9e7595f0aB3d").map hex =
    .ok "0x742d35cc6634c0532925a3b844bc9e7595f0ab3d" := by decide +kernel

end Address

end MeteredMachine
