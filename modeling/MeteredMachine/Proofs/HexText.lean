import Mathlib.Data.List.Forall2
import Mathlib.Data.Nat.Digits.Lemmas
import MeteredMachine.Proofs.PlaceValue

/-!
# Hexadecimal texts and the numbers that they denote

A hexadecimal text denotes a number in base sixteen, with digits of either case and with zeros
in front if it likes.  Reading pairs of digits gives the bytes of that number, or finds the first
byte of the text that is no digit.  Writing a number gives the one text in lower case that
denotes it without zeros in front.

Main results:

- Definitions {lit}`Hex.IsDigit` and {lit}`Hex.Denotes` say what digits and texts stand for.
- Theorem {lit}`Hex.decode_cases`: reading a text of even length.
- Definition {lit}`Hex.Unmarked` and theorem {lit}`Hex.stripMark_eq_iff`: dropping a mark.
- Theorems {lit}`Hex.denotes_numeral` and {lit}`Hex.isPlain_numeral`: the text of a number.
-/

namespace MeteredMachine

namespace Hex

/-! ## Digits -/

/-- A byte is the digit of lower or upper case for a number below sixteen. -/
def IsDigit (d : Nat) (byte : UInt8) : Prop :=
  d < 16 ∧
    (byte.toNat = (Nat.digitChar d).toNat ∨ byte.toNat = (Nat.digitChar d).toUpper.toNat)

instance (d : Nat) (byte : UInt8) : Decidable (IsDigit d byte) :=
  inferInstanceAs (Decidable (_ ∧ _))

theorem mem_lower_digitChar : ∀ d < 16, Nat.digitChar d ∈ "0123456789abcdef".toList := by
  decide

theorem toNat_digitChar {d : Nat} (h : d < 16) :
    (Nat.digitChar d).toNat = (if d < 10 then 0x30 + d else 0x57 + d) ∧
      (Nat.digitChar d).toUpper.toNat = (if d < 10 then 0x30 + d else 0x37 + d) := by
  revert d
  decide

/-- A byte has the value of the digit that it is, and no value if it is none. -/
theorem digitValue?_eq_some_iff {byte : UInt8} {d : Nat} :
    digitValue? byte = some d ↔ IsDigit d byte := by
  rw [digitValue?, IsDigit]
  constructor
  · intro h
    have hlt : d < 16 := by
      grind
    obtain ⟨hlower, hupper⟩ := toNat_digitChar hlt
    rw [hlower, hupper]
    grind
  · rintro ⟨hlt, hbyte⟩
    obtain ⟨hlower, hupper⟩ := toNat_digitChar hlt
    rw [hlower, hupper] at hbyte
    grind

theorem digitValue?_eq_none_iff {byte : UInt8} :
    digitValue? byte = none ↔ ∀ d, ¬ IsDigit d byte := by
  rw [Option.eq_none_iff_forall_ne_some]
  simp only [ne_eq, digitValue?_eq_some_iff]

theorem IsDigit.unique : Relator.LeftUnique IsDigit := by
  intro a byte b ha hb
  rw [← digitValue?_eq_some_iff] at ha hb
  exact Option.some.inj (ha.symm.trans hb)

theorem isDigit_digitChar {d : Nat} (h : d < 16) :
    IsDigit d (UInt8.ofNat (Nat.digitChar d).toNat) :=
  digitValue?_eq_some_iff.1 (digitValue?_digitChar h)

/-! ## Numbers -/

/-- A text of digits, the highest first, denotes a number in base sixteen. -/
def Denotes (text : List UInt8) (n : Nat) : Prop :=
  ∃ digits, List.Forall₂ IsDigit digits text ∧ Nat.ofDigits 16 digits.reverse = n

namespace Denotes

variable {text : List UInt8} {n m : Nat}

/-- A text denotes one number at most. -/
theorem unique (hn : Denotes text n) (hm : Denotes text m) : n = m := by
  obtain ⟨digits, hdigits, rfl⟩ := hn
  obtain ⟨digits', hdigits', rfl⟩ := hm
  rw [IsDigit.unique.forall₂ hdigits hdigits']

/-- A zero in front does not change the number. -/
theorem zero_cons_iff : Denotes (0x30 :: text) n ↔ Denotes text n := by
  have hzero : IsDigit 0 0x30 := by decide
  constructor
  · rintro ⟨digits, hdigits, hvalue⟩
    obtain ⟨d, rest, hd, hrest, rfl⟩ := List.forall₂_cons_right_iff.1 hdigits
    cases IsDigit.unique hd hzero
    rw [Nat.ofDigits_reverse_cons, Nat.mul_zero, Nat.add_zero] at hvalue
    exact ⟨rest, hrest, hvalue⟩
  · rintro ⟨digits, hdigits, hvalue⟩
    refine ⟨0 :: digits, .cons hzero hdigits, ?_⟩
    rw [Nat.ofDigits_reverse_cons, Nat.mul_zero, Nat.add_zero, hvalue]

end Denotes

/-- A text denotes a number exactly when all its bytes are digits. -/
theorem exists_denotes_iff {text : List UInt8} :
    (∃ n, Denotes text n) ↔ ∀ byte ∈ text, ∃ d, IsDigit d byte := by
  induction text with
  | nil => exact ⟨fun _ _ h => (List.not_mem_nil h).elim, fun _ => ⟨0, [], .nil, rfl⟩⟩
  | cons byte text ih =>
    rw [List.forall_mem_cons, ← ih]
    constructor
    · rintro ⟨_, digits, hdigits, _⟩
      obtain ⟨d, rest, hd, hrest, _⟩ := List.forall₂_cons_right_iff.1 hdigits
      exact ⟨⟨d, hd⟩, _, rest, hrest, rfl⟩
    · rintro ⟨⟨d, hd⟩, _, digits, hdigits, _⟩
      exact ⟨_, d :: digits, .cons hd hdigits, rfl⟩

/-! ## Pairs of digits -/

/-- The digits of some bytes, two for each, high half first. -/
def halves (bytes : List UInt8) : List Nat :=
  bytes.flatMap fun byte => [byte.toNat / 16, byte.toNat % 16]

theorem halves_cons (byte : UInt8) (bytes : List UInt8) :
    halves (byte :: bytes) = byte.toNat / 16 :: byte.toNat % 16 :: halves bytes :=
  rfl

theorem length_halves (bytes : List UInt8) : (halves bytes).length = 2 * bytes.length := by
  induction bytes with
  | nil => rfl
  | cons byte bytes ih =>
    rw [halves_cons, List.length_cons, List.length_cons, ih, List.length_cons]
    omega

theorem lt_of_mem_halves {bytes : List UInt8} {d : Nat} (h : d ∈ halves bytes) : d < 16 := by
  obtain ⟨byte, _, hd⟩ := List.mem_flatMap.1 h
  have hbyte := byte.toNat_lt
  simp only [List.mem_cons, List.not_mem_nil, or_false] at hd
  omega

theorem digits_eq_map_halves (bytes : List UInt8) :
    digits bytes = (halves bytes).map Nat.digitChar := by
  rw [digits, halves, List.map_flatMap]
  rfl

/-- Written bytes are in lower case. -/
theorem lower_of_mem_encode {bytes : List UInt8} {c : Char} (h : c ∈ (encode bytes).toList) :
    c ∈ "0123456789abcdef".toList := by
  rw [encode, String.toList_ofList, digits_eq_map_halves] at h
  obtain ⟨d, hd, rfl⟩ := List.mem_map.1 h
  exact mem_lower_digitChar d (lt_of_mem_halves hd)

/-- Digits in base sixteen, two for each byte, have the value of the bytes. -/
theorem ofDigits_reverse_halves (bytes : List UInt8) :
    Nat.ofDigits 16 (halves bytes).reverse = BigEndian.value bytes := by
  induction bytes with
  | nil => rfl
  | cons byte bytes ih =>
    have hpow : 16 ^ (2 * bytes.length) = 256 ^ bytes.length := Nat.pow_mul 16 2 _
    have hbyte := Nat.div_add_mod byte.toNat 16
    rw [halves_cons, Nat.ofDigits_reverse_cons, Nat.ofDigits_reverse_cons, List.length_cons,
      length_halves, ih, BigEndian.value_cons, Nat.pow_succ, hpow]
    generalize 256 ^ bytes.length = weight at *
    generalize byte.toNat / 16 = high at *
    grind

/-- Two digits make the byte that has them as its halves. -/
theorem halves_ofNat {high low : Nat} (hhigh : high < 16) (hlow : low < 16) :
    (UInt8.ofNat (high * 16 + low)).toNat / 16 = high ∧
      (UInt8.ofNat (high * 16 + low)).toNat % 16 = low := by
  rw [UInt8.toNat_ofNat']
  omega

/-- A text begins with digits up to a first byte that is none. -/
structure FirstBad (text good : List UInt8) (byte : UInt8) : Prop where
  isPrefix : good ++ [byte] <+: text
  digits : ∀ b ∈ good, ∃ d, IsDigit d b
  bad : ∀ d, ¬ IsDigit d byte

namespace FirstBad

variable {text good : List UInt8} {byte : UInt8}

theorem head (rest : List UInt8) (hbad : digitValue? byte = none) :
    FirstBad (byte :: rest) [] byte :=
  ⟨⟨rest, rfl⟩, fun _ h => (List.not_mem_nil h).elim, digitValue?_eq_none_iff.1 hbad⟩

theorem cons {first : UInt8} {d : Nat} (h : FirstBad text good byte)
    (hfirst : digitValue? first = some d) : FirstBad (first :: text) (first :: good) byte :=
  ⟨List.cons_prefix_cons.2 ⟨rfl, h.isPrefix⟩,
    List.forall_mem_cons.2 ⟨⟨d, digitValue?_eq_some_iff.1 hfirst⟩, h.digits⟩, h.bad⟩

theorem mem (h : FirstBad text good byte) : byte ∈ text :=
  h.isPrefix.subset (List.mem_append_right _ List.mem_cons_self)

theorem not_forall (h : FirstBad text good byte) : ¬ ∀ b ∈ text, ∃ d, IsDigit d b := by
  intro hall
  obtain ⟨d, hd⟩ := hall byte h.mem
  exact h.bad d hd

/-- A text with a byte that is no digit denotes no number. -/
theorem not_denotes (h : FirstBad text good byte) (n : Nat) : ¬ Denotes text n := by
  intro hn
  exact h.not_forall (exists_denotes_iff.1 ⟨n, hn⟩)

end FirstBad

/-- Reading pairs of digits gives the bytes that have them as halves, or finds the first byte
that is no digit. -/
theorem decodePairs_cases (index : Nat) {text : List UInt8} (heven : text.length % 2 = 0) :
    (∃ bytes, decodePairs index text = .ok bytes ∧ List.Forall₂ IsDigit (halves bytes) text) ∨
      ∃ good byte, FirstBad text good byte ∧
        decodePairs index text = .error (.badByte byte (index + good.length)) := by
  fun_induction decodePairs index text with
  | case1 index => exact Or.inl ⟨[], rfl, .nil⟩
  | case2 index byte => cases heven
  | case3 index high low rest hhigh => exact Or.inr ⟨[], high, .head _ hhigh, rfl⟩
  | case4 index high low rest h hlow hhigh =>
    exact Or.inr ⟨[high], low, (FirstBad.head rest hlow).cons hhigh, rfl⟩
  | case5 index high low rest h l hlow hhigh bytes hrest ih =>
    simp only [List.length_cons] at heven
    rw [digitValue?_eq_some_iff] at hhigh hlow
    obtain ⟨hh, hl⟩ := halves_ofNat hhigh.1 hlow.1
    rcases ih (by omega) with ⟨bytes', hok, hdigits⟩ | ⟨_, _, _, herror⟩
    · cases hrest.symm.trans hok
      refine Or.inl ⟨_, rfl, ?_⟩
      rw [halves_cons, hh, hl]
      exact .cons hhigh (.cons hlow hdigits)
    · cases hrest.symm.trans herror
  | case6 index high low rest h l hlow hhigh flaw hrest ih =>
    simp only [List.length_cons] at heven
    rcases ih (by omega) with ⟨_, hok, _⟩ | ⟨good, byte, hbad, herror⟩
    · cases hrest.symm.trans hok
    · cases hrest.symm.trans herror
      refine Or.inr ⟨high :: low :: good, byte, (hbad.cons hlow).cons hhigh, ?_⟩
      rw [List.length_cons, List.length_cons, Nat.add_assoc, Nat.add_comm 2]

/-- Reading a text of even length gives the bytes that have its digits as halves, or finds its
first byte that is no digit. -/
theorem decode_cases_halves {text : List UInt8} (heven : text.length % 2 = 0) :
    (∃ bytes, decode text = .ok bytes ∧ List.Forall₂ IsDigit (halves bytes) text) ∨
      ∃ good byte, FirstBad text good byte ∧
        decode text = .error (.badByte byte good.length) := by
  have hcases := decodePairs_cases 0 heven
  simp only [Nat.zero_add] at hcases
  rw [decode, if_neg (by omega)]
  exact hcases

/-- Digits in pairs are twice as many as the bytes that have them as halves. -/
theorem length_of_forall₂_halves {text bytes : List UInt8}
    (h : List.Forall₂ IsDigit (halves bytes) text) : text.length = 2 * bytes.length := by
  rw [← h.length_eq, length_halves]

/-- Reading a text of even length gives half as many bytes, whose value the text denotes, or
finds its first byte that is no digit. -/
theorem decode_cases {text : List UInt8} (heven : text.length % 2 = 0) :
    (∃ bytes, decode text = .ok bytes ∧ text.length = 2 * bytes.length ∧
        Denotes text (BigEndian.value bytes)) ∨
      ∃ good byte, FirstBad text good byte ∧
        decode text = .error (.badByte byte good.length) := by
  rcases decode_cases_halves heven with ⟨bytes, hok, hdigits⟩ | hbad
  · exact Or.inl ⟨bytes, hok, length_of_forall₂_halves hdigits, _, hdigits,
      ofDigits_reverse_halves bytes⟩
  · exact Or.inr hbad

/-! ## Marks -/

/-- A text without its mark: what follows one leading `0x`, or the whole text if there is
none. -/
def Unmarked (s text : String) : Prop :=
  s = "0x" ++ text ∨ s = text ∧ ∀ rest, s ≠ "0x" ++ rest

theorem stripMark_mark_append (text : String) : stripMark ("0x" ++ text) = text := by
  have hchars : ("0x" ++ text).toList = '0' :: 'x' :: text.toList := String.toList_append
  rw [stripMark, hchars]
  exact String.ofList_toList

theorem stripMark_of_ne {s : String} (h : ∀ rest, s ≠ "0x" ++ rest) : stripMark s = s := by
  rw [stripMark]
  split
  next rest hchars =>
    refine absurd ?_ (h (String.ofList rest))
    rw [← String.toList_inj, String.toList_append, hchars]
    simp
  next => rfl

/-- Dropping a mark gives the text without it. -/
theorem stripMark_eq_iff {s text : String} : stripMark s = text ↔ Unmarked s text := by
  constructor
  · intro hstrip
    by_cases hmark : ∃ rest, s = "0x" ++ rest
    · obtain ⟨rest, rfl⟩ := hmark
      rw [stripMark_mark_append] at hstrip
      exact Or.inl (congrArg _ hstrip)
    · rw [not_exists] at hmark
      rw [stripMark_of_ne hmark] at hstrip
      exact Or.inr ⟨hstrip, hmark⟩
  · rintro (rfl | ⟨rfl, hmark⟩)
    · exact stripMark_mark_append text
    · exact stripMark_of_ne hmark

/-! ## Texts of numbers -/

/-- A text in lower case without zeros in front, where zero is a single digit. -/
structure IsPlain (text : String) : Prop where
  ne_empty : text ≠ ""
  lower : ∀ c ∈ text.toList, c ∈ "0123456789abcdef".toList
  head_zero : text.toList.head? = some '0' → text = "0"

/-- A plain text has no mark. -/
theorem IsPlain.unmarked {text : String} (h : IsPlain text) : Unmarked text text := by
  refine Or.inr ⟨rfl, ?_⟩
  rintro rest rfl
  have hletter : 'x' ∈ "0123456789abcdef".toList := by
    apply h.lower
    rw [String.toList_append]
    exact List.mem_append_left _ (by decide)
  exact absurd hletter (by decide)

/-- The digits that are written for a number other than zero are those of base sixteen. -/
theorem toDigits_eq_map {n : Nat} (h : n ≠ 0) :
    Nat.toDigits 16 n = (Nat.digits 16 n).reverse.map Nat.digitChar := by
  induction n using Nat.strongRecOn with
  | ind n ih =>
    rw [Nat.digits_def' (by decide) (Nat.pos_of_ne_zero h), List.reverse_cons, List.map_append]
    by_cases hlt : n < 16
    · rw [Nat.toDigits_of_lt_base hlt, Nat.div_eq_of_lt hlt, Nat.mod_eq_of_lt hlt]
      simp
    · rw [Nat.toDigits_of_base_le (by decide) (by omega), ih (n / 16) (by omega) (by omega)]
      rfl

/-- The digits of a number with their values, the highest first. -/
theorem exists_toDigits_eq_map (n : Nat) :
    ∃ digits : List Nat, Nat.toDigits 16 n = digits.map Nat.digitChar ∧
      (∀ d ∈ digits, d < 16) ∧ Nat.ofDigits 16 digits.reverse = n ∧
      (digits.head? = some 0 → n = 0) := by
  by_cases hzero : n = 0
  · subst hzero
    exact ⟨[0], rfl, by decide, rfl, fun _ => rfl⟩
  · refine ⟨(Nat.digits 16 n).reverse, toDigits_eq_map hzero, ?_, ?_, ?_⟩
    · intro d hd
      exact Nat.digits_lt_base (by decide) (List.mem_reverse.1 hd)
    · rw [List.reverse_reverse, Nat.ofDigits_digits]
    · rw [List.head?_reverse, List.getLast?_eq_some_getLast (Nat.digits_ne_nil_iff_ne_zero.2 hzero)]
      intro hlast
      exact absurd (Option.some.inj hlast) (Nat.getLast_digit_ne_zero 16 hzero)

/-- The digits that are written are single bytes. -/
theorem utf8_map_digitChar {digits : List Nat} (h : ∀ d ∈ digits, d < 16) :
    Text.utf8 (String.ofList (digits.map Nat.digitChar)) =
      digits.map fun d => UInt8.ofNat (Nat.digitChar d).toNat := by
  rw [Text.utf8_ofList, List.flatMap_map, List.map_eq_flatMap]
  exact List.flatMap_congr fun d hd => utf8EncodeChar_digitChar (h d hd)

/-- The text of a number denotes it. -/
theorem denotes_numeral (n : Nat) : Denotes (Text.utf8 (numeral n)) n := by
  obtain ⟨digits, hchars, hlt, hvalue, _⟩ := exists_toDigits_eq_map n
  refine ⟨digits, ?_, hvalue⟩
  rw [numeral, hchars, utf8_map_digitChar hlt, List.forall₂_map_right_iff, List.forall₂_same]
  exact fun d hd => isDigit_digitChar (hlt d hd)

/-- The text of a number is plain. -/
theorem isPlain_numeral (n : Nat) : IsPlain (numeral n) := by
  obtain ⟨digits, hchars, hlt, _, hhead⟩ := exists_toDigits_eq_map n
  have hlist : (numeral n).toList = digits.map Nat.digitChar := by
    rw [numeral, String.toList_ofList, hchars]
  refine ⟨?_, ?_, ?_⟩
  · intro hempty
    rw [hempty, ← hchars] at hlist
    exact Nat.toDigits_ne_nil hlist.symm
  · intro c hc
    rw [hlist] at hc
    obtain ⟨d, hd, rfl⟩ := List.mem_map.1 hc
    exact mem_lower_digitChar d (hlt d hd)
  · rw [hlist, List.head?_map]
    intro hzero
    obtain ⟨d, hd, hchar⟩ := Option.map_eq_some_iff.1 hzero
    have htable : ∀ d < 16, Nat.digitChar d = '0' → d = 0 := by decide
    cases htable d (hlt d (List.mem_of_head? hd)) hchar
    rw [hhead hd]
    rfl

/-- The text of a number has so many bytes at most if the number has so many digits. -/
theorem length_utf8_numeral_le_iff {n count : Nat} (hpos : 0 < count) :
    (Text.utf8 (numeral n)).length ≤ count ↔ n < 16 ^ count := by
  obtain ⟨digits, hchars, hlt, _, _⟩ := exists_toDigits_eq_map n
  rw [← Nat.length_toDigits_le_iff (by decide) hpos, numeral, hchars, utf8_map_digitChar hlt,
    List.length_map, List.length_map]

end Hex

end MeteredMachine
