import MeteredMachine.Proofs.JsonString

/-!
# The grammar of JSON text

The grammar says which texts are values and objects and what their members are, apart from any
reader.  Strings are taken as 16-bit units, since the grammar lets one write half of a pair, which
is no character.  The readers of strings and truth values follow the grammar: they read what it
allows, and fail only at a half or at a value of another kind.

Main results:

- Definitions {lit}`Json.Spells`, {lit}`Json.IsValue` and {lit}`Json.ObjectText`: strings, values
  and whole objects.
- Theorem {lit}`Json.Spells.taken`: reading the text of any units.
- Theorems {lit}`Json.readBool_boolText` and {lit}`Json.readBool_of_isValue`: reading a truth value
  and reading any other value as one.
- Theorem {lit}`Json.objectText_compact`: written objects follow the grammar.
-/

namespace MeteredMachine

namespace Json

/-! ## Blanks and strings -/

/-- Any number of spaces, tabs and line ends. -/
def Blanks (text : List Char) : Prop :=
  ∀ c ∈ text, c = ' ' ∨ c = '\t' ∨ c = '\n' ∨ c = '\r'

instance (text : List Char) : Decidable (Blanks text) :=
  List.decidableBAll _ text

/-- The 16-bit units of a character: one unit, or the two halves of a pair. -/
def charUnits (c : Char) : List Nat :=
  if c.toNat < 0x10000 then [c.toNat]
  else [0xd800 + (c.toNat - 0x10000) / 0x400, 0xdc00 + (c.toNat - 0x10000) % 0x400]

/-- The 16-bit units of some characters. -/
def units (chars : List Char) : List Nat :=
  chars.flatMap charUnits

/-- A unit is one half of a pair. -/
def IsHalf (unit : Nat) : Prop :=
  0xd800 ≤ unit ∧ unit ≤ 0xdfff

/-- A character is the digit of lower or upper case for a number below sixteen. -/
def IsHexDigit (d : Nat) (c : Char) : Prop :=
  d < 16 ∧ (c = Nat.digitChar d ∨ c = (Nat.digitChar d).toUpper)

instance (d : Nat) (c : Char) : Decidable (IsHexDigit d c) :=
  inferInstanceAs (Decidable (_ ∧ _))

/-- The letters behind a backslash, and the characters that they stand for. -/
def shortEscapes : List (Char × Char) :=
  [('"', '"'), ('\\', '\\'), ('/', '/'), ('b', Char.ofNat 8), ('f', Char.ofNat 12), ('n', '\n'),
    ('r', '\r'), ('t', '\t')]

/-- The text between the quotes of a string stands for 16-bit units.  A half of a pair may be
written on its own, although it stands for no character. -/
inductive Spells : List Char → List Nat → Prop where
  /-- The empty text. -/
  | nil : Spells [] []
  /-- A character as it stands. -/
  | plain {c : Char} {text : List Char} {us : List Nat} (hquote : c ≠ '"') (hslash : c ≠ '\\')
      (hcontrol : 0x20 ≤ c.toNat) (h : Spells text us) : Spells (c :: text) (charUnits c ++ us)
  /-- A character behind a backslash. -/
  | short {e c : Char} {text : List Char} {us : List Nat} (hshort : (e, c) ∈ shortEscapes)
      (h : Spells text us) : Spells ('\\' :: e :: text) (c.toNat :: us)
  /-- A unit by its number. -/
  | unit {p q r s : Nat} {a b c d : Char} {text : List Char} {us : List Nat}
      (ha : IsHexDigit p a) (hb : IsHexDigit q b) (hc : IsHexDigit r c) (hd : IsHexDigit s d)
      (h : Spells text us) :
      Spells ('\\' :: 'u' :: a :: b :: c :: d :: text) ((((p * 16 + q) * 16 + r) * 16 + s) :: us)

/-! ## Numbers -/

/-- One or more decimal digits. -/
def DigitRun (text : List Char) : Prop :=
  text ≠ [] ∧ ∀ c ∈ text, c.isDigit

/-- A whole number: zero, or digits of which the first is not zero. -/
def WholePart (text : List Char) : Prop :=
  text = ['0'] ∨ DigitRun text ∧ text.head? ≠ some '0'

/-- Digits behind a point, or nothing. -/
def FractionPart (text : List Char) : Prop :=
  text = [] ∨ ∃ digits, DigitRun digits ∧ text = '.' :: digits

/-- Digits behind a letter and perhaps a sign, or nothing. -/
def ExponentPart (text : List Char) : Prop :=
  text = [] ∨ ∃ letter sign digits, letter ∈ ['e', 'E'] ∧ sign ∈ [[], ['+'], ['-']] ∧
    DigitRun digits ∧ text = letter :: (sign ++ digits)

/-- A number is a whole number, perhaps behind a minus sign, and perhaps with a fraction and an
exponent behind it. -/
def IsNumber (text : List Char) : Prop :=
  ∃ sign whole fraction exponent, sign ∈ [[], ['-']] ∧ WholePart whole ∧ FractionPart fraction ∧
    ExponentPart exponent ∧ text = sign ++ whole ++ fraction ++ exponent

/-! ## Values -/

/-- The text of a truth value. -/
def boolText : Bool → List Char
  | true => ['t', 'r', 'u', 'e']
  | false => ['f', 'a', 'l', 's', 'e']

/-- One or more pieces with commas between them. -/
inductive Listed {α : Type} (Piece : α → List Char → Prop) : List α → List Char → Prop where
  /-- A single piece. -/
  | one {a : α} {text : List Char} (h : Piece a text) : Listed Piece [a] text
  /-- A piece in front of others. -/
  | cons {a : α} {others : List α} {text rest : List Char} (h : Piece a text)
      (hrest : Listed Piece others rest) : Listed Piece (a :: others) (text ++ ',' :: rest)

/-- Any number of pieces with commas between them; if there are none, blanks may stand there. -/
inductive Series {α : Type} (Piece : α → List Char → Prop) : List α → List Char → Prop where
  /-- No pieces. -/
  | none {blanks : List Char} (h : Blanks blanks) : Series Piece [] blanks
  /-- One or more pieces. -/
  | some {pieces : List α} {text : List Char} (h : Listed Piece pieces text) :
      Series Piece pieces text

/-- A value with blanks around it. -/
inductive Padded (Value : List Char → Prop) : List Char → List Char → Prop where
  /-- Blanks, the value and blanks. -/
  | mk {front value back : List Char} (hfront : Blanks front) (hvalue : Value value)
      (hback : Blanks back) : Padded Value value (front ++ value ++ back)

/-- A member of an object: the units of its name, and its value as it is written. -/
structure Member where
  /-- The units of the name. -/
  name : List Nat
  /-- The text of the value. -/
  value : List Char

/-- A name between quotes, a colon and a value, with blanks around each of them. -/
inductive IsMember (Value : List Char → Prop) : Member → List Char → Prop where
  /-- Blanks, the name, blanks, the colon and the value. -/
  | mk {front name middle value padded : List Char} {us : List Nat} (hfront : Blanks front)
      (hname : Spells name us) (hmiddle : Blanks middle) (hvalue : Padded Value value padded) :
      IsMember Value { name := us, value }
        (front ++ '"' :: (name ++ '"' :: (middle ++ ':' :: padded)))

/-- The text of a value, without blanks around it. -/
inductive IsValue : List Char → Prop where
  /-- The null value. -/
  | null : IsValue ['n', 'u', 'l', 'l']
  /-- A truth value. -/
  | bool (b : Bool) : IsValue (boolText b)
  /-- A number. -/
  | number {text : List Char} (h : IsNumber text) : IsValue text
  /-- A string. -/
  | string {text : List Char} {us : List Nat} (h : Spells text us) :
      IsValue ('"' :: (text ++ ['"']))
  /-- A list of values. -/
  | array {values : List (List Char)} {text : List Char} (h : Series (Padded IsValue) values text) :
      IsValue ('[' :: (text ++ [']']))
  /-- An object. -/
  | object {members : List Member} {text : List Char} (h : Series (IsMember IsValue) members text) :
      IsValue (Char.ofNat 0x7b :: (text ++ [Char.ofNat 0x7d]))

/-- A whole text that is an object with the given members, and blanks around it. -/
inductive ObjectText : List Member → List Char → Prop where
  /-- Blanks, the object and blanks. -/
  | mk {front text back : List Char} {members : List Member} (hfront : Blanks front)
      (h : Series (IsMember IsValue) members text) (hback : Blanks back) :
      ObjectText members (front ++ Char.ofNat 0x7b :: (text ++ Char.ofNat 0x7d :: back))

/-! ## Reading blanks and strings -/

theorem skipBlanks_append {blanks : List Char} (h : Blanks blanks) (rest : List Char) :
    skipBlanks (blanks ++ rest) = skipBlanks rest := by
  induction blanks with
  | nil => rfl
  | cons c blanks ih =>
    obtain ⟨hc, hblanks⟩ := List.forall_mem_cons.1 h
    have hblank : isBlank c = true := by
      rcases hc with rfl | rfl | rfl | rfl <;> rfl
    rw [List.cons_append, skipBlanks, List.dropWhile_cons_of_pos hblank, ← skipBlanks, ih hblanks]

theorem skipBlanks_cons {c : Char} (h : isBlank c = false) (rest : List Char) :
    skipBlanks (c :: rest) = c :: rest := by
  rw [skipBlanks, List.dropWhile_cons_of_neg (by simp [h])]

theorem hexValue?_of_isHexDigit {d : Nat} {c : Char} (h : IsHexDigit d c) :
    hexValue? c = some d := by
  obtain ⟨hd, rfl | rfl⟩ := h
  · exact hexValue?_digitChar hd
  · revert d
    decide

theorem unit?_of_isHexDigit {p q r s : Nat} {a b c d : Char} (ha : IsHexDigit p a)
    (hb : IsHexDigit q b) (hc : IsHexDigit r c) (hd : IsHexDigit s d) :
    unit? a b c d = some (((p * 16 + q) * 16 + r) * 16 + s) := by
  rw [unit?, hexValue?_of_isHexDigit ha, hexValue?_of_isHexDigit hb, hexValue?_of_isHexDigit hc,
    hexValue?_of_isHexDigit hd]
  rfl

theorem isLowHalf_iff {n : Nat} : isLowHalf n = true ↔ 0xdc00 ≤ n ∧ n ≤ 0xdfff := by
  rw [isLowHalf, Bool.and_eq_true, decide_eq_true_iff, decide_eq_true_iff]

theorem isHighHalf_iff {n : Nat} : isHighHalf n = true ↔ 0xd800 ≤ n ∧ n ≤ 0xdbff := by
  rw [isHighHalf, Bool.and_eq_true, decide_eq_true_iff, decide_eq_true_iff]

theorem isHalf_iff {n : Nat} : IsHalf n ↔ isHighHalf n = true ∨ isLowHalf n = true := by
  rw [IsHalf, isHighHalf_iff, isLowHalf_iff]
  omega

theorem isLowHalf_of_isHighHalf {n : Nat} (h : isHighHalf n = true) : isLowHalf n = false := by
  rw [Bool.eq_false_iff, ne_eq, isLowHalf_iff]
  rw [isHighHalf_iff] at h
  omega

section

variable {a b c d : Char} {n : Nat} (hunit : unit? a b c d = some n) (rest : List Char)

include hunit

/-- A unit that is no half is read as its character. -/
theorem readString_single (h : ¬ IsHalf n) :
    readString ('\\' :: 'u' :: a :: b :: c :: d :: rest) =
      prepend (Char.ofNat n) (readString rest) := by
  simp only [isHalf_iff, not_or, Bool.not_eq_true] at h
  rw [readString, hunit]
  simp only [h]
  rfl

/-- A second half without a first one is refused. -/
theorem readString_low (h : isLowHalf n = true) :
    readString ('\\' :: 'u' :: a :: b :: c :: d :: rest) = .error .malformed := by
  rw [readString, hunit]
  simp only [h]
  rfl

/-- Two halves are read as one character. -/
theorem readString_pair {e f g k : Char} {m : Nat} (hhigh : isHighHalf n = true)
    (hunit' : unit? e f g k = some m) (hlow : isLowHalf m = true) :
    readString ('\\' :: 'u' :: a :: b :: c :: d :: '\\' :: 'u' :: e :: f :: g :: k :: rest) =
      prepend (pairChar n m) (readString rest) := by
  rw [readString, hunit]
  simp only [isLowHalf_of_isHighHalf hhigh, hhigh, hunit', hlow]
  rfl

/-- A first half without a second one behind it is refused. -/
theorem readString_lone (hhigh : isHighHalf n = true)
    (hlone : ∀ e f g k rest' m, rest = '\\' :: 'u' :: e :: f :: g :: k :: rest' →
      unit? e f g k = some m → isLowHalf m = false) :
    ∃ failure, readString ('\\' :: 'u' :: a :: b :: c :: d :: rest) = .error failure := by
  rw [readString, hunit]
  simp only [isLowHalf_of_isHighHalf hhigh, hhigh]
  simp only [Bool.false_eq_true, if_false, if_true]
  split
  next e f g k rest' =>
    split
    next => exact ⟨_, rfl⟩
    next m hm =>
      rw [hlone e f g k rest' m rfl hm]
      exact ⟨_, rfl⟩
  next => exact ⟨_, rfl⟩

end

theorem toNat_ofNat_of_valid {n : Nat} (h : n.isValidChar) : (Char.ofNat n).toNat = n := by
  rw [Char.ofNat, dif_pos h]
  rfl

theorem charUnits_ofNat {n : Nat} (hlt : n < 0x10000) (h : ¬ IsHalf n) :
    charUnits (Char.ofNat n) = [n] := by
  rw [IsHalf] at h
  have hvalid : n.isValidChar := by
    rw [Nat.isValidChar]
    omega
  rw [charUnits, toNat_ofNat_of_valid hvalid, if_pos hlt]

theorem charUnits_pairChar {n m : Nat} (hhigh : isHighHalf n = true) (hlow : isLowHalf m = true) :
    charUnits (pairChar n m) = [n, m] := by
  rw [isHighHalf_iff] at hhigh
  rw [isLowHalf_iff] at hlow
  have hvalid : ((n - 0xd800) * 0x400 + (m - 0xdc00) + 0x10000).isValidChar := by
    rw [Nat.isValidChar]
    omega
  have hfirst : 0xd800 + ((n - 0xd800) * 0x400 + (m - 0xdc00) + 0x10000 - 0x10000) / 0x400 = n := by
    omega
  have hsecond :
      0xdc00 + ((n - 0xd800) * 0x400 + (m - 0xdc00) + 0x10000 - 0x10000) % 0x400 = m := by
    omega
  rw [charUnits, pairChar, toNat_ofNat_of_valid hvalid, if_neg (by omega), hfirst, hsecond]

/-- How the reader takes the text of some units: as the characters that have these units, or not at
all, and then there is a half among them. -/
def Taken (text : List Char) (us : List Nat) : Prop :=
  ∀ rest, (∃ chars, units chars = us ∧
      readString (text ++ '"' :: rest) = .ok { value := chars, rest }) ∨
    (∃ failure, readString (text ++ '"' :: rest) = .error failure) ∧ ∃ u ∈ us, IsHalf u

/-- A text in front of which one more character is read. -/
theorem Taken.prepend {text piece : List Char} {us : List Nat} (h : Taken text us) {c : Char}
    (hpiece : ∀ rest, readString (piece ++ rest) = Json.prepend c (readString rest)) :
    Taken (piece ++ text) (charUnits c ++ us) := by
  intro rest
  rw [List.append_assoc, hpiece]
  rcases h rest with ⟨chars, rfl, hread⟩ | ⟨⟨failure, hread⟩, u, hu, hhalf⟩
  · exact Or.inl ⟨c :: chars, rfl, by rw [hread]; rfl⟩
  · exact Or.inr ⟨⟨failure, by rw [hread]; rfl⟩, u, List.mem_append_right _ hu, hhalf⟩

/-- A first half without a second one behind it is not taken. -/
theorem taken_of_lone {a b c d : Char} {n : Nat} (hunit : unit? a b c d = some n)
    (hhigh : isHighHalf n = true) {text : List Char} (us : List Nat)
    (hlone : ∀ e f g k rest rest' m,
      text ++ '"' :: rest = '\\' :: 'u' :: e :: f :: g :: k :: rest' →
        unit? e f g k = some m → isLowHalf m = false) :
    Taken ('\\' :: 'u' :: a :: b :: c :: d :: text) (n :: us) := by
  intro rest
  exact Or.inr ⟨readString_lone hunit _ hhigh fun e f g k rest' m => hlone e f g k rest rest' m,
    n, List.mem_cons_self, isHalf_iff.2 (Or.inl hhigh)⟩

/-- A unit in front of a text; if it is a first half, what comes next decides. -/
theorem Taken.unit {text : List Char} {us : List Nat} (h : Taken text us) {a b c d : Char} {n : Nat}
    (hunit : unit? a b c d = some n) (hlt : n < 0x10000)
    (hhalf : isHighHalf n = true → Taken ('\\' :: 'u' :: a :: b :: c :: d :: text) (n :: us)) :
    Taken ('\\' :: 'u' :: a :: b :: c :: d :: text) (n :: us) := by
  by_cases hn : IsHalf n
  · rcases isHalf_iff.1 hn with hhigh | hlow
    · exact hhalf hhigh
    · intro rest
      exact Or.inr ⟨⟨_, readString_low hunit _ hlow⟩, n, List.mem_cons_self, hn⟩
  · have hpiece (rest : List Char) : readString (['\\', 'u', a, b, c, d] ++ rest) =
        Json.prepend (Char.ofNat n) (readString rest) := readString_single hunit rest hn
    have htaken := h.prepend hpiece
    rwa [charUnits_ofNat hlt hn] at htaken

/-- A unit behind a first half: the two make a pair, or the first half is alone. -/
theorem Taken.behind_half {text : List Char} {us : List Nat} (h : Taken text us)
    {a b c d e f g k : Char} {n m : Nat} (hunit : unit? a b c d = some n)
    (hhigh : isHighHalf n = true) (hunit' : unit? e f g k = some m) :
    Taken ('\\' :: 'u' :: a :: b :: c :: d :: '\\' :: 'u' :: e :: f :: g :: k :: text)
      (n :: m :: us) := by
  by_cases hlow : isLowHalf m = true
  · have hpiece (rest : List Char) :
        readString (['\\', 'u', a, b, c, d, '\\', 'u', e, f, g, k] ++ rest) =
          Json.prepend (pairChar n m) (readString rest) :=
      readString_pair hunit rest hhigh hunit' hlow
    have htaken := h.prepend hpiece
    rwa [charUnits_pairChar hhigh hlow] at htaken
  · refine taken_of_lone hunit hhigh _ ?_
    intro e f g k rest rest' m' heq hunit''
    simp only [List.cons_append, List.cons.injEq, true_and] at heq
    obtain ⟨rfl, rfl, rfl, rfl, _⟩ := heq
    obtain rfl := Option.some.inj (hunit'.symm.trans hunit'')
    exact Bool.eq_false_iff.2 hlow

theorem charUnits_of_mem_shortEscapes {e c : Char} (h : (e, c) ∈ shortEscapes) :
    shortEscape? e = some c ∧ charUnits c = [c.toNat] := by
  have htable : ∀ entry ∈ shortEscapes,
      shortEscape? entry.1 = some entry.2 ∧ charUnits entry.2 = [entry.2.toNat] := by
    decide
  exact htable (e, c) h

/-- The reader takes the text of any units, also behind the first half of a pair. -/
theorem Spells.taken {text : List Char} {us : List Nat} (h : Spells text us) :
    Taken text us ∧ ∀ {a b c d : Char} {n : Nat}, unit? a b c d = some n → isHighHalf n = true →
      Taken ('\\' :: 'u' :: a :: b :: c :: d :: text) (n :: us) := by
  -- A first half is read together with the unit behind it, so both parts go through the induction.
  induction h with
  | nil =>
    refine ⟨fun rest => Or.inl ⟨[], rfl, by rw [List.nil_append, readString]⟩, ?_⟩
    intro a b c d n hunit hhigh
    refine taken_of_lone hunit hhigh _ ?_
    intro e f g k rest rest' m heq
    cases heq
  | @plain x text us hquote hslash hcontrol _ ih =>
    have hpiece (rest : List Char) : readString ([x] ++ rest) = prepend x (readString rest) :=
      readString_cons rest hquote hslash (Nat.not_lt.2 hcontrol)
    refine ⟨ih.1.prepend hpiece, ?_⟩
    intro a b c d n hunit hhigh
    refine taken_of_lone hunit hhigh _ ?_
    intro e f g k rest rest' m heq
    exact absurd (List.cons.inj heq).1 hslash
  | @short y x text us hshort _ ih =>
    obtain ⟨hescape, hunits⟩ := charUnits_of_mem_shortEscapes hshort
    have hpiece (rest : List Char) : readString (['\\', y] ++ rest) = prepend x (readString rest) :=
      readString_short rest hescape
    refine ⟨?_, ?_⟩
    · have htaken := ih.1.prepend hpiece
      rwa [hunits] at htaken
    · intro a b c d n hunit hhigh
      refine taken_of_lone hunit hhigh _ ?_
      intro e f g k rest rest' m heq
      obtain rfl : y = 'u' := (List.cons.inj (List.cons.inj heq).2).1
      cases hescape
  | @unit p q r s a' b' c' d' text us ha hb hc hd _ ih =>
    have hunit' := unit?_of_isHexDigit ha hb hc hd
    have hlt : ((p * 16 + q) * 16 + r) * 16 + s < 0x10000 := by
      have := ha.1
      have := hb.1
      have := hc.1
      have := hd.1
      omega
    refine ⟨ih.1.unit hunit' hlt (ih.2 hunit'), ?_⟩
    intro a b c d n hunit hhigh
    exact ih.1.behind_half hunit hhigh hunit'

/-! ## Reading truth values -/

theorem readBool_boolText {front : List Char} (hfront : Blanks front) (b : Bool)
    (rest : List Char) :
    readBool (front ++ (boolText b ++ rest)) = .ok { value := b, rest } := by
  rw [readBool, skipBlanks_append hfront]
  cases b with
  | true => rfl
  | false => rfl

theorem IsNumber.head {text : List Char} (h : IsNumber text) :
    ∃ c rest, text = c :: rest ∧ (c = '-' ∨ c.isDigit) := by
  obtain ⟨sign, whole, fraction, exponent, hsign, hwhole, _, _, rfl⟩ := h
  have hfirst : ∃ c rest, whole = c :: rest ∧ c.isDigit := by
    rcases hwhole with rfl | ⟨⟨hne, hdigits⟩, _⟩
    · exact ⟨'0', [], rfl, rfl⟩
    · obtain ⟨c, rest, rfl⟩ := List.exists_cons_of_ne_nil hne
      exact ⟨c, rest, rfl, hdigits c List.mem_cons_self⟩
  obtain ⟨c, rest, rfl, hc⟩ := hfirst
  simp only [List.mem_cons, List.not_mem_nil, or_false] at hsign
  rcases hsign with rfl | rfl
  · exact ⟨c, _, rfl, Or.inr hc⟩
  · exact ⟨'-', _, rfl, Or.inl rfl⟩

/-- A value that is no truth value shows it by its first character. -/
theorem IsValue.head {text : List Char} (h : IsValue text) (hbool : ∀ b, text ≠ boolText b) :
    ∃ c rest, text = c :: rest ∧ isBlank c = false ∧ c ≠ 't' ∧ c ≠ 'f' := by
  cases h with
  | null => exact ⟨'n', _, rfl, by decide⟩
  | bool b => exact absurd rfl (hbool b)
  | number h =>
    obtain ⟨c, rest, rfl, hc⟩ := h.head
    refine ⟨c, rest, rfl, ?_⟩
    rcases hc with rfl | hdigit
    · decide
    · have hne {d : Char} (hd : d.isDigit = false) : c ≠ d := by
        rintro rfl
        rw [hd] at hdigit
        cases hdigit
      refine ⟨?_, hne rfl, hne rfl⟩
      simp only [isBlank, Bool.or_eq_false_iff, beq_eq_false_iff_ne]
      exact ⟨⟨⟨hne rfl, hne rfl⟩, hne rfl⟩, hne rfl⟩
  | string h => exact ⟨'"', _, rfl, by decide⟩
  | array h => exact ⟨'[', _, rfl, by decide⟩
  | object h => exact ⟨Char.ofNat 0x7b, _, rfl, by decide⟩

theorem readBool_of_isValue {front text : List Char} (hfront : Blanks front) (h : IsValue text)
    (hbool : ∀ b, text ≠ boolText b) (rest : List Char) :
    ∃ failure, readBool (front ++ (text ++ rest)) = .error failure := by
  obtain ⟨c, tail, rfl, hblank, htrue, hfalse⟩ := h.head hbool
  rw [readBool, skipBlanks_append hfront, List.cons_append, skipBlanks_cons hblank]
  split
  next heq => cases heq
  next heq => exact absurd (List.cons.inj heq).1 htrue
  next heq => exact absurd (List.cons.inj heq).1 hfalse
  next => exact ⟨_, rfl⟩

/-! ## Characters and units -/

theorem charUnits_of_lt {c : Char} (h : c.toNat < 0x10000) : charUnits c = [c.toNat] :=
  if_pos h

theorem charUnits_cases (c : Char) : charUnits c = [c.toNat] ∨ ∃ u ∈ charUnits c, IsHalf u := by
  rcases Nat.lt_or_ge c.toNat 0x10000 with hlt | hge
  · exact Or.inl (charUnits_of_lt hlt)
  · have hvalid : c.toNat < 0x110000 := by
      have hvalid := c.valid
      rw [UInt32.isValidChar, Nat.isValidChar] at hvalid
      change c.val.toNat < 0x110000
      omega
    rw [charUnits, if_neg (Nat.not_lt.2 hge)]
    refine Or.inr ⟨_, List.mem_cons_self, ?_⟩
    rw [IsHalf]
    omega

theorem units_cons (c : Char) (chars : List Char) :
    units (c :: chars) = charUnits c ++ units chars :=
  List.flatMap_cons ..

theorem units_eq_map {chars : List Char} (hplain : ∀ u ∈ units chars, ¬ IsHalf u) :
    units chars = chars.map Char.toNat := by
  induction chars with
  | nil => rfl
  | cons c chars ih =>
    rw [units_cons, List.forall_mem_append] at hplain
    rcases charUnits_cases c with hc | ⟨u, hu, hhalf⟩
    · rw [units_cons, hc, ih hplain.2, List.map_cons, List.singleton_append]
    · exact absurd hhalf (hplain.1 u hu)

/-- Characters are determined by their units, if none of these is a half. -/
theorem eq_of_units_eq {chars others : List Char} (hplain : ∀ u ∈ units others, ¬ IsHalf u)
    (h : units chars = units others) : chars = others := by
  have hmaps : chars.map Char.toNat = others.map Char.toNat := by
    rw [← units_eq_map hplain, ← h]
    exact (units_eq_map (h ▸ hplain)).symm
  exact (List.map_inj_right fun _ _ => Char.toNat_inj.1).1 hmaps

/-! ## Written texts -/

theorem blanks_nil : Blanks [] := by
  intro c hc
  cases hc

theorem mem_shortEscapes {e c : Char} (h : shortEscape? e = some c) : (e, c) ∈ shortEscapes := by
  unfold shortEscape? at h
  split at h <;> cases h <;> decide

/-- The text of a string spells the string. -/
theorem spells_flatMap_escapeChar (chars : List Char) :
    Spells (chars.flatMap escapeChar) (units chars) := by
  induction chars with
  | nil => exact .nil
  | cons c chars ih =>
    rw [List.flatMap_cons, units_cons]
    rcases escapeChar_cases c with
      ⟨e, hshort, heq⟩ | ⟨hcontrol, heq⟩ | ⟨hquote, hslash, hcontrol, heq⟩
    · have hmem := mem_shortEscapes hshort
      rw [heq, (charUnits_of_mem_shortEscapes hmem).2]
      exact .short hmem ih
    · have hzero : IsHexDigit 0 '0' := ⟨by decide, Or.inl rfl⟩
      have hhigh : IsHexDigit (c.toNat / 16) (Nat.digitChar (c.toNat / 16)) :=
        ⟨by omega, Or.inl rfl⟩
      have hlow : IsHexDigit (c.toNat % 16) (Nat.digitChar (c.toNat % 16)) :=
        ⟨by omega, Or.inl rfl⟩
      have hspells := Spells.unit hzero hzero hhigh hlow ih
      rw [show ((0 * 16 + 0) * 16 + c.toNat / 16) * 16 + c.toNat % 16 = c.toNat by omega] at hspells
      rw [heq, charUnits_of_lt (by omega)]
      exact hspells
    · rw [heq]
      exact .plain hquote hslash (Nat.le_of_not_lt hcontrol) ih

/-- How a member of an object is written without blanks. -/
def Member.compact (member : String × Json) : Member :=
  { name := units member.1.toList, value := member.2.compact.toList }

theorem isMember_compact {member : String × Json} (h : IsValue member.2.compact.toList) :
    IsMember IsValue (Member.compact member)
      ((stringText member.1).toList ++ ':' :: member.2.compact.toList) := by
  have hpadded := Padded.mk blanks_nil h blanks_nil
  have hname := spells_flatMap_escapeChar member.1.toList
  have hmember := IsMember.mk blanks_nil hname blanks_nil hpadded
  simpa [stringText, Member.compact] using hmember

/-- Written members are members with commas between them. -/
theorem series_compactMembers {members : List (String × Json)}
    (hvalues : ∀ member ∈ members, IsValue member.2.compact.toList) :
    Series (IsMember IsValue) (members.map Member.compact) (compactMembers members).toList := by
  cases members with
  | nil => exact .none blanks_nil
  | cons first rest =>
    refine .some ?_
    induction rest generalizing first with
    | nil =>
      have htext : (compactMembers [first]).toList =
          (stringText first.1).toList ++ ':' :: first.2.compact.toList := by
        simp [compactMembers]
      rw [htext]
      exact .one (isMember_compact (hvalues first List.mem_cons_self))
    | cons next rest ih =>
      obtain ⟨hfirst, hrest⟩ := List.forall_mem_cons.1 hvalues
      have htext : (compactMembers (first :: next :: rest)).toList =
          (stringText first.1).toList ++ ':' :: first.2.compact.toList ++
            ',' :: (compactMembers (next :: rest)).toList := by
        simp [compactMembers]
      rw [htext]
      exact .cons (isMember_compact hfirst) (ih next hrest)

/-- A written object is the text of an object. -/
theorem objectText_compact {members : List (String × Json)}
    (hvalues : ∀ member ∈ members, IsValue member.2.compact.toList) :
    ObjectText (members.map Member.compact) (Json.object members).compact.toList := by
  have htext := ObjectText.mk blanks_nil (series_compactMembers hvalues) blanks_nil
  simpa [Json.compact] using htext

end Json

end MeteredMachine
