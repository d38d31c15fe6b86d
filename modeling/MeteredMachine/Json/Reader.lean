import MeteredMachine.Decimal.Shortest
import MeteredMachine.Text.Quoted

/-!
# Reading JSON text

JSON text is read from left to right, and the first thing that is wrong ends the
reading.  A reader takes the characters that are left and gives what it read and
the characters behind it.  There are three ways to fail: the text breaks the rules
of JSON, the text ends too early, or a well-formed value is not of the kind that is
asked for.  Only the last way has a message; the position in it is found from the
characters that were left.

Main definitions:

- Definitions {lit}`readString` and {lit}`readNumber` read scalars.
- Definition {lit}`unexpected` describes the value that stands where another kind of
  value is asked for.
- Definition {lit}`readWhole` reads a text to its end.
-/

namespace MeteredMachine

namespace Json

/-- What a reader gives: a value and the characters behind it. -/
structure Read (α : Type) where
  /-- The value. -/
  value : α
  /-- The characters that are left. -/
  rest : List Char

/-- Why a reader gives up. -/
inductive Failure where
  /-- The text breaks the rules of JSON. -/
  | malformed
  /-- The text ends too early. -/
  | ended
  /-- A value is of the wrong kind; the message counts from the characters left. -/
  | mismatch (message : String) (rest : List Char)
  /-- A value is of the right kind but refused; the message stands for itself. -/
  | refused (message : String)
deriving DecidableEq, Repr

/-- The result of a reader. -/
abbrev Result (α : Type) := Except Failure (Read α)

/-! ## Blanks and fixed words -/

/-- The characters that may stand between tokens. -/
def isBlank (c : Char) : Bool :=
  c == ' ' || c == '\n' || c == '\t' || c == '\r'

/-- Drops the blanks in front. -/
def skipBlanks (rest : List Char) : List Char :=
  rest.dropWhile isBlank

/-- Reads the letters of a fixed word and gives `value` for it. -/
def readLetters {α : Type} (value : α) : List Char → List Char → Result α
  | [], rest => .ok { value, rest }
  | _ :: _, [] => .error .ended
  | letter :: letters, c :: rest =>
    if c = letter then readLetters value letters rest else .error .malformed

/-! ## Strings -/

/-- The value of a hexadecimal digit of either case. -/
def hexValue? (c : Char) : Option Nat :=
  if '0' ≤ c ∧ c ≤ '9' then some (c.toNat - '0'.toNat)
  else if 'a' ≤ c ∧ c ≤ 'f' then some (c.toNat - 'a'.toNat + 10)
  else if 'A' ≤ c ∧ c ≤ 'F' then some (c.toNat - 'A'.toNat + 10)
  else none

/-- The number of UTF-8 bytes of some characters. -/
def byteCount (chars : List Char) : Nat :=
  chars.foldl (fun count c => count + c.utf8Size) 0

/-- The 16-bit unit of four hexadecimal digits. -/
def unit? (a b c d : Char) : Option Nat := do
  return (((← hexValue? a) * 16 + (← hexValue? b)) * 16 + (← hexValue? c)) * 16 + (← hexValue? d)

/-- The characters of a short escape. -/
def shortEscape? (c : Char) : Option Char :=
  match c with
  | '"' => some '"'
  | '\\' => some '\\'
  | '/' => some '/'
  | 'b' => some (Char.ofNat 8)
  | 'f' => some (Char.ofNat 12)
  | 'n' => some '\n'
  | 'r' => some '\r'
  | 't' => some '\t'
  | _ => none

/-- The failure of a numbered escape whose digits are not there: the text has ended
if fewer than four bytes are left. -/
def brokenUnit (rest : List Char) : Failure :=
  if byteCount rest < 4 then .ended else .malformed

/-- Whether a 16-bit unit is the first half of a pair. -/
def isHighHalf (unit : Nat) : Bool :=
  0xd800 ≤ unit && unit ≤ 0xdbff

/-- Whether a 16-bit unit is the second half of a pair. -/
def isLowHalf (unit : Nat) : Bool :=
  0xdc00 ≤ unit && unit ≤ 0xdfff

/-- The character of two halves of a pair. -/
def pairChar (high low : Nat) : Char :=
  Char.ofNat ((high - 0xd800) * 0x400 + (low - 0xdc00) + 0x10000)

/-- The failure of a first half without a second half behind it. -/
def brokenPair (rest : List Char) : Failure :=
  match rest with
  | [] => .ended
  | '\\' :: [] => .ended
  | '\\' :: 'u' :: digits =>
    match digits with
    | a :: b :: c :: d :: _ => if (unit? a b c d).isSome then .malformed else brokenUnit digits
    | _ => brokenUnit digits
  | _ => .malformed

/-- Puts a character in front of what a reader gives. -/
def prepend (c : Char) : Result (List Char) → Result (List Char)
  | .ok read => .ok { read with value := c :: read.value }
  | .error failure => .error failure

/-- Reads the characters of a string up to and with its closing quote. -/
def readString : List Char → Result (List Char)
  | [] => .error .ended
  | '"' :: rest => .ok { value := [], rest }
  | '\\' :: [] => .error .ended
  | '\\' :: 'u' :: a :: b :: c :: d :: rest =>
    match unit? a b c d with
    | none => .error (brokenUnit (a :: b :: c :: d :: rest))
    | some unit =>
      if isLowHalf unit then .error .malformed
      else if isHighHalf unit then
        match rest with
        | '\\' :: 'u' :: e :: f :: g :: h :: rest' =>
          match unit? e f g h with
          | none => .error (brokenPair rest)
          | some low =>
            if isLowHalf low then prepend (pairChar unit low) (readString rest')
            else .error .malformed
        | _ => .error (brokenPair rest)
      else prepend (Char.ofNat unit) (readString rest)
  | '\\' :: 'u' :: rest => .error (brokenUnit rest)
  | '\\' :: c :: rest =>
    match shortEscape? c with
    | some escaped => prepend escaped (readString rest)
    | none => .error .malformed
  | c :: rest => if c.toNat < 0x20 then .error .malformed else prepend c (readString rest)

/-! ## Numbers -/

/-- A number as far as its kind matters. -/
inductive Number where
  /-- A natural number below `2 ^ 64`. -/
  | natural (n : Nat)
  /-- The negative of a positive number up to `2 ^ 63`. -/
  | negative (n : Nat)
  /-- Any other number, as a binary number with a sign. -/
  | float (minus : Bool) (value : Binary64)
deriving DecidableEq, Repr

/-- The digits that fit and what is behind them. -/
structure Digits where
  /-- The digits so far as one number below `2 ^ 64`. -/
  significand : Nat
  /-- How many digits were taken. -/
  taken : Nat
  /-- The characters that are left. -/
  rest : List Char

/-- The value of a decimal digit. -/
def digitValue? (c : Char) : Option Nat :=
  if '0' ≤ c ∧ c ≤ '9' then some (c.toNat - '0'.toNat) else none

/-- Takes digits as long as the number they make stays at most `limit`. -/
def takeDigits (limit significand taken : Nat) : List Char → Digits
  | [] => { significand, taken, rest := [] }
  | c :: rest =>
    match digitValue? c with
    | none => { significand, taken, rest := c :: rest }
    | some digit =>
      if significand * 10 + digit > limit then { significand, taken, rest := c :: rest }
      else takeDigits limit (significand * 10 + digit) (taken + 1) rest

/-- Whether a digit comes next. -/
def startsWithDigit : List Char → Bool
  | [] => false
  | c :: _ => (digitValue? c).isSome

/-- Drops the digits in front. -/
def skipDigits (rest : List Char) : List Char :=
  rest.dropWhile fun c => (digitValue? c).isSome

/-- The largest significand that is kept exactly. -/
def maxSignificand : Nat :=
  UInt64.size - 1

/-- The largest exponent that is counted. -/
def maxExponent : Nat :=
  0x7fffffff

/-- The binary number of a significand and an exponent; one that is too large is
against the rules. -/
def float (negative : Bool) (significand : Nat) (exponent : Int) (rest : List Char) :
    Result Number :=
  match Binary64.ofScientific? significand exponent with
  | some x => .ok { value := .float negative x, rest }
  | none => .error .malformed

/-- Reads an exponent, from behind its letter on. -/
def readExponent (negative : Bool) (significand : Nat) (start : Int) (rest : List Char) :
    Result Number :=
  let (minus, digits) :=
    match rest with
    | '+' :: r => (false, r)
    | '-' :: r => (true, r)
    | r => (false, r)
  match digits with
  | [] => .error .ended
  | c :: _ =>
    match digitValue? c with
    | none => .error .malformed
    | some _ =>
      let read := takeDigits maxExponent 0 0 digits
      if startsWithDigit read.rest then
        if significand ≠ 0 ∧ !minus then .error .malformed
        else .ok { value := .float negative .zero, rest := skipDigits read.rest }
      else
        let exponent : Int := if minus then -read.significand else read.significand
        float negative significand (start + exponent) read.rest

/-- Reads an exponent if there is one, and makes the number. -/
def readScale (negative : Bool) (significand : Nat) (exponent : Int) (rest : List Char) :
    Result Number :=
  match rest with
  | 'e' :: r => readExponent negative significand exponent r
  | 'E' :: r => readExponent negative significand exponent r
  | _ => float negative significand exponent rest

/-- Reads the digits behind a decimal point.  Digits that do not fit are dropped. -/
def readFraction (negative : Bool) (significand : Nat) (exponent : Int) (rest : List Char) :
    Result Number :=
  let read := takeDigits maxSignificand significand 0 rest
  if startsWithDigit read.rest then
    readScale negative read.significand (exponent - read.taken) (skipDigits read.rest)
  else if read.taken = 0 then
    match read.rest with
    | [] => .error .ended
    | _ => .error .malformed
  else readScale negative read.significand (exponent - read.taken) read.rest

/-- The number of a significand without a fraction or an exponent.  Minus zero and
what does not fit a signed 64-bit number are binary numbers. -/
def wholeNumber (negative : Bool) (significand : Nat) (rest : List Char) : Result Number :=
  if !negative then .ok { value := .natural significand, rest }
  else if significand = 0 ∨ significand > 0x8000000000000000 then float true significand 0 rest
  else .ok { value := .negative significand, rest }

/-- Reads what follows the digits in front of the decimal point. -/
def readAfterWhole (negative : Bool) (significand : Nat) (rest : List Char) : Result Number :=
  match rest with
  | '.' :: r => readFraction negative significand 0 r
  | 'e' :: r => readExponent negative significand 0 r
  | 'E' :: r => readExponent negative significand 0 r
  | _ => wholeNumber negative significand rest

/-- Reads what follows when the digits in front of the decimal point do not all fit:
those that do not fit count as a power of ten. -/
def readAfterLong (negative : Bool) (significand : Nat) (rest : List Char) : Result Number :=
  let behind := skipDigits rest
  let exponent : Int := (rest.length - behind.length : Nat)
  match behind with
  | '.' :: r => readFraction negative significand exponent r
  | _ => readScale negative significand exponent behind

/-- Reads a number, from behind its sign on. -/
def readNumber (negative : Bool) (rest : List Char) : Result Number :=
  match rest with
  | [] => .error .ended
  | '0' :: r => if startsWithDigit r then .error .malformed else readAfterWhole negative 0 r
  | c :: _ =>
    match digitValue? c with
    | none => .error .malformed
    | some _ =>
      let read := takeDigits maxSignificand 0 0 rest
      if startsWithDigit read.rest then readAfterLong negative read.significand read.rest
      else readAfterWhole negative read.significand read.rest

/-! ## Values of the wrong kind -/

/-- The description of a number. -/
def Number.describe : Number → String
  | natural n => "integer `" ++ toString n ++ "`"
  | negative n => "integer `-" ++ toString n ++ "`"
  | float minus x => "floating point `" ++ x.text minus ++ "`"

/-- The failure of a value that is not what is expected. -/
def wrongKind (found expected : String) (rest : List Char) : Failure :=
  .mismatch ("invalid type: " ++ found ++ ", expected " ++ expected) rest

/-- The failure for a scalar that was read instead of what is expected. -/
def wrongScalar {α : Type} (describe : α → String) (expected : String) : Result α → Failure
  | .ok read => wrongKind (describe read.value) expected read.rest
  | .error failure => failure

/-- The failure for whatever value stands where another one is expected.  A scalar is
read to its end; lists and objects are not entered. -/
def unexpected (expected : String) (rest : List Char) : Failure :=
  match rest with
  | [] => .malformed
  | 'n' :: r => wrongScalar id expected (readLetters "null" ['u', 'l', 'l'] r)
  | 't' :: r => wrongScalar id expected (readLetters "boolean `true`" ['r', 'u', 'e'] r)
  | 'f' :: r => wrongScalar id expected (readLetters "boolean `false`" ['a', 'l', 's', 'e'] r)
  | '-' :: r => wrongScalar Number.describe expected (readNumber true r)
  | '"' :: r =>
    wrongScalar (fun chars => "string " ++ Text.quoteString (String.ofList chars)) expected
      (readString r)
  | '[' :: _ => wrongKind "sequence" expected rest
  | c :: _ =>
    if c = Char.ofNat 0x7b then wrongKind "map" expected rest
    else if (digitValue? c).isSome then wrongScalar Number.describe expected (readNumber false rest)
    else .malformed

/-! ## Values of a given kind -/

/-- Reads a truth value, with blanks in front. -/
def readBool (rest : List Char) : Result Bool :=
  match skipBlanks rest with
  | [] => .error .ended
  | 't' :: r => readLetters true ['r', 'u', 'e'] r
  | 'f' :: r => readLetters false ['a', 'l', 's', 'e'] r
  | r => .error (unexpected "a boolean" r)

/-- Reads a string, with blanks in front. -/
def readText (rest : List Char) : Result String :=
  match skipBlanks rest with
  | [] => .error .ended
  | '"' :: r =>
    match readString r with
    | .ok read => .ok { value := String.ofList read.value, rest := read.rest }
    | .error failure => .error failure
  | r => .error (unexpected "a string" r)

/-! ## Whole texts -/

/-- Why a text could not be read. -/
inductive Error where
  /-- The text breaks the rules of JSON. -/
  | malformed
  /-- The text ends too early. -/
  | ended
  /-- The text is JSON but does not hold what is asked for. -/
  | mismatch (message : String)
deriving DecidableEq, Repr

/-- The line of the last of some characters, counted from one. -/
def lineOf (consumed : List Char) : Nat :=
  1 + consumed.count '\n'

/-- The number of bytes behind the last line end. -/
def columnOf (consumed : List Char) : Nat :=
  byteCount (consumed.reverse.takeWhile (· ≠ '\n'))

/-- The error of a failure inside a text. -/
def Failure.toError (text : List Char) : Failure → Error
  | malformed => .malformed
  | ended => .ended
  | mismatch message rest =>
    let consumed := text.take (text.length - rest.length)
    .mismatch (message ++ " at line " ++ toString (lineOf consumed) ++ " column " ++
      toString (columnOf consumed))
  | refused message => .mismatch message

/-- Reads a text to its end; only blanks may follow the value. -/
def readWhole {α : Type} (reader : List Char → Result α) (text : String) : Except Error α :=
  let chars := text.toList
  match reader chars with
  | .error failure => .error (failure.toError chars)
  | .ok read =>
    match skipBlanks read.rest with
    | [] => .ok read.value
    | _ => .error .malformed

end Json

end MeteredMachine
