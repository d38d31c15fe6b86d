import MeteredMachine.Text.Quoted

/-!
# Errors of reading words and addresses

Each cause that makes a text or a byte list unreadable is a case of
{lit}`ReadError`; the wording lives in {lit}`ReadError.message` alone.

Main definitions:

- Definition {lit}`ReadError.message` is the text of an error.
- Definition {lit}`ReadError.isLength` separates wrong byte counts from bad digits.
-/

namespace MeteredMachine

/-- Why a word or an address could not be read. -/
inductive ReadError where
  /-- The digits of a word take more than 64 bytes. -/
  | wordTooLong (digits : String)
  /-- A byte among the digits of a word is no hexadecimal digit. -/
  | wordDigit (digits : String) (byte : UInt8) (index : Nat)
  /-- The digits of an address do not pair up. -/
  | addressOddDigits
  /-- A byte among the digits of an address is no hexadecimal digit. -/
  | addressDigit (byte : UInt8) (index : Nat)
  /-- There are more or fewer bytes than the type takes. -/
  | wrongLength (expected got : Nat)
deriving DecidableEq, Repr

namespace ReadError

/-- The detail that follows the digits of a word in an error text. -/
private def wordDetail (kind inner : String) : String :=
  "FromStrRadixErr \x7b kind: " ++ kind ++ ", source: Some(Hex(FromHexError \x7b inner: " ++
    inner ++ " \x7d)) \x7d"

/-- The text of an error. -/
def message : ReadError → String
  | wordTooLong digits =>
    "invalid hex string: " ++ digits ++ ": " ++ wordDetail "InvalidLength" "InvalidStringLength"
  | wordDigit digits byte index =>
    "invalid hex string: " ++ digits ++ ": " ++ wordDetail "InvalidCharacter"
      ("InvalidHexCharacter \x7b c: " ++ Text.quoteByte byte ++ ", index: " ++ toString index ++
        " \x7d")
  | addressOddDigits => "invalid hex string: Odd number of digits"
  | addressDigit byte index =>
    "invalid hex string: Invalid character " ++ Text.quoteByte byte ++ " at position " ++
      toString index
  | wrongLength expected got =>
    "invalid length: expected " ++ toString expected ++ " bytes, got " ++ toString got

/-- Whether the error is about a byte count rather than about hexadecimal digits. -/
def isLength : ReadError → Bool
  | wrongLength .. => true
  | _ => false

end ReadError

end MeteredMachine
