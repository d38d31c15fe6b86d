import MeteredMachine.Text.Align
import MeteredMachine.Word.Bytes

/-!
# Texts of a word

A word is written in hexadecimal, with or without the mark {lit}`0x`, or in
decimal.  A decimal text may be aligned in a column or carry a plus sign; zero is
always the single digit, whatever the column.  Reading takes hexadecimal digits of
either case.

Main definitions:

- Definitions {lit}`hex`, {lit}`markedHex`, {lit}`decimal`, {lit}`debug` and the aligned
  forms write a word.
- Definition {lit}`ofHex` reads a word.
-/

namespace MeteredMachine

namespace Word

/-! ## Writing -/

/-- Lower-case hexadecimal digits without leading zeros. -/
def hex (w : Word) : String :=
  Hex.numeral w.toNat

/-- Hexadecimal digits behind the mark `0x`. -/
def markedHex (w : Word) : String :=
  "0x" ++ w.hex

/-- Decimal digits without leading zeros. -/
def decimal (w : Word) : String :=
  toString w.toNat

/-- The text that names the type and the value. -/
def debug (w : Word) : String :=
  "Word(" ++ w.markedHex ++ ")"

/-- Decimal digits in a column; zero ignores the column. -/
def alignedDecimal (alignment : Text.Alignment) (fill : Char) (width : Nat) (w : Word) :
    String :=
  if w.isZero then "0" else Text.align alignment fill width w.decimal

/-- Decimal digits behind a plus sign; zero has no sign. -/
def signedDecimal (w : Word) : String :=
  if w.isZero then "0" else "+" ++ w.decimal

/-! ## Reading -/

/-- The largest number of digits that a word text may have. -/
def maxDigits : Nat :=
  64

/-- Pairs up an odd number of digits by one zero in front. -/
def evenDigits (digits : List UInt8) : List UInt8 :=
  if digits.length % 2 = 1 then 0x30 :: digits else digits

/-- Reads the digits that follow the first mark.  A second mark is dropped too; the
error shows the digits as they stand before that. -/
def ofDigits (digits : String) : Except ReadError Word :=
  let bytes := Text.utf8 (Hex.stripMark digits)
  if bytes.length > maxDigits then .error (.wordTooLong digits)
  else
    match Hex.decode (evenDigits bytes) with
    | .ok value => .ok (ofBytes value)
    | .error (.badByte byte index) => .error (.wordDigit digits byte index)
    | .error .oddLength => .error (.wordTooLong digits)

/-- Reads a hexadecimal text, with or without the mark `0x`. -/
def ofHex (s : String) : Except ReadError Word :=
  ofDigits (Hex.stripMark s)

end Word

end MeteredMachine
