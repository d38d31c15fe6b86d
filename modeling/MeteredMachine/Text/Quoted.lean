import MeteredMachine.Text.Hex
import MeteredMachine.Text.Unprintable

/-!
# Quoted text

Error messages show a character or a string between quotes, so that every
character of it can be told apart.  The quote itself and the backslash stand
behind a backslash, common controls have short names, and unprintable characters
are spelled as code points.

Main definitions:

- Definition {lit}`quoteChar` writes one character between single quotes.
- Definition {lit}`quoteString` writes a string between double quotes.
-/

namespace MeteredMachine

namespace Text

/-- A character as it stands between two `quote` marks. -/
def escapeChar (quote c : Char) : List Char :=
  if c = Char.ofNat 0 then ['\\', '0']
  else if c = '\t' then ['\\', 't']
  else if c = '\n' then ['\\', 'n']
  else if c = '\r' then ['\\', 'r']
  else if c = '\\' ∨ c = quote then ['\\', c]
  else if isUnprintable c then
    ['\\', 'u', Char.ofNat 0x7b] ++ Nat.toDigits 16 c.toNat ++ [Char.ofNat 0x7d]
  else [c]

/-- One character between single quotes. -/
def quoteChar (c : Char) : String :=
  String.ofList (['\''] ++ escapeChar '\'' c ++ ['\''])

/-- A string between double quotes. -/
def quoteString (s : String) : String :=
  String.ofList (['"'] ++ s.toList.flatMap (escapeChar '"') ++ ['"'])

/-- A byte shown as the character with that code point, between single quotes. -/
def quoteByte (byte : UInt8) : String :=
  quoteChar (Char.ofNat byte.toNat)

end Text

end MeteredMachine
