import MeteredMachine.SortedMap
import MeteredMachine.Text.Hex

/-!
# JSON values

JSON values with whole numbers, and their compact text.  The members of an object
are kept in the order in which they are written.  Strings escape the quote, the
backslash and control characters, and nothing else.

Main definitions:

- Type {lit}`Json` and definition {lit}`Json.compact`.
- Definition {lit}`Json.sortedObject` is the object whose members are in the order of
  their names.
-/

namespace MeteredMachine

/-- A JSON value. -/
inductive Json where
  /-- The null value. -/
  | null
  /-- A truth value. -/
  | bool (value : Bool)
  /-- A whole number. -/
  | number (value : Int)
  /-- A string. -/
  | string (value : String)
  /-- A list of values. -/
  | array (items : List Json)
  /-- Named values, in the order in which they are written. -/
  | object (members : List (String × Json))

namespace Json

/-- The number of a natural number. -/
def nat (n : Nat) : Json :=
  .number (n : Int)

/-- The object with the given members in the order of their names. -/
def sortedObject (members : List (String × Json)) : Json :=
  .object (SortedMap.ofList members).entries

/-! ## Compact text -/

/-- A character as it stands inside a string. -/
def escapeChar (c : Char) : List Char :=
  if c = '"' then ['\\', '"']
  else if c = '\\' then ['\\', '\\']
  else if c = '\n' then ['\\', 'n']
  else if c = '\t' then ['\\', 't']
  else if c = '\r' then ['\\', 'r']
  else if c = Char.ofNat 8 then ['\\', 'b']
  else if c = Char.ofNat 12 then ['\\', 'f']
  else if c.toNat < 0x20 then
    ['\\', 'u', '0', '0'] ++ Hex.byteDigits (UInt8.ofNat c.toNat)
  else [c]

/-- The text of a string, with its quotes. -/
def stringText (s : String) : String :=
  String.ofList (['"'] ++ s.toList.flatMap escapeChar ++ ['"'])

mutual

/-- The text of a value without any blanks. -/
def compact : Json → String
  | .null => "null"
  | .bool true => "true"
  | .bool false => "false"
  | .number value => toString value
  | .string value => stringText value
  | .array items => "[" ++ compactItems items ++ "]"
  | .object members => "\x7b" ++ compactMembers members ++ "\x7d"

/-- The texts of values with commas between them. -/
def compactItems : List Json → String
  | [] => ""
  | [item] => compact item
  | item :: next :: rest => compact item ++ "," ++ compactItems (next :: rest)

/-- The texts of members with commas between them. -/
def compactMembers : List (String × Json) → String
  | [] => ""
  | [(name, value)] => stringText name ++ ":" ++ compact value
  | (name, value) :: next :: rest =>
    stringText name ++ ":" ++ compact value ++ "," ++ compactMembers (next :: rest)

end

end Json

end MeteredMachine
