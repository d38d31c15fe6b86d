import MeteredMachine.Address
import MeteredMachine.Json.Reader
import MeteredMachine.Json.Value
import MeteredMachine.Word.Text

/-!
# Words and addresses in JSON

A word or an address is a JSON string that holds its hexadecimal text with the mark
{lit}`0x`.  Reading accepts every text that the type itself reads; a text that it
refuses is an error of the type, without a position.
-/

namespace MeteredMachine

/-- Reads a JSON string and what it stands for. -/
def Json.readVia {α : Type} (parse : String → Except ReadError α) (rest : List Char) :
    Json.Result α :=
  match Json.readText rest with
  | .error failure => .error failure
  | .ok read =>
    match parse read.value with
    | .ok value => .ok { value, rest := read.rest }
    | .error error => .error (.refused error.message)

namespace Word

/-- The JSON value of a word. -/
def toJson (w : Word) : Json :=
  .string w.markedHex

/-- Reads a word from JSON text. -/
def ofJson (text : String) : Except Json.Error Word :=
  Json.readWhole (Json.readVia ofHex) text

end Word

namespace Address

/-- The JSON value of an address. -/
def toJson (a : Address) : Json :=
  .string a.hex

/-- Reads an address from JSON text. -/
def ofJson (text : String) : Except Json.Error Address :=
  Json.readWhole (Json.readVia ofHex) text

end Address

end MeteredMachine
