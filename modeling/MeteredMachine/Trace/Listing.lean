import MeteredMachine.Trace.CallForest
import MeteredMachine.Word.Text

/-!
# Text listing of a trace

Every entry is one line: indentation by depth, position, instruction, gas and cost,
and then the optional parts that the entry has.  The entries of calls follow their
caller.

Main definitions:

- Definition {lit}`Trace.Entry.line` is the line of an entry.
- Definition {lit}`Trace.CallForest.listing` is the text of a forest.
-/

namespace MeteredMachine

namespace Trace

/-- A storage value as the options show it. -/
def storageValueText (o : Options) (value : Word) : String :=
  if o.storageValueAsHex then value.markedHex else value.decimal

/-- Words in hexadecimal between brackets. -/
def wordsText (words : List Word) : String :=
  "[" ++ ",".intercalate (words.map Word.markedHex) ++ "]"

/-- Slots between braces. -/
def slotsText (o : Options) (slots : Slots) : String :=
  "\x7b" ++ ", ".intercalate (slots.entries.map fun (key, value) =>
    key.markedHex ++ ": " ++ storageValueText o value) ++ "\x7d"

/-- The text of an optional part, which is empty if the part is missing. -/
def partText {α : Type} (write : α → String) : Option α → String
  | some part => write part
  | none => ""

namespace Entry

/-- The width of the column of positions. -/
def positionWidth : Nat :=
  5

/-- The width of the column of instructions. -/
def labelWidth : Nat :=
  8

/-- The part of a line that every entry has. -/
def lineHead (o : Options) (e : Entry) : String :=
  String.ofList (List.replicate (2 * e.depth) ' ') ++
    Text.align .right ' ' positionWidth (toString e.pc) ++ " " ++
    Text.align .left ' ' labelWidth (e.label o) ++
    " gas=" ++ toString e.gas.toNat ++ " cost=" ++ toString e.gasCost.toNat

/-- The part of a line that depends on what was kept. -/
def lineTail (o : Options) (e : Entry) : String :=
  partText (fun split =>
    " (base=" ++ toString split.base.toNat ++ " dynamic=" ++ toString split.dynamic.toNat ++ ")")
    e.gasSplit? ++
  partText (fun slots => " in=" ++ wordsText slots.inputs ++ " out=" ++ wordsText slots.outputs)
    e.slots? ++
  partText (fun stack => " stack=" ++ wordsText stack) e.stack? ++
  partText (fun memory => " memory=0x" ++ Hex.encode memory) e.memory? ++
  partText (fun storage => " storage=" ++ slotsText o storage) e.storage? ++
  partText (fun error => " error=\"" ++ error ++ "\"") e.error?

/-- The line of an entry, with its line end. -/
def line (o : Options) (e : Entry) : String :=
  e.lineHead o ++ e.lineTail o ++ "\n"

end Entry

/-- The lines of all entries, each in front of those below it. -/
def CallForest.listing (o : Options) : CallForest → String
  | .nil => ""
  | .node entry calls rest => entry.line o ++ calls.listing o ++ rest.listing o

end Trace

end MeteredMachine
