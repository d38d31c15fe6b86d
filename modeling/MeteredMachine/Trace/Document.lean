import MeteredMachine.Json.Scalar
import MeteredMachine.Trace.Listing

/-!
# JSON views of a trace

A trace has two JSON views.  The document shows instructions and storage values as
the options ask, with the members of every object in the order of their names.  The
record keeps every field as it is, with the members in the order of the fields.  In
both, a part that an entry does not have is no member, and an entry without calls
has no member for them.

Main definitions:

- Definition {lit}`Trace.CallForest.document` is the view under the options.
- Definition {lit}`Trace.CallForest.record` is the plain view.
-/

namespace MeteredMachine

namespace Trace

/-- The JSON value of words. -/
def wordsJson (words : List Word) : Json :=
  .array (words.map Word.toJson)

/-- The JSON value of bytes: their hexadecimal text behind the mark. -/
def bytesJson (bytes : List UInt8) : Json :=
  .string ("0x" ++ Hex.encode bytes)

/-- The members of an optional part: one, or none if the part is missing. -/
def partMember {α : Type} (name : String) (write : α → Json) : Option α → List (String × Json)
  | some part => [(name, write part)]
  | none => []

/-- The member of a list of items, which is left out if there are none. -/
def itemsMember (name : String) (items : List Json) : List (String × Json) :=
  if items.isEmpty then [] else [(name, .array items)]

/-! ## The document -/

/-- The members of a gas split. -/
def GasSplit.members (split : GasSplit) : List (String × Json) :=
  [("base", .nat split.base.toNat),
    ("dynamic", .nat split.dynamic.toNat),
    ("remainingBefore", .nat split.remainingBefore.toNat),
    ("remainingAfter", .nat split.remainingAfter.toNat),
    ("spent", .nat split.spent.toNat),
    ("refunded", .number split.refunded.toInt)]

/-- The members of the items of a step. -/
def StackSlots.members (slots : StackSlots) : List (String × Json) :=
  [("in", wordsJson slots.inputs), ("out", wordsJson slots.outputs)]

/-- The members of slots, where `write` gives the text of a value. -/
def slotMembers (write : Word → String) (slots : Slots) : List (String × Json) :=
  slots.entries.map fun (key, value) => (key.markedHex, .string (write value))

/-- The object of an entry under the options; `calls` are the values of its calls. -/
def Entry.document (o : Options) (e : Entry) (calls : List Json) : Json :=
  .sortedObject <|
    [("pc", .nat e.pc),
      ("op", .string (e.label o)),
      ("depth", .nat e.depth),
      ("address", e.address.toJson),
      ("gas", .nat e.gas.toNat),
      ("gasCost", .nat e.gasCost.toNat)] ++
    partMember "gasDetail" (fun split => .sortedObject split.members) e.gasSplit? ++
    partMember "stackInOut" (fun slots => .sortedObject slots.members) e.slots? ++
    partMember "stack" wordsJson e.stack? ++
    partMember "memory" bytesJson e.memory? ++
    partMember "storage" (fun slots => .sortedObject (slotMembers (storageValueText o) slots))
      e.storage? ++
    partMember "error" .string e.error? ++
    itemsMember "calls" calls

/-- The values of the entries of a forest under the options. -/
def CallForest.documentItems (o : Options) : CallForest → List Json
  | .nil => []
  | .node entry calls rest =>
    entry.document o (calls.documentItems o) :: rest.documentItems o

/-- The JSON view of a forest under the options. -/
def CallForest.document (o : Options) (f : CallForest) : Json :=
  .array (f.documentItems o)

/-! ## The record -/

/-- The fields of a gas split. -/
def GasSplit.fields (split : GasSplit) : List (String × Json) :=
  [("base", .nat split.base.toNat),
    ("dynamic", .nat split.dynamic.toNat),
    ("remainingBefore", .nat split.remainingBefore.toNat),
    ("remainingAfter", .nat split.remainingAfter.toNat),
    ("spent", .nat split.spent.toNat),
    ("refunded", .number split.refunded.toInt)]

/-- The fields of the items of a step. -/
def StackSlots.fields (slots : StackSlots) : List (String × Json) :=
  [("in", wordsJson slots.inputs), ("out", wordsJson slots.outputs)]

/-- Slots by their keys, with each value as the JSON value of a word. -/
def slotFields (slots : Slots) : List (String × Json) :=
  slots.entries.map fun (key, value) => (key.markedHex, value.toJson)

/-- The object of an entry with all its fields; `calls` are the values of its calls. -/
def Entry.record (e : Entry) (calls : List Json) : Json :=
  .object <|
    [("pc", .nat e.pc),
      ("opcode", .nat e.opcode.toNat),
      ("depth", .nat e.depth),
      ("address", e.address.toJson),
      ("gas", .nat e.gas.toNat),
      ("gasCost", .nat e.gasCost.toNat)] ++
    partMember "gasDetail" (fun split => .object split.fields) e.gasSplit? ++
    partMember "stack" wordsJson e.stack? ++
    partMember "stackInOut" (fun slots => .object slots.fields) e.slots? ++
    partMember "memory" bytesJson e.memory? ++
    partMember "storage" (fun slots => .object (slotFields slots)) e.storage? ++
    partMember "error" .string e.error? ++
    itemsMember "calls" calls

/-- The values of the entries of a forest with all their fields. -/
def CallForest.recordItems : CallForest → List Json
  | .nil => []
  | .node entry calls rest => entry.record calls.recordItems :: rest.recordItems

/-- The plain JSON view of a forest. -/
def CallForest.record (f : CallForest) : Json :=
  .array f.recordItems

end Trace

end MeteredMachine
