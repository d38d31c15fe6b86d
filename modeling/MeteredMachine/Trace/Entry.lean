import MeteredMachine.Trace.Snapshot

/-!
# Trace entries

An entry records one step of a machine.  It is built from the snapshots before and
after the step: the instruction and the gas come from the one before, the optional
parts from the one after.

Main definitions:

- Structure {lit}`Trace.Entry` and definition {lit}`Trace.Entry.ofSnapshots`.
- Structure {lit}`Trace.StackSlots` holds the items that a step takes and gives.
-/

namespace MeteredMachine

namespace Trace

/-- The parts of the gas that a step used, and the meter around it. -/
structure GasSplit where
  /-- The fixed part of the cost. -/
  base : UInt64
  /-- The part that depends on operands or memory. -/
  dynamic : UInt64
  /-- The gas available before the step. -/
  remainingBefore : UInt64
  /-- The gas available after the step. -/
  remainingAfter : UInt64
  /-- The gas used in total after the step. -/
  spent : UInt64
  /-- The refund counter after the step. -/
  refunded : Int64
deriving DecidableEq

/-- The stack items that a step takes and gives, each from the top down. -/
structure StackSlots where
  /-- The items that the step takes. -/
  inputs : List Word
  /-- The items that the step gives. -/
  outputs : List Word
deriving DecidableEq

/-- The items between two stacks from bottom to top, cut out by the catalog. -/
def StackSlots.between (op : Opcode) (before after : List Word) : StackSlots :=
  { inputs := before.reverse.take op.entry.inputs
    outputs := after.reverse.take op.entry.outputs }

/-- One step of a machine. -/
structure Entry where
  /-- The position of the instruction. -/
  pc : Nat
  /-- The byte of the instruction. -/
  opcode : UInt8
  /-- The call depth at which it ran. -/
  depth : Nat
  /-- The address of the frame. -/
  address : Address
  /-- The gas available before the step. -/
  gas : UInt64
  /-- The gas that the step used. -/
  gasCost : UInt64
  /-- The parts of the cost, if kept. -/
  gasSplit? : Option GasSplit := none
  /-- The stack after the step from bottom to top, if kept. -/
  stack? : Option (List Word) := none
  /-- The items that the step takes and gives, if kept. -/
  slots? : Option StackSlots := none
  /-- The memory after the step, if kept. -/
  memory? : Option (List UInt8) := none
  /-- The storage after the step, if kept. -/
  storage? : Option Slots := none
  /-- The text of the fault that the step ended with. -/
  error? : Option String := none
deriving DecidableEq

namespace Entry

/-! ## Parts of an entry -/

/-- The gas used between two readings of a meter; a reading that went up counts as
zero. -/
def gasBetween (before after : UInt64) : UInt64 :=
  if after ≤ before then before - after else 0

/-- The fixed part of the price of an instruction; an undefined byte has none. -/
def fixedCost : Option Opcode → UInt64
  | some op => op.entry.cost.fixedPart
  | none => 0

/-- Splits the gas between two snapshots; the fixed part is at most what was used. -/
def splitGas (op? : Option Opcode) (before after : Snapshot) : GasSplit :=
  let used := gasBetween before.remaining after.remaining
  let base := min (fixedCost op?) used
  { base
    dynamic := used - base
    remainingBefore := before.remaining
    remainingAfter := after.remaining
    spent := after.spent
    refunded := after.refunded }

/-- The text of the fault that a machine has ended with. -/
def errorText : Status → Option String
  | .exited (.fault fault) => some fault.message
  | _ => none

/-- The stack to show: not beside the items of a step, not when hidden, and not when
unchanged stacks are left out. -/
def shownStack (o : Options) (before after : Snapshot) : Option (List Word) :=
  if o.stackInOut || o.hideStack || (o.hideUnchanged && before.stack? == after.stack?) then none
  else after.stack?

/-- The items of a step: for a defined instruction that changes the stack. -/
def shownSlots (o : Options) (op? : Option Opcode) (before after : Snapshot) :
    Option StackSlots :=
  if !o.stackInOut || before.stack? == after.stack? then none
  else
    match op?, before.stack?, after.stack? with
    | some op, some b, some a => some (.between op b a)
    | _, _, _ => none

/-- A part to show after a step, unless unchanged parts are left out. -/
def shownPart {α : Type} [DecidableEq α] (o : Options) (before after : Option α) : Option α :=
  if o.hideUnchanged && before == after then none else after

/-- The entry of a step at a call depth. -/
def ofSnapshots (o : Options) (depth : Nat) (opcode : UInt8) (before after : Snapshot) : Entry :=
  let op? := Opcode.ofByte? opcode
  { pc := before.pc
    opcode
    depth
    address := before.address
    gas := before.remaining
    gasCost := gasBetween before.remaining after.remaining
    gasSplit? := if o.gasCalculation then some (splitGas op? before after) else none
    stack? := shownStack o before after
    slots? := shownSlots o op? before after
    memory? := shownPart o before.memory? after.memory?
    storage? := shownPart o before.storage? after.storage?
    error? := errorText after.status }

/-- The mnemonic of the instruction, or its byte if the byte is undefined. -/
def name (e : Entry) : String :=
  match Opcode.ofByte? e.opcode with
  | some op => op.name
  | none => Hex.byteText e.opcode

/-- How the instruction is shown under the options. -/
def label (o : Options) (e : Entry) : String :=
  if o.opcodeAsHex then Hex.byteText e.opcode else e.name

end Entry

end Trace

end MeteredMachine
