import MeteredMachine.Text.Hex

/-!
# Exits

A machine runs until it exits, either with success or with a fault.  This module
holds the ways to exit, their texts, the status of a machine, and the calls that answer
with the reason of an exit.

Main definitions:

- Types {lit}`Fault`, {lit}`Success`, {lit}`ExitReason` and {lit}`Status`.
- Definitions {lit}`Fault.message` and {lit}`ExitReason.message` are their texts.
- Structure {lit}`Called` holds the answer of a call that may end a machine, and definition
  {lit}`untilExit` repeats such a call until it gives a reason.
-/

namespace MeteredMachine

/-- An error that ends a machine. -/
inductive Fault where
  /-- The byte at the program counter is no instruction. -/
  | invalidOpcode (byte : UInt8)
  /-- An instruction needs more operands than the stack holds. -/
  | stackUnderflow
  /-- A push would exceed the stack limit. -/
  | stackOverflow
  /-- A step costs more gas than remains. -/
  | outOfGas
  /-- A jump goes to a position that is no jump destination. -/
  | invalidJump (destination : Nat)
  /-- A frame is nested deeper than its limit. -/
  | callTooDeep
  /-- The host refuses to go on. -/
  | custom (text : String)
deriving DecidableEq, Repr

/-- A successful way to end. -/
inductive Success where
  /-- A stop instruction, or the end of the code. -/
  | stopped
  /-- A return instruction; its bytes are the return data. -/
  | returned
deriving DecidableEq, Repr

/-- Why a machine ended. -/
inductive ExitReason where
  /-- A normal end. -/
  | success (success : Success)
  /-- An end by an error. -/
  | fault (fault : Fault)
deriving DecidableEq, Repr

/-- The life cycle of a machine; an exit is final. -/
inductive Status where
  /-- More steps may follow. -/
  | running
  /-- The machine has ended. -/
  | exited (reason : ExitReason)
deriving DecidableEq, Repr

instance : Inhabited Status := ⟨.running⟩

/-- The text of a fault. -/
def Fault.message : Fault → String
  | invalidOpcode byte => "invalid opcode: " ++ Hex.byteText byte
  | stackUnderflow => "stack underflow"
  | stackOverflow => "stack overflow (max 1024)"
  | outOfGas => "out of gas"
  | invalidJump destination => "invalid jump destination: " ++ toString destination
  | callTooDeep => "call depth exceeded (max 1024)"
  | custom text => text

namespace ExitReason

/-- Whether the machine ended normally. -/
def isSuccess : ExitReason → Bool
  | success _ => true
  | fault _ => false

/-- The fault of a failed exit. -/
def fault? : ExitReason → Option Fault
  | success _ => none
  | fault f => some f

/-- The text of an exit reason. -/
def message : ExitReason → String
  | success .stopped => "stopped"
  | success .returned => "returned"
  | fault f => "error: " ++ f.message

end ExitReason

namespace Status

/-- Whether more steps may follow. -/
def isRunning : Status → Bool
  | running => true
  | exited _ => false

/-- Whether the machine has ended normally. -/
def isSuccess : Status → Bool
  | running => false
  | exited reason => reason.isSuccess

/-- The reason of an exit, if there was one. -/
def exitReason? : Status → Option ExitReason
  | running => none
  | exited reason => some reason

end Status

/-! ## Calls that may end a machine -/

/-- What is there after a call, and the answer of the call: nothing as long as the
machine runs, and the reason once it has ended. -/
structure Called (α : Type) where
  /-- What is there after the call. -/
  after : α
  /-- The answer of the call. -/
  answer : Except ExitReason Unit

/-- What is there after repeated calls, and the reason that the last of them gave. -/
structure Ended (α : Type) where
  /-- What is there after the calls. -/
  after : α
  /-- The reason, unless the calls came to their limit before there was one. -/
  reason? : Option ExitReason

/-- Repeats a call until it gives a reason, but at most so many times. -/
def untilExit {α : Type} (call : α → Called α) : Nat → α → Ended α
  | 0, a => { after := a, reason? := none }
  | rounds + 1, a =>
    let called := call a
    match called.answer with
    | .ok () => untilExit call rounds called.after
    | .error reason => { after := called.after, reason? := some reason }

end MeteredMachine
