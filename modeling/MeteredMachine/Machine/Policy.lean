import MeteredMachine.Context
import MeteredMachine.Machine.State

/-!
# Host policies

A host may look at every upcoming step and end the machine instead of letting the
step happen.  A policy is consulted before the byte at the program counter is
decoded, so also behind the end of the code and for undefined bytes.  It sees the
state, the instruction if there is one, and the address of the frame, and may
change a memory of its own.

Main definitions:

- Structure {lit}`Policy` is a policy over a type of memories.
- Type {lit}`StockPolicy` holds the policies that come with the machine; it is its
  own memory.
-/

namespace MeteredMachine

/-- The answer of a policy and what it remembers from now on. -/
structure Verdict (σ : Type) where
  /-- What the policy remembers from now on. -/
  memo : σ
  /-- The fault that ends the machine, if the policy refuses the step. -/
  refusal? : Option Fault

/-- A check that a host runs before every step. -/
structure Policy (σ : Type) where
  /-- Looks at the state, the upcoming instruction and the address of the frame. -/
  review : σ → State → Option Opcode → Address → Verdict σ

/-- The policy that lets every step happen. -/
def Policy.permit : Policy Unit where
  review _ _ _ _ := { memo := (), refusal? := none }

/-! ## Policies that come with the machine -/

/-- What a recording policy keeps of one consultation. -/
structure Consultation where
  /-- The position of the upcoming instruction. -/
  pc : Nat
  /-- The upcoming instruction, if there is one. -/
  opcode? : Option Opcode
  /-- The address of the frame. -/
  address : Address
  /-- The number of items on the stack. -/
  stackSize : Nat
  /-- The gas still available. -/
  remaining : UInt64
deriving DecidableEq

/-- The policies that come with the machine, each with what it remembers. -/
inductive StockPolicy where
  /-- Lets every step happen. -/
  | permit
  /-- Refuses to go on after so many more steps. -/
  | stepLimit (remaining : Nat)
  /-- Refuses a frame that is nested deeper than a limit. -/
  | depthLimit (depth limit : Nat)
  /-- Lets every step happen and keeps all consultations, latest last. -/
  | record (consultations : Array Consultation)
  /-- Refuses the instruction of a byte, or steps without an instruction. -/
  | denyOpcode (byte? : Option UInt8) (fault : Fault)
  /-- Refuses the step at a position. -/
  | denyAt (position : Nat) (fault : Fault)
deriving DecidableEq

namespace StockPolicy

/-- The limit on nesting at the standard depth. -/
def standardDepthLimit (depth : Nat) : StockPolicy :=
  depthLimit depth Schedule.maxCallDepth

/-- The fault of a step limit. -/
def stepLimitFault : Fault :=
  .custom "step limit reached"

/-- The verdict on an upcoming step. -/
def review (policy : StockPolicy) (s : State) (opcode? : Option Opcode) (address : Address) :
    Verdict StockPolicy :=
  match policy with
  | permit => { memo := permit, refusal? := none }
  | stepLimit 0 => { memo := stepLimit 0, refusal? := some stepLimitFault }
  | stepLimit (remaining + 1) => { memo := stepLimit remaining, refusal? := none }
  | depthLimit depth limit =>
    { memo := policy, refusal? := if depth > limit then some .callTooDeep else none }
  | record consultations =>
    let consultation :=
      { pc := s.pc, opcode?, address, stackSize := s.stack.size, remaining := s.gas.remaining }
    { memo := record (consultations.push consultation), refusal? := none }
  | denyOpcode byte? fault =>
    { memo := policy,
      refusal? := if opcode?.map Opcode.toByte = byte? then some fault else none }
  | denyAt position fault =>
    { memo := policy, refusal? := if s.pc = position then some fault else none }

/-- The stock policies as one policy over themselves. -/
def policy : Policy StockPolicy where
  review := review

/-- The consultations that a recording policy has kept. -/
def consultations : StockPolicy → Array Consultation
  | record consultations => consultations
  | _ => #[]

end StockPolicy

end MeteredMachine
