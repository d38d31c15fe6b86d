import MeteredMachine.Memory
import MeteredMachine.Stack
import MeteredMachine.Word.Limbs

/-!
# Cost of a step

A cost rule says how the price of a step follows from the operands and the memory.
Operands are looked at and stay on the stack.  Memory of {lit}`w` words costs
{lit}`3 * w + w * w / 512` in total, and a step pays the difference between the
totals after and before it.

Main definitions:

- Type {lit}`CostRule` holds the rules.
- Definition {lit}`memoryGas` prices growth between two sizes.
- Definition {lit}`stepCost` prices a step under a rule.
-/

namespace MeteredMachine

/-- The length of the memory range that a step touches. -/
inductive RangeLength where
  /-- A width that the instruction fixes. -/
  | fixed (width : Nat)
  /-- The operand at a distance from the top of the stack. -/
  | operand (distance : Nat)
deriving DecidableEq, Repr

/-- How the price of a step is found. -/
inductive CostRule where
  /-- A fixed price. -/
  | fixed (gas : UInt64)
  /-- A fixed part and a price per byte of the exponent, the second operand. -/
  | exponent
  /-- A fixed part and the growth of memory to the range that the step touches. -/
  | memory (base : UInt64) (offset : Nat) (length : RangeLength)
deriving DecidableEq, Repr

/-- The part of a price that does not depend on operands or memory. -/
def CostRule.fixedPart : CostRule → UInt64
  | fixed gas => gas
  | exponent => Schedule.exp
  | memory base _ _ => base

/-- The price of an exponentiation. -/
def expGas (exponent : Word) : UInt64 :=
  Schedule.exp + Schedule.expByte * UInt64.ofNat exponent.byteLength

/-- The total price of memory of so many words, if it fits 64 bits. -/
def memoryWordCost (words : Nat) : Option UInt64 :=
  let total := Schedule.memory.toNat * words + words * words / Schedule.memoryQuadDivisor.toNat
  if total < UInt64.size then some (UInt64.ofNat total) else none

/-- The price of growing memory from one size in bytes to another, if it fits 64
bits.  Memory that does not grow is free. -/
def memoryGas (current next : Nat) : Option UInt64 :=
  if next ≤ current then some 0
  else
    match memoryWordCost (Memory.wordsFor next), memoryWordCost (Memory.wordsFor current) with
    | some newCost, some oldCost => some (newCost - oldCost)
    | _, _ => none

/-- The end of a range whose bounds are words, if all of it can be addressed. -/
def rangeEnd? (offset length : Word) : Option Nat :=
  match offset.toSize?, length.toSize? with
  | some o, some l => if o + l ≤ Schedule.maxMemorySize then some (o + l) else none
  | _, _ => none

/-- The price of touching a range.  An empty range is free wherever it lies, and a
range that cannot be addressed cannot be paid for. -/
def expansionGas (memory : Memory) (offset length : Word) : Except Fault UInt64 :=
  if length.isZero then .ok 0
  else
    match rangeEnd? offset length with
    | none => .error .outOfGas
    | some stop =>
      match memoryGas memory.size stop with
      | some gas => .ok gas
      | none => .error .outOfGas

/-- The length operand of a memory rule. -/
def RangeLength.resolve (length : RangeLength) (stack : Stack) : Except Fault Word :=
  match length with
  | .fixed width => .ok (Word.ofNat width)
  | .operand distance => stack.peek distance

/-- The price of a memory rule once its operands are known. -/
def memoryStepCost (memory : Memory) (base : UInt64) (offset length : Word) :
    Except Fault UInt64 :=
  match expansionGas memory offset length with
  | .error fault => .error fault
  | .ok expansion =>
    if base.toNat + expansion.toNat < UInt64.size then .ok (base + expansion) else .error .outOfGas

/-- The price of a step under a rule. -/
def stepCost (rule : CostRule) (stack : Stack) (memory : Memory) : Except Fault UInt64 :=
  match rule with
  | .fixed gas => .ok gas
  | .exponent =>
    match stack.peek 1 with
    | .error fault => .error fault
    | .ok exponent => .ok (expGas exponent)
  | .memory base offset length =>
    match stack.peek offset with
    | .error fault => .error fault
    | .ok offsetWord =>
      match length.resolve stack with
      | .error fault => .error fault
      | .ok lengthWord => memoryStepCost memory base offsetWord lengthWord

end MeteredMachine
