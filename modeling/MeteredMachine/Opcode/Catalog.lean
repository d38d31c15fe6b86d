import MeteredMachine.Gas.Cost
import MeteredMachine.Opcode.Basic

/-!
# Instruction catalog

For every instruction the catalog says how many items it needs on the stack, how
many items stand for them afterwards, and how its price is found.
-/

namespace MeteredMachine

/-- What the catalog says about an instruction. -/
structure CatalogEntry where
  /-- The number of items that the instruction needs. -/
  inputs : Nat
  /-- The number of items that stand in their place afterwards. -/
  outputs : Nat
  /-- How the price is found. -/
  cost : CostRule
deriving DecidableEq, Repr

namespace Opcode

/-- The price rule of a function of two operands. -/
def binaryCost : BinaryOp → CostRule
  | .add | .sub | .lt | .gt | .eq | .and | .or | .xor => .fixed Schedule.veryLow
  | .mul | .div | .mod => .fixed Schedule.low
  | .exp => .exponent

/-- The catalog entry of an instruction. -/
def entry : Opcode → CatalogEntry
  | stop => ⟨0, 0, .fixed Schedule.zero⟩
  | binary op => ⟨2, 1, binaryCost op⟩
  | unary _ => ⟨1, 1, .fixed Schedule.veryLow⟩
  | pop => ⟨1, 0, .fixed Schedule.base⟩
  | mload => ⟨1, 1, .memory Schedule.veryLow 0 (.fixed 32)⟩
  | mstore => ⟨2, 0, .memory Schedule.veryLow 0 (.fixed 32)⟩
  | mstore8 => ⟨2, 0, .memory Schedule.veryLow 0 (.fixed 1)⟩
  | jump => ⟨1, 0, .fixed Schedule.mid⟩
  | jumpi => ⟨2, 0, .fixed Schedule.high⟩
  | pc | msize | gas => ⟨0, 1, .fixed Schedule.base⟩
  | jumpdest => ⟨0, 0, .fixed Schedule.jumpDest⟩
  | push0 => ⟨0, 1, .fixed Schedule.base⟩
  | push _ => ⟨0, 1, .fixed Schedule.veryLow⟩
  | dup index => ⟨index.val + 1, index.val + 2, .fixed Schedule.veryLow⟩
  | swap index => ⟨index.val + 2, index.val + 2, .fixed Schedule.veryLow⟩
  | ret => ⟨2, 0, .memory Schedule.zero 0 (.operand 1)⟩

end Opcode

end MeteredMachine
