import MeteredMachine.Gas.Meter
import MeteredMachine.JumpTable
import MeteredMachine.Opcode.Catalog

/-!
# Machine state

Everything that a step reads or writes, apart from the host.
-/

namespace MeteredMachine

/-- The state of a machine. -/
structure State where
  /-- The position of the next instruction. -/
  pc : Nat
  /-- The code. -/
  code : Array UInt8
  /-- The input data of the frame. -/
  data : Array UInt8
  /-- The jump destinations of the code. -/
  jumpTable : JumpTable
  /-- The operand stack. -/
  stack : Stack
  /-- The memory. -/
  memory : Memory
  /-- The gas meter. -/
  gas : Meter
  /-- The bytes that a return instruction gave. -/
  returnData : List UInt8
  /-- Whether the machine still runs. -/
  status : Status
deriving DecidableEq

namespace State

/-- The state at the start of a run: nothing on the stack, nothing in memory. -/
def initial (code data : Array UInt8) (gasLimit : UInt64) : State :=
  { pc := 0
    code
    data
    jumpTable := .ofCode code
    stack := .empty
    memory := .empty
    gas := .ofLimit gasLimit
    returnData := []
    status := .running }

/-- The byte at the program counter, unless the code has ended. -/
def currentByte? (s : State) : Option UInt8 :=
  s.code[s.pc]?

/-- The instruction at the program counter, if there is a defined one. -/
def currentOpcode? (s : State) : Option Opcode :=
  s.currentByte?.bind Opcode.ofByte?

/-- The immediate of `size` bytes behind the instruction.  What the code has of it is
copied into a word of zeros, from the place on where all of it would just fit. -/
def immediate (s : State) (size : Nat) : Word :=
  let start := s.pc + 1
  let available := (s.code.extract start (start + size)).toList
  let buffer := Array.replicate Word.byteCount 0
  Word.ofBytes (Memory.overwrite buffer (Word.byteCount - size) available).toList

end State

end MeteredMachine
