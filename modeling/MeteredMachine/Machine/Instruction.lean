import MeteredMachine.Machine.State

/-!
# Instruction bodies

The effect of each instruction on the state, once its operands are known to be
there and its price is paid, and the evaluation of the instruction at the program
counter with all its checks in order: end of code, undefined byte, operands,
price, charge, effect, program counter.

Main definitions:

- Type {lit}`Control` says where the program counter goes.
- Definition {lit}`Effect.ofOpcode` is the body of an instruction.
- Definition {lit}`State.eval` evaluates the instruction at the program counter.
-/

namespace MeteredMachine

/-- Where control goes after an instruction. -/
inductive Control where
  /-- Forward by so many bytes. -/
  | advance (bytes : Nat)
  /-- To a position. -/
  | jump (destination : Nat)
  /-- Out of the machine. -/
  | exit (success : Success)
deriving DecidableEq, Repr

/-! ## Effects on the state -/

/-- An effect on the state that may fail; a failure keeps what was done before it. -/
abbrev Effect := EStateM Fault State

namespace Effect

/-- Takes the top word off the stack. -/
def pop : Effect Word := fun s =>
  match s.stack.pop with
  | .ok popped => .ok popped.word { s with stack := popped.rest }
  | .error fault => .error fault s

/-- Replaces the stack by the result of an operation. -/
def updateStack (f : Stack → Except Fault Stack) : Effect Unit := fun s =>
  match f s.stack with
  | .ok stack => .ok () { s with stack }
  | .error fault => .error fault s

/-- Puts a word on the stack. -/
def push (w : Word) : Effect Unit :=
  updateStack (·.push w)

/-- An operand as a host size; an operand that is none was never paid for. -/
def size (w : Word) : Effect Nat := fun s =>
  match w.toSize? with
  | some n => .ok n s
  | none => .error .outOfGas s

/-- Replaces the memory. -/
def updateMemory (f : Memory → Memory) : Effect Unit := fun s =>
  .ok () { s with memory := f s.memory }

/-- Reads a word of memory. -/
def loadWord (offset : Nat) : Effect Word := fun s =>
  let loaded := s.memory.loadWord offset
  .ok loaded.value { s with memory := loaded.memory }

/-- Reads a range of memory into the return data. -/
def returnRange (offset length : Nat) : Effect Unit := fun s =>
  let loaded := s.memory.load offset length
  .ok () { s with memory := loaded.memory, returnData := loaded.value }

/-- Makes a range of memory the return data; an empty range leaves memory alone,
wherever it lies. -/
def returnBytes (offset length : Word) : Effect Unit :=
  if length.isZero then modify fun s => { s with returnData := [] }
  else do
    let length ← size length
    let offset ← size offset
    returnRange offset length

/-- A word as a jump destination; one that does not fit a host size is reported as
the largest of them. -/
def jumpTo (destination : Word) : Effect Control := fun s =>
  match destination.toSize? with
  | some position =>
    if s.jumpTable.contains position then .ok (.jump position) s
    else .error (.invalidJump position) s
  | none => .error (.invalidJump (Word.sizeLimit - 1)) s

/-! ## Bodies -/

/-- The effect of an instruction. -/
def ofOpcode : Opcode → Effect Control
  | .stop => pure (.exit .stopped)
  | .binary op => do
    let a ← pop
    let b ← pop
    push (op.apply a b)
    pure (.advance 1)
  | .unary op => do
    let a ← pop
    push (op.apply a)
    pure (.advance 1)
  | .pop => do
    let _ ← pop
    pure (.advance 1)
  | .mload => do
    let offset ← size (← pop)
    push (← loadWord offset)
    pure (.advance 1)
  | .mstore => do
    let offset ← size (← pop)
    let value ← pop
    updateMemory (·.storeWord offset value)
    pure (.advance 1)
  | .mstore8 => do
    let offset ← size (← pop)
    let value ← pop
    updateMemory (·.storeByte offset value.lowUInt64.toUInt8)
    pure (.advance 1)
  | .jump => do
    let destination ← pop
    jumpTo destination
  | .jumpi => do
    let destination ← pop
    let condition ← pop
    if condition.isZero then pure (.advance 1) else jumpTo destination
  | .pc => do
    push (Word.ofNat (← get).pc)
    pure (.advance 1)
  | .msize => do
    push (Word.ofNat (← get).memory.size)
    pure (.advance 1)
  | .gas => do
    push (Word.ofUInt64 (← get).gas.remaining)
    pure (.advance 1)
  | .jumpdest => pure (.advance 1)
  | .push0 => do
    push 0
    pure (.advance 1)
  | .push index => do
    push ((← get).immediate (index.val + 1))
    pure (.advance (1 + (index.val + 1)))
  | .dup index => do
    updateStack (·.dup (index.val + 1))
    pure (.advance 1)
  | .swap index => do
    updateStack (·.swap (index.val + 1))
    pure (.advance 1)
  | .ret => do
    let offset ← pop
    let length ← pop
    returnBytes offset length
    pure (.exit .returned)

end Effect

/-! ## Evaluation -/

namespace State

/-- The state after an instruction, and the reason if the instruction ends the
machine. -/
structure Evaluated where
  /-- The state after the instruction. -/
  state : State
  /-- Why the machine ends, if it does. -/
  exit? : Option ExitReason
deriving DecidableEq

/-- Control takes effect on the program counter or ends the machine. -/
def applyControl (s : State) : Control → Evaluated
  | .advance bytes => { state := { s with pc := s.pc + bytes }, exit? := none }
  | .jump destination => { state := { s with pc := destination }, exit? := none }
  | .exit success => { state := s, exit? := some (.success success) }

/-- Evaluates an instruction: operands, price, charge, effect, program counter. -/
def evalOpcode (s : State) (op : Opcode) : Evaluated :=
  if s.stack.size < op.entry.inputs then
    { state := s, exit? := some (.fault .stackUnderflow) }
  else
    match stepCost op.entry.cost s.stack s.memory with
    | .error fault => { state := s, exit? := some (.fault fault) }
    | .ok cost =>
      match s.gas.charge cost with
      | .error fault => { state := s, exit? := some (.fault fault) }
      | .ok gas =>
        match Effect.ofOpcode op { s with gas } with
        | .ok control s' => s'.applyControl control
        | .error fault s' => { state := s', exit? := some (.fault fault) }

/-- Evaluates the instruction at the program counter. -/
def eval (s : State) : Evaluated :=
  match s.currentByte? with
  | none => { state := s, exit? := some (.success .stopped) }
  | some byte =>
    match Opcode.ofByte? byte with
    | none => { state := s, exit? := some (.fault (.invalidOpcode byte)) }
    | some op => s.evalOpcode op

end State

end MeteredMachine
