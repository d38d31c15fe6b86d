import MeteredMachine.Word.Basic

/-!
# Instructions

The instruction set and its bytes.  Instructions that only differ in the function
they compute, in the size of an immediate or in a depth are one case with a
parameter.

Main definitions:

- Type {lit}`Opcode` holds the instructions.
- Definitions {lit}`Opcode.toByte` and {lit}`Opcode.ofByte?` convert to and from bytes.
- Definition {lit}`Opcode.name` is the mnemonic.
-/

namespace MeteredMachine

/-- The functions of two operands. -/
inductive BinaryOp where
  /-- Addition. -/
  | add
  /-- Multiplication. -/
  | mul
  /-- Subtraction. -/
  | sub
  /-- Division. -/
  | div
  /-- Remainder. -/
  | mod
  /-- Exponentiation. -/
  | exp
  /-- Less than. -/
  | lt
  /-- Greater than. -/
  | gt
  /-- Equality. -/
  | eq
  /-- Bitwise conjunction. -/
  | and
  /-- Bitwise disjunction. -/
  | or
  /-- Bitwise exclusive disjunction. -/
  | xor
deriving DecidableEq, Repr

/-- The functions of one operand. -/
inductive UnaryOp where
  /-- Test for zero. -/
  | isZero
  /-- Bitwise complement. -/
  | not
deriving DecidableEq, Repr

/-- The value of a function of two operands; the first operand is the top item. -/
def BinaryOp.apply (op : BinaryOp) (a b : Word) : Word :=
  match op with
  | .add => a + b
  | .mul => a * b
  | .sub => a - b
  | .div => a / b
  | .mod => a % b
  | .exp => a.pow b
  | .lt => Word.ofBool (a < b)
  | .gt => Word.ofBool (b < a)
  | .eq => Word.ofBool (a = b)
  | .and => a &&& b
  | .or => a ||| b
  | .xor => a ^^^ b

/-- The value of a function of one operand. -/
def UnaryOp.apply (op : UnaryOp) (a : Word) : Word :=
  match op with
  | .isZero => Word.ofBool a.isZero
  | .not => ~~~a

/-- The instructions of the machine. -/
inductive Opcode where
  /-- Ends the machine. -/
  | stop
  /-- Replaces two operands by the value of a function. -/
  | binary (op : BinaryOp)
  /-- Replaces one operand by the value of a function. -/
  | unary (op : UnaryOp)
  /-- Drops the top item. -/
  | pop
  /-- Reads a word of memory. -/
  | mload
  /-- Writes a word of memory. -/
  | mstore
  /-- Writes a byte of memory. -/
  | mstore8
  /-- Jumps. -/
  | jump
  /-- Jumps if the condition is not zero. -/
  | jumpi
  /-- Pushes the program counter. -/
  | pc
  /-- Pushes the size of memory. -/
  | msize
  /-- Pushes the remaining gas. -/
  | gas
  /-- Marks a jump destination. -/
  | jumpdest
  /-- Pushes zero. -/
  | push0
  /-- Pushes an immediate of `index + 1` bytes. -/
  | push (index : Fin 32)
  /-- Copies the item at distance `index` to the top. -/
  | dup (index : Fin 16)
  /-- Exchanges the top with the item at distance `index + 1`. -/
  | swap (index : Fin 16)
  /-- Ends the machine with bytes of memory as its result. -/
  | ret
deriving DecidableEq, Repr

namespace Opcode

/-! ## Bytes -/

/-- The byte of an instruction. -/
def toByte : Opcode → UInt8
  | stop => 0x00
  | binary .add => 0x01
  | binary .mul => 0x02
  | binary .sub => 0x03
  | binary .div => 0x04
  | binary .mod => 0x06
  | binary .exp => 0x0a
  | binary .lt => 0x10
  | binary .gt => 0x11
  | binary .eq => 0x14
  | unary .isZero => 0x15
  | binary .and => 0x16
  | binary .or => 0x17
  | binary .xor => 0x18
  | unary .not => 0x19
  | pop => 0x50
  | mload => 0x51
  | mstore => 0x52
  | mstore8 => 0x53
  | jump => 0x56
  | jumpi => 0x57
  | pc => 0x58
  | msize => 0x59
  | gas => 0x5a
  | jumpdest => 0x5b
  | push0 => 0x5f
  | push index => UInt8.ofNat (0x60 + index.val)
  | dup index => UInt8.ofNat (0x80 + index.val)
  | swap index => UInt8.ofNat (0x90 + index.val)
  | ret => 0xf3

/-- The instructions without a parameter of size or depth. -/
def plain : List Opcode :=
  [stop, binary .add, binary .mul, binary .sub, binary .div, binary .mod, binary .exp,
    binary .lt, binary .gt, binary .eq, unary .isZero, binary .and, binary .or, binary .xor,
    unary .not, pop, mload, mstore, mstore8, jump, jumpi, pc, msize, gas, jumpdest, push0, ret]

/-- The instruction of a byte, if the byte is defined. -/
def ofByte? (byte : UInt8) : Option Opcode :=
  let n := byte.toNat
  if 0x60 ≤ n ∧ n ≤ 0x7f then some (push (Fin.ofNat 32 (n - 0x60)))
  else if 0x80 ≤ n ∧ n ≤ 0x8f then some (dup (Fin.ofNat 16 (n - 0x80)))
  else if 0x90 ≤ n ∧ n ≤ 0x9f then some (swap (Fin.ofNat 16 (n - 0x90)))
  else plain.find? fun op => op.toByte == byte

/-! ## Parameters -/

/-- The number of immediate bytes behind the instruction. -/
def immediateSize : Opcode → Nat
  | push index => index.val + 1
  | _ => 0

/-- Which item from the top is copied, and zero if none is. -/
def dupDepth : Opcode → Nat
  | dup index => index.val + 1
  | _ => 0

/-- The distance of the item that is exchanged, and zero if none is. -/
def swapDepth : Opcode → Nat
  | swap index => index.val + 1
  | _ => 0

/-! ## Mnemonics -/

/-- The mnemonic of an instruction. -/
def name : Opcode → String
  | stop => "STOP"
  | binary .add => "ADD"
  | binary .mul => "MUL"
  | binary .sub => "SUB"
  | binary .div => "DIV"
  | binary .mod => "MOD"
  | binary .exp => "EXP"
  | binary .lt => "LT"
  | binary .gt => "GT"
  | binary .eq => "EQ"
  | unary .isZero => "ISZERO"
  | binary .and => "AND"
  | binary .or => "OR"
  | binary .xor => "XOR"
  | unary .not => "NOT"
  | pop => "POP"
  | mload => "MLOAD"
  | mstore => "MSTORE"
  | mstore8 => "MSTORE8"
  | jump => "JUMP"
  | jumpi => "JUMPI"
  | pc => "PC"
  | msize => "MSIZE"
  | gas => "GAS"
  | jumpdest => "JUMPDEST"
  | push0 => "PUSH0"
  | push index => "PUSH" ++ toString (index.val + 1)
  | dup index => "DUP" ++ toString (index.val + 1)
  | swap index => "SWAP" ++ toString (index.val + 1)
  | ret => "RETURN"

/-- An instruction is the one of its own byte. -/
@[simp] theorem ofByte?_toByte (op : Opcode) : ofByte? op.toByte = some op := by
  cases op with
  | push index => revert index; decide
  | dup index => revert index; decide
  | swap index => revert index; decide
  | binary op => cases op <;> rfl
  | unary op => cases op <;> rfl
  | _ => rfl

/-- A byte inside a block of `count` bytes is the start of the block plus its index. -/
theorem ofNat_add_index {byte : UInt8} {start : Nat} (count : Nat)
    (hle : start ≤ byte.toNat) (hlt : byte.toNat < start + count) :
    UInt8.ofNat (start + (byte.toNat - start) % count) = byte := by
  apply UInt8.toNat_inj.1
  have hbyte := byte.toNat_lt
  have hmod : (byte.toNat - start) % count = byte.toNat - start :=
    Nat.mod_eq_of_lt (by omega)
  rw [UInt8.toNat_ofNat', hmod]
  omega

/-- The instruction of a byte has that byte. -/
theorem toByte_of_ofByte? {byte : UInt8} {op : Opcode} (h : ofByte? byte = some op) :
    op.toByte = byte := by
  simp only [ofByte?] at h
  split at h
  · rename_i hpush
    cases h
    exact ofNat_add_index 32 hpush.1 (by omega)
  split at h
  · rename_i hdup
    cases h
    exact ofNat_add_index 16 hdup.1 (by omega)
  split at h
  · rename_i hswap
    cases h
    exact ofNat_add_index 16 hswap.1 (by omega)
  · simpa using List.find?_some h

end Opcode

end MeteredMachine
