import MeteredMachine.Opcode.Basic

/-!
# Jump table

A jump may only go to a jump destination that is an instruction: the same byte
inside the immediate of a push does not count.  One pass from left to right over
the code marks the destinations and passes over immediates.

Main definitions:

- Definition {lit}`JumpTable.scan` is the pass.
- Definition {lit}`JumpTable.contains` looks a position up.
-/

namespace MeteredMachine

/-- For every code position, whether it is a jump destination. -/
structure JumpTable where
  /-- One mark per byte of the code. -/
  marks : Array Bool
deriving DecidableEq

namespace JumpTable

/-- The number of immediate bytes that follow a byte of code. -/
def immediateSize (byte : UInt8) : Nat :=
  if 0x60 ≤ byte.toNat ∧ byte.toNat ≤ 0x7f then byte.toNat - 0x5f else 0

/-- Marks the bytes of the code, where the first `skip` of them belong to an
immediate. -/
def scan : Nat → List UInt8 → List Bool
  | _, [] => []
  | skip + 1, _ :: rest => false :: scan skip rest
  | 0, byte :: rest => (byte == Opcode.jumpdest.toByte) :: scan (immediateSize byte) rest

/-- The jump table of a code. -/
def ofCode (code : Array UInt8) : JumpTable :=
  ⟨(scan 0 code.toList).toArray⟩

/-- Whether a position is a jump destination. -/
def contains (table : JumpTable) (position : Nat) : Bool :=
  table.marks[position]?.getD false

/-- The number of jump destinations. -/
def count (table : JumpTable) : Nat :=
  table.marks.count true

/-- A scan gives one mark per byte. -/
@[simp] theorem length_scan (skip : Nat) (code : List UInt8) :
    (scan skip code).length = code.length := by
  induction code generalizing skip with
  | nil => simp [scan]
  | cons byte rest ih => cases skip <;> simp [scan, ih]

end JumpTable

end MeteredMachine
