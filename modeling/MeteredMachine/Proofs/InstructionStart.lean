import MeteredMachine.JumpTable

/-!
# Instruction starts

Reading code from left to right splits it into instructions: a push takes its
immediate with it, and any other byte stands alone, defined or not.  The positions
at which this reading pauses are the instruction starts.  The jump table is made by
a pass of its own, which tells pushes by the range of their byte; every mark that it
sets is on an instruction start that holds a jump destination.

Main results:

- Type {lit}`InstructionStart` holds the starts as the least set that is closed
  under reading one more instruction.
- Theorem {lit}`InstructionStart.le_size_add`: a start lies at most one immediate
  behind the end of the code.
- Theorem {lit}`JumpTable.start_of_contains`: a marked position is an instruction
  start with the byte of a jump destination.
-/

namespace MeteredMachine

/-- The positions at which an instruction starts when code is read from its first
byte on. -/
inductive InstructionStart (code : Array UInt8) : Nat → Prop where
  /-- The first byte. -/
  | zero : InstructionStart code 0
  /-- The position behind a push and its immediate of `size` bytes. -/
  | push {i size : Nat} (start : InstructionStart code i) (hpos : 1 ≤ size) (hle : size ≤ 32)
      (hbyte : code[i]? = some (UInt8.ofNat (0x5f + size))) :
      InstructionStart code (i + 1 + size)
  /-- The position behind any other byte. -/
  | plain {i : Nat} {byte : UInt8} (start : InstructionStart code i)
      (hbyte : code[i]? = some byte) (hplain : byte.toNat < 0x60 ∨ 0x7f < byte.toNat) :
      InstructionStart code (i + 1)

/-- The byte of a push of `size` bytes has an immediate of that size. -/
theorem JumpTable.immediateSize_ofNat {size : Nat} (hpos : 1 ≤ size) (hle : size ≤ 32) :
    immediateSize (UInt8.ofNat (0x5f + size)) = size := by
  have hnat : (UInt8.ofNat (0x5f + size)).toNat = 0x5f + size := by
    rw [UInt8.toNat_ofNat', Nat.mod_eq_of_lt (by omega)]
  rw [immediateSize, hnat, if_pos (by omega)]
  omega

namespace InstructionStart

variable {code : Array UInt8} {i : Nat}

/-- Behind a start, the next start comes after the immediate of its byte. -/
theorem next {byte : UInt8} (start : InstructionStart code i) (hbyte : code[i]? = some byte) :
    InstructionStart code (i + 1 + JumpTable.immediateSize byte) := by
  unfold JumpTable.immediateSize
  split
  next hrange =>
    have hnat : UInt8.ofNat (0x5f + (byte.toNat - 0x5f)) = byte := by
      rw [Nat.add_sub_cancel' (by omega)]
      exact UInt8.ofNat_toNat
    exact push start (by omega) (by omega) (hnat.symm ▸ hbyte)
  next hrange => exact plain start hbyte (by omega)

/-- Whatever holds of the first byte and is handed on from each instruction to the next holds
of every start. -/
theorem of_closed {P : Nat → Prop} (hzero : P 0)
    (hnext : ∀ i byte, P i → code[i]? = some byte → P (i + 1 + JumpTable.immediateSize byte))
    (start : InstructionStart code i) : P i := by
  induction start with
  | zero => exact hzero
  | @push i size _ hpos hle hbyte ih =>
    have hstart := hnext i _ ih hbyte
    rwa [JumpTable.immediateSize_ofNat hpos hle] at hstart
  | @plain i byte _ hbyte hplain ih =>
    have hsize : JumpTable.immediateSize byte = 0 := by
      rw [JumpTable.immediateSize, if_neg (by omega)]
    have hstart := hnext i byte ih hbyte
    rwa [hsize] at hstart

/-- A start lies at most the largest immediate behind the end of the code. -/
theorem le_size_add (start : InstructionStart code i) : i ≤ code.size + 32 := by
  cases start with
  | zero => omega
  | push _ _ hle hbyte =>
    have hlt := (Array.getElem?_eq_some_iff.1 hbyte).1
    omega
  | plain _ hbyte _ =>
    have hlt := (Array.getElem?_eq_some_iff.1 hbyte).1
    omega

end InstructionStart

namespace Opcode

/-- The pass over the code passes over as many bytes as the instruction takes. -/
theorem immediateSize_toByte (op : Opcode) :
    JumpTable.immediateSize op.toByte = op.immediateSize := by
  cases op with
  | push index => revert index; decide
  | dup index => revert index; decide
  | swap index => revert index; decide
  | binary op => cases op <;> rfl
  | unary op => cases op <;> rfl
  | _ => rfl

end Opcode

namespace JumpTable

/-- Marks of a pass that enters the code `skip` bytes before an instruction start are
on instruction starts. -/
theorem start_of_scan {code : Array UInt8} {bytes : List UInt8} {position skip j : Nat}
    (hsuffix : code.toList.drop position = bytes)
    (hstart : InstructionStart code (position + skip))
    (hmark : (scan skip bytes)[j]? = some true) :
    InstructionStart code (position + j) ∧
      code[position + j]? = some Opcode.jumpdest.toByte := by
  induction bytes generalizing position skip j with
  | nil => simp [scan] at hmark
  | cons byte rest ih =>
    have hbyte : code[position]? = some byte := by
      have hhead := congrArg List.head? hsuffix
      simpa [List.head?_drop] using hhead
    have hrest : code.toList.drop (position + 1) = rest := by
      rw [← List.tail_drop, hsuffix, List.tail_cons]
    have hshift (k : Nat) : position + (k + 1) = position + 1 + k := by omega
    cases skip with
    | zero =>
      cases j with
      | zero =>
        have hdest : byte = Opcode.jumpdest.toByte := by simpa [scan] using hmark
        exact ⟨hstart, hdest ▸ hbyte⟩
      | succ j =>
        rw [hshift]
        exact ih hrest (hstart.next hbyte) hmark
    | succ skip =>
      cases j with
      | zero => simp [scan] at hmark
      | succ j =>
        rw [hshift] at hstart ⊢
        exact ih hrest hstart hmark

/-- A jump destination is an instruction start that holds its byte. -/
theorem start_of_contains {code : Array UInt8} {i : Nat}
    (h : (ofCode code).contains i = true) :
    InstructionStart code i ∧ code[i]? = some Opcode.jumpdest.toByte := by
  have hmark : (scan 0 (code.toList.drop 0))[i]? = some true := by
    simpa [contains, ofCode, Option.getD_eq_iff] using h
  simpa using @start_of_scan code _ 0 0 i rfl InstructionStart.zero hmark

end JumpTable

end MeteredMachine
