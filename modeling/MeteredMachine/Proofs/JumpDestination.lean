import MeteredMachine.Machine.Basic
import MeteredMachine.Proofs.InstructionStart

/-!
# Exact jump tables

Whether a byte is an instruction or part of an immediate depends on everything in front of it.  What
a reader has to remember of that is a single number: how many bytes of an immediate are still to
come.  At an instruction start the number is zero; from there the pass over the code goes on as if
the code began at this position, and bytes that are read while the number is not zero do not matter.

Main results:

- Definition {lit}`JumpTable.owed` is the number of bytes that are still to come.
- Theorem {lit}`JumpTable.contains_ofCode_iff`: the jump table marks the instruction starts with the
  byte of a jump destination, and nothing else.
- Theorem {lit}`JumpTable.ofCode_setIfInBounds`: the bytes of an immediate do not matter.
- Theorem {lit}`Machine.jump_destinations_exact` says all this of the table of a machine.
-/

namespace MeteredMachine

namespace JumpTable

/-! ## Bytes of an immediate that are still to come -/

/-- How many bytes of an immediate are still to come behind some bytes, where the first `skip` of
them belong to an immediate. -/
def owed : Nat → List UInt8 → Nat
  | skip, [] => skip
  | skip + 1, _ :: rest => owed skip rest
  | 0, byte :: rest => owed (immediateSize byte) rest

theorem owed_append (skip : Nat) (front back : List UInt8) :
    owed skip (front ++ back) = owed (owed skip front) back := by
  induction front generalizing skip with
  | nil => simp [owed]
  | cons byte rest ih => cases skip <;> exact ih _

/-- Inside an immediate every byte counts once, whatever it is. -/
theorem owed_of_length_le {skip : Nat} {bytes : List UInt8} (h : bytes.length ≤ skip) :
    owed skip bytes = skip - bytes.length := by
  induction bytes generalizing skip with
  | nil => simp [owed]
  | cons byte rest ih =>
    cases skip with
    | zero => simp at h
    | succ skip =>
      rw [List.length_cons] at h ⊢
      rw [owed, ih (by omega)]
      omega

/-- A pass over two pieces of code is a pass over the first and a pass over the second that knows how
many bytes are still to come. -/
theorem scan_append (skip : Nat) (front back : List UInt8) :
    scan skip (front ++ back) = scan skip front ++ scan (owed skip front) back := by
  induction front generalizing skip with
  | nil => simp [scan, owed]
  | cons byte rest ih => cases skip <;> simp [scan, owed, ih]

/-- A byte that is read while something is still to come does not matter to a pass. -/
theorem scan_replace {skip more : Nat} {front : List UInt8} (howed : owed skip front = more + 1)
    (byte other : UInt8) (back : List UInt8) :
    scan skip (front ++ byte :: back) = scan skip (front ++ other :: back) := by
  rw [scan_append, scan_append, howed, scan, scan]

/-- Behind the code and the bytes that are still to come, the next instruction would start. -/
theorem start_of_owed {code : Array UInt8} {bytes : List UInt8} {position skip : Nat}
    (hsuffix : code.toList.drop position = bytes)
    (hstart : InstructionStart code (position + skip)) :
    InstructionStart code (position + bytes.length + owed skip bytes) := by
  induction bytes generalizing position skip with
  | nil => exact hstart
  | cons byte rest ih =>
    have hbyte : code[position]? = some byte := by
      have hhead := congrArg List.head? hsuffix
      simpa [List.head?_drop] using hhead
    have hrest : code.toList.drop (position + 1) = rest := by
      rw [← List.tail_drop, hsuffix, List.tail_cons]
    have hlength : position + (byte :: rest).length = position + 1 + rest.length := by
      rw [List.length_cons]
      omega
    rw [hlength]
    cases skip with
    | zero => exact ih hrest (hstart.next hbyte)
    | succ skip =>
      have hshift : position + (skip + 1) = position + 1 + skip := by omega
      exact ih hrest (hshift ▸ hstart)

end JumpTable

namespace InstructionStart

open JumpTable

variable {code : Array UInt8} {i : Nat}

/-- Behind an instruction start that holds `byte`, the immediate of that byte is read. -/
theorem owed_take_add {byte : UInt8} {count : Nat} (howed : owed 0 (code.toList.take i) = 0)
    (hbyte : code[i]? = some byte) (hle : count ≤ immediateSize byte)
    (hfits : i + 1 + count ≤ code.size) :
    owed 0 (code.toList.take (i + 1 + count)) = immediateSize byte - count := by
  have hlist : code.toList[i]? = some byte := by simpa using hbyte
  have htake : code.toList.take (i + 1 + count) =
      code.toList.take i ++ byte :: (code.toList.drop (i + 1)).take count := by
    rw [List.take_add, List.take_add_one, hlist]
    simp
  have hlength : ((code.toList.drop (i + 1)).take count).length = count := by
    simp
    omega
  rw [htake, owed_append, howed, owed, owed_of_length_le (by omega), hlength]

/-- At an instruction start nothing is still to come. -/
theorem owed_take (start : InstructionStart code i) (hle : i ≤ code.size) :
    owed 0 (code.toList.take i) = 0 := by
  revert hle
  apply start.of_closed (P := fun i => i ≤ code.size → owed 0 (code.toList.take i) = 0)
  · intro _
    simp [owed]
  · intro i byte ih hbyte hle
    rw [owed_take_add (ih (by omega)) hbyte (Nat.le_refl _) hle, Nat.sub_self]

/-- Among the bytes of an immediate something is still to come. -/
theorem owed_take_of_immediate {byte : UInt8} {j : Nat} (start : InstructionStart code i)
    (hbyte : code[i]? = some byte) (hlt : i < j) (hle : j ≤ i + immediateSize byte)
    (hfits : j < code.size) : ∃ more, owed 0 (code.toList.take j) = more + 1 := by
  have hi := (Array.getElem?_eq_some_iff.1 hbyte).1
  obtain ⟨count, rfl⟩ := Nat.exists_eq_add_of_le hlt
  rw [owed_take_add (start.owed_take (by omega)) hbyte (by omega) (by omega)]
  exact ⟨immediateSize byte - count - 1, by omega⟩

end InstructionStart

/-! ## The table -/

namespace JumpTable

variable {code : Array UInt8} {i : Nat}

/-- The mark of a position is made by a pass that starts there. -/
theorem contains_ofCode_eq (code : Array UInt8) {i : Nat} (h : i ≤ code.size) :
    (ofCode code).contains i =
      (scan (owed 0 (code.toList.take i)) (code.toList.drop i))[0]?.getD false := by
  have hlength : (scan 0 (code.toList.take i)).length = i := by
    simpa using Nat.min_eq_left h
  have hsplit := scan_append 0 (code.toList.take i) (code.toList.drop i)
  rw [List.take_append_drop] at hsplit
  simp only [contains, ofCode, List.getElem?_toArray]
  rw [hsplit, List.getElem?_append_right (by omega), hlength, Nat.sub_self]

/-- The table marks exactly the instruction starts that hold the byte of a jump destination. -/
theorem contains_ofCode_iff (code : Array UInt8) (i : Nat) :
    (ofCode code).contains i = true ↔
      InstructionStart code i ∧ code[i]? = some Opcode.jumpdest.toByte := by
  refine ⟨start_of_contains, ?_⟩
  rintro ⟨hstart, hbyte⟩
  obtain ⟨hlt, hget⟩ := Array.getElem?_eq_some_iff.1 hbyte
  have hdrop : code.toList.drop i = Opcode.jumpdest.toByte :: code.toList.drop (i + 1) := by
    rw [List.drop_eq_getElem_cons (by simpa using hlt), Array.getElem_toList, hget]
  rw [contains_ofCode_eq code (Nat.le_of_lt hlt), hstart.owed_take (Nat.le_of_lt hlt), hdrop]
  simp [scan]

variable {byte : UInt8} {j : Nat}

/-- No byte of an immediate is a jump destination. -/
theorem contains_ofCode_of_immediate (start : InstructionStart code i) (hbyte : code[i]? = some byte)
    (hlt : i < j) (hle : j ≤ i + immediateSize byte) : (ofCode code).contains j = false := by
  by_cases hfits : j < code.size
  · obtain ⟨more, howed⟩ := start.owed_take_of_immediate hbyte hlt hle hfits
    rw [contains_ofCode_eq code (Nat.le_of_lt hfits), howed]
    cases code.toList.drop j <;> simp [scan]
  · have hnone : code[j]? = none := Array.getElem?_eq_none (by omega)
    rw [Bool.eq_false_iff]
    intro hcontains
    rw [(start_of_contains hcontains).2] at hnone
    cases hnone

/-- The bytes of an immediate do not matter to the table. -/
theorem ofCode_setIfInBounds (start : InstructionStart code i) (hbyte : code[i]? = some byte)
    (hlt : i < j) (hle : j ≤ i + immediateSize byte) (other : UInt8) :
    ofCode (code.setIfInBounds j other) = ofCode code := by
  by_cases hfits : j < code.size
  · obtain ⟨more, howed⟩ := start.owed_take_of_immediate hbyte hlt hle hfits
    have hin : j < code.toList.length := by simpa using hfits
    have hset : (code.setIfInBounds j other).toList =
        code.toList.take j ++ other :: code.toList.drop (j + 1) := by
      rw [Array.toList_setIfInBounds, List.set_eq_take_append_cons_drop, if_pos hin]
    have hkept : code.toList =
        code.toList.take j ++ code.toList[j] :: code.toList.drop (j + 1) := by
      rw [← List.drop_eq_getElem_cons hin, List.take_append_drop]
    rw [ofCode, ofCode, hset, scan_replace howed other code.toList[j], ← hkept]
  · rw [Array.setIfInBounds_eq_of_size_le (by omega)]

end JumpTable

namespace Machine

variable {σ : Type}

/-- The jump table of a machine is exact.  A position is a jump destination if and only if it is
inside the code, holds the byte 0x5b and is an instruction start.  In particular no byte of an
immediate is a jump destination, and what these bytes are, be it the byte of another push, has no
influence on the table.  Reading from left to right comes to an end behind the last byte, also where
the code ends inside an immediate, and the table has one mark for each byte. -/
theorem jump_destinations_exact (code data : Array UInt8) (gasLimit : UInt64) (context : Context)
    (policy : Policy σ) (memo : σ) :
    let table := (ofCode code data gasLimit context policy memo).state.jumpTable
    (∀ i, table.contains i = true ↔
        i < code.size ∧ code[i]? = some 0x5b ∧ InstructionStart code i) ∧
      (∀ p n, InstructionStart code p → 1 ≤ n → n ≤ 32 →
        code[p]? = some (UInt8.ofNat (0x5f + n)) → ∀ j, p < j → j ≤ p + n →
          table.contains j = false ∧
            ∀ other, JumpTable.ofCode (code.setIfInBounds j other) = table) ∧
      table.marks.size = code.size ∧
      ∃ stop, InstructionStart code stop ∧ code.size ≤ stop ∧ stop ≤ code.size + 32 := by
  intro table
  refine ⟨?_, ?_, ?_, ?_⟩
  · intro i
    constructor
    · intro hcontains
      obtain ⟨hstart, hbyte⟩ := (JumpTable.contains_ofCode_iff code i).1 hcontains
      exact ⟨(Array.getElem?_eq_some_iff.1 hbyte).1, hbyte, hstart⟩
    · rintro ⟨_, hbyte, hstart⟩
      exact (JumpTable.contains_ofCode_iff code i).2 ⟨hstart, hbyte⟩
  · intro p n hstart hpos hle hbyte j hlt hj
    have hsize : JumpTable.immediateSize (UInt8.ofNat (0x5f + n)) = n :=
      JumpTable.immediateSize_ofNat hpos hle
    rw [← hsize] at hj
    exact ⟨JumpTable.contains_ofCode_of_immediate hstart hbyte hlt hj,
      JumpTable.ofCode_setIfInBounds hstart hbyte hlt hj⟩
  · simp [table, ofCode, State.initial, JumpTable.ofCode]
  · have hstop := @JumpTable.start_of_owed code _ 0 0 rfl InstructionStart.zero
    refine ⟨_, hstop, ?_, hstop.le_size_add⟩
    simp

/-- The second immediate byte of this code is the byte of a push; the jump destination behind it is
one for any other byte, too. -/
theorem jump_destinations_exact_of_nested_push :
    let code : Array UInt8 := #[0x61, 0x5b, 0x7f, 0x5b, 0x60]
    let table := (ofCode code #[] 100 default Policy.permit ()).state.jumpTable
    InstructionStart code 0 ∧ code[0]? = some (UInt8.ofNat (0x5f + 2)) ∧
      table.contains 1 = false ∧ table.contains 3 = true ∧
        JumpTable.ofCode (code.setIfInBounds 2 0x00) = table := by
  intro code table
  have hbyte : code[0]? = some (UInt8.ofNat (0x5f + 2)) := by decide
  have hstart : InstructionStart code 3 :=
    InstructionStart.push InstructionStart.zero (by decide) (by decide) hbyte
  obtain ⟨hdestinations, himmediates, _⟩ :=
    jump_destinations_exact code #[] 100 default Policy.permit ()
  have hinside (j : Nat) (hlt : 0 < j) (hle : j ≤ 2) :=
    himmediates 0 2 InstructionStart.zero (by decide) (by decide) hbyte j hlt (by omega)
  exact ⟨InstructionStart.zero, hbyte, (hinside 1 (by decide) (by decide)).1,
    (hdestinations 3).2 ⟨by decide, by decide, hstart⟩, (hinside 2 (by decide) (by decide)).2 0x00⟩

end Machine

end MeteredMachine
