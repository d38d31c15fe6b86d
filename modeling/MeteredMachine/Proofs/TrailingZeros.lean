import MeteredMachine.Proofs.JumpDestination
import MeteredMachine.Proofs.PushImmediate
import MeteredMachine.Proofs.Run

/-!
# Zeros behind the code

Code behaves as if it were followed by zeros without end.  The zero byte is a stop, an
immediate that is cut short reads zeros, and a pass over the code finds no jump
destination among zeros.  So a run on the code and a run on the code with zeros behind it
go in lockstep, and end in states that differ in nothing but the code itself.

Main results:

- Theorem {lit}`JumpTable.contains_ofCode_append_zeros`: zeros behind the code do not change
  the jump destinations.
- Theorem {lit}`State.Sound.eval_withZeros`: an evaluation does not notice zeros behind the
  code.
- Theorem {lit}`Machine.zeros_behind_code` compares whole runs.
-/

namespace MeteredMachine

/-- Reading with a default does not tell the end from copies of the default behind it. -/
theorem getD_append_replicate {α : Type} (items : Array α) (count : Nat) (filler : α)
    (i : Nat) : (items ++ Array.replicate count filler)[i]?.getD filler =
      items[i]?.getD filler := by
  by_cases hlt : i < items.size
  · rw [Array.getElem?_append_left hlt]
  · rw [Array.getElem?_append_right (Nat.le_of_not_lt hlt),
      Array.getElem?_eq_none (Nat.le_of_not_lt hlt), Array.getElem?_replicate]
    split <;> rfl

/-! ## Jump destinations -/

namespace JumpTable

/-- A pass over zeros marks nothing, also where it starts inside an immediate. -/
theorem scan_zeros (skip count : Nat) :
    scan skip (List.replicate count 0) = List.replicate count false := by
  induction count generalizing skip with
  | zero => simp [scan]
  | succ count ih =>
    have hplain : immediateSize 0 = 0 := by decide
    have hmark : ((0 : UInt8) == Opcode.jumpdest.toByte) = false := by decide
    cases skip with
    | zero => simp [List.replicate_succ, scan, hplain, hmark, ih]
    | succ skip => simp [List.replicate_succ, scan, ih]

/-- Zeros behind the code do not change the jump destinations. -/
theorem contains_ofCode_append_zeros (code : Array UInt8) (count position : Nat) :
    (ofCode (code ++ Array.replicate count 0)).contains position =
      (ofCode code).contains position := by
  have hmarks : (scan 0 (code ++ Array.replicate count 0).toList).toArray =
      (scan 0 code.toList).toArray ++ Array.replicate count false := by
    simp [scan_append, scan_zeros]
  rw [contains, contains, ofCode, ofCode, hmarks, getD_append_replicate]

end JumpTable

/-! ## States -/

theorem Meter.charge_zero (meter : Meter) : meter.charge 0 = .ok meter := by
  rw [charge_of_le (Nat.zero_le _), UInt64.sub_zero, UInt64.add_zero]

namespace State

variable {code data : Array UInt8} {limit : UInt64} {s : State}

/-- A stop ends the machine and changes nothing. -/
theorem eval_of_stop (hcurrent : s.currentOpcode? = some .stop) :
    s.eval = { state := s, exit? := some (.success .stopped) } := by
  have hinputs : ¬ s.stack.size < Opcode.stop.entry.inputs := Nat.not_lt_zero _
  have hcharge : s.gas.charge Schedule.zero = .ok s.gas := s.gas.charge_zero
  rw [eval_of_some hcurrent, evalOpcode, if_neg hinputs]
  simp only [Opcode.entry, stepCost, hcharge]
  rfl

/-- The state with zeros behind its code. -/
def withZeros (count : Nat) (s : State) : State :=
  { s with
    code := s.code ++ Array.replicate count 0
    jumpTable := .ofCode (s.code ++ Array.replicate count 0) }

theorem unnoticed_withZeros (count : Nat) : Unnoticed (withZeros count) where
  withStatus _ _ := rfl
  applyControl _ control := by cases control <;> rfl

/-- Inside the code the byte is the same, and behind it a zero may stand where there was
none. -/
theorem currentByte?_withZeros (count : Nat) (s : State) :
    (s.withZeros count).currentByte? = s.currentByte? ∨
      (s.currentByte? = none ∧ (s.withZeros count).currentByte? = some 0) := by
  simp only [currentByte?, withZeros]
  by_cases hlt : s.pc < s.code.size
  · exact Or.inl (Array.getElem?_append_left hlt)
  · rw [Array.getElem?_append_right (Nat.le_of_not_lt hlt),
      Array.getElem?_eq_none (Nat.le_of_not_lt hlt), Array.getElem?_replicate]
    split
    next => exact Or.inr ⟨rfl, rfl⟩
    next => exact Or.inl rfl

theorem currentOpcode?_withZeros {op : Opcode} (count : Nat) (h : s.currentOpcode? = some op) :
    (s.withZeros count).currentOpcode? = some op := by
  rcases currentByte?_withZeros count s with hsame | ⟨hnone, _⟩
  · rw [currentOpcode?, hsame]
    exact h
  · rw [currentOpcode?, hnone] at h
    cases h

/-- An immediate that is cut short reads the zeros that were not there. -/
theorem immediate_withZeros (count : Nat) {size : Nat} (hle : size ≤ 32) (s : State) :
    (s.withZeros count).immediate size = s.immediate size := by
  simp only [immediate_eq hle, withZeros, getD_append_replicate]

theorem Sound.jumpControl_withZeros (h : s.Sound code data limit) (count : Nat)
    (destination : Word) :
    (s.withZeros count).jumpControl destination = s.jumpControl destination := by
  have htable (position : Nat) :
      (s.withZeros count).jumpTable.contains position = s.jumpTable.contains position := by
    rw [withZeros, JumpTable.contains_ofCode_append_zeros, h.table_eq, h.code_eq]
  rw [jumpControl, jumpControl, htable]

end State

/-! ## Evaluations -/

namespace Opcode

variable {code data : Array UInt8} {limit : UInt64} {s : State}

theorem results_withZeros (op : Opcode) (count : Nat) (s : State) (operands : List Word) :
    op.results (s.withZeros count) operands = op.results s operands := by
  cases op with
  | push index => rw [results, results, State.immediate_withZeros count index.isLt]
  | _ => rfl

theorem control_withZeros (op : Opcode) (h : s.Sound code data limit) (count : Nat)
    (operands : List Word) : op.control (s.withZeros count) operands = op.control s operands := by
  cases op with
  | jump | jumpi => simp only [control, h.jumpControl_withZeros count]
  | _ => rfl

theorem outcome_withZeros (op : Opcode) (h : s.Sound code data limit) (count : Nat)
    (operands rest : List Word) :
    op.outcome (s.withZeros count) operands rest =
      (op.outcome s operands rest).map (State.withZeros count) := by
  apply (State.unnoticed_withZeros count).outcome_map Iff.rfl
    (op.control_withZeros h count operands)
  rw [completed, results_withZeros]
  cases op <;> rfl

end Opcode

namespace State

variable {code data : Array UInt8} {limit : UInt64} {s : State}

/-- The payment for the same instruction with zeros behind the code. -/
def Payment.withZeros (p : Payment s) (count : Nat) : Payment (s.withZeros count) where
  op := p.op
  operands := p.operands
  rest := p.rest
  cost := p.cost
  gas := p.gas
  current_eq := currentOpcode?_withZeros count p.current_eq
  stack_eq := p.stack_eq
  length_operands := p.length_operands
  price_eq := p.price_eq
  charge_eq := p.charge_eq

/-- Where there is no defined instruction, zeros behind the code make no difference either:
the end of the code and the zero byte both stop the machine. -/
theorem eval_withZeros_of_none (count : Nat) (hcurrent : s.currentOpcode? = none) :
    (s.withZeros count).eval = s.eval.map (withZeros count) := by
  rw [eval_of_none hcurrent, undecodedReason]
  rcases currentByte?_withZeros count s with hsame | ⟨hnone, hzero⟩
  · have hundecoded : (s.withZeros count).currentOpcode? = none := by
      rw [currentOpcode?, hsame]
      exact hcurrent
    rw [eval_of_none hundecoded, undecodedReason, hsame]
    rfl
  · have hstop : (s.withZeros count).currentOpcode? = some .stop := by
      rw [currentOpcode?, hzero]
      rfl
    rw [eval_of_stop hstop, hnone]
    rfl

/-- An evaluation does not notice zeros behind the code. -/
theorem Sound.eval_withZeros (h : s.Sound code data limit) (count : Nat) :
    (s.withZeros count).eval = s.eval.map (withZeros count) := by
  -- Only the first check reads the code; behind it the instruction is the same.
  cases s.checked with
  | undecoded hcurrent => exact eval_withZeros_of_none count hcurrent
  | missing hcurrent hinputs =>
    rw [eval_of_missing hcurrent hinputs,
      eval_of_missing (s := s.withZeros count) (currentOpcode?_withZeros count hcurrent) hinputs]
    rfl
  | unpriced hcurrent hinputs hprice =>
    rw [eval_of_unpriced hcurrent hinputs hprice,
      eval_of_unpriced (s := s.withZeros count) (currentOpcode?_withZeros count hcurrent) hinputs
        hprice]
    rfl
  | unpaid hcurrent hinputs hprice hcharge =>
    rw [eval_of_unpaid hcurrent hinputs hprice hcharge,
      eval_of_unpaid (s := s.withZeros count) (currentOpcode?_withZeros count hcurrent) hinputs
        hprice hcharge]
    rfl
  | paid p =>
    rw [p.eval_eq h.stack_le, (p.withZeros count).eval_eq h.stack_le]
    exact p.op.outcome_withZeros (h.charged p) count p.operands p.rest

theorem Sound.next_withZeros (h : s.Sound code data limit) (count : Nat) :
    (s.withZeros count).next = s.next.withZeros count := by
  cases hstatus : s.status with
  | exited reason => rw [next_of_exited hstatus, next_of_exited (s := s.withZeros count) hstatus]
  | running =>
    rw [next_of_running hstatus, next_of_running (s := s.withZeros count) hstatus,
      State.advanced, State.advanced, h.eval_withZeros, (unnoticed_withZeros count).recorded_map]

end State

/-! ## Runs -/

namespace Machine

/-- Code behaves as if it were followed by zeros without end: with any number of zeros behind
the code, a run ends for the same reason, with the same program counter, stack, memory, meter
and return data, and every position is a jump destination in both or in neither, before the
run and after it. -/
theorem zeros_behind_code (code data : Array UInt8) (count : Nat) (gasLimit : UInt64)
    (context : Context) (words : List Word) :
    let start := unguarded code data gasLimit context words
    let start' := unguarded (code ++ Array.replicate count 0) data gasLimit context words
    let final := start.run.state
    let final' := start'.run.state
    (∃ reason, final.status = .exited reason ∧ final'.status = .exited reason) ∧
      final'.pc = final.pc ∧ final'.stack = final.stack ∧ final'.memory = final.memory ∧
      final'.gas = final.gas ∧ final'.returnData = final.returnData ∧
      ∀ position,
        start'.state.jumpTable.contains position = start.state.jumpTable.contains position ∧
          final'.jumpTable.contains position = final.jumpTable.contains position := by
  intro start start' final final'
  -- The runs are related by a function on states, which each step commutes with.
  have hfinal : final' = final.withZeros count := by
    apply related_run_unguarded (R := fun s t => t = s.withZeros count)
    · intro s t hs _ hst
      rw [hst, hs.next_withZeros]
    · rfl
  have hsound : final.Sound code data gasLimit :=
    sound_performAll (sound_unguarded code data gasLimit context words) [.run]
  obtain ⟨reason, hexited⟩ := exists_exit_run_unguarded code data gasLimit context words
  rw [hfinal]
  refine ⟨⟨reason, hexited, hexited⟩, rfl, rfl, rfl, rfl, rfl, ?_⟩
  intro position
  constructor
  · exact JumpTable.contains_ofCode_append_zeros code count position
  · rw [State.withZeros, JumpTable.contains_ofCode_append_zeros, hsound.table_eq, hsound.code_eq]

end Machine

end MeteredMachine
