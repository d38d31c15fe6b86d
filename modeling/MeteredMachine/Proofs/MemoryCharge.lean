import Mathlib.Algebra.BigOperators.Group.Finset.Basic
import MeteredMachine.Proofs.Invariant

/-!
# Memory is paid for exactly

A step pays for the growth of memory before it happens, and may still fail between
the charge and the effect.  Nevertheless the books agree at every moment of every
run: the gas spent so far is the sum of the flat parts of all prices that were paid
and the total price of the memory that is there.

Main results:

- Definition {lit}`Machine.flatCharge` is the flat part of what the next step pays.
- Theorem {lit}`Machine.spent_step`: a step spends its flat part and what it adds to the
  total price of memory.
- Theorem {lit}`Machine.spent_eq_flat_add_memoryTotal` says the same about whole runs.
-/

namespace MeteredMachine

/-! ## What an evaluation spends -/

namespace Opcode

/-- An instruction that leaves more words than it takes does not touch memory. -/
theorem memoryAfter_of_lt {op : Opcode} (h : op.entry.inputs < op.entry.outputs) (m : Memory)
    (operands : List Word) : op.memoryAfter m operands = m := by
  cases op with
  | mload | mstore | mstore8 | ret => exact absurd h (by decide)
  | _ => rfl

/-- Whatever the outcome of an instruction, memory is as the instruction leaves it: where
there is no room for its results, it would not have touched memory. -/
theorem memory_outcome {op : Opcode} {s : State} {operands rest : List Word}
    (hlength : operands.length = op.entry.inputs)
    (hbound : operands.length + rest.length ≤ Schedule.maxStackSize) :
    (op.outcome s operands rest).state.memory = op.memoryAfter s.memory operands := by
  rcases op.state_outcome_cases s operands rest with ⟨heq, hfull⟩ | ⟨_, _, heq⟩
  · rw [heq, memoryAfter_of_lt (by omega)]
  · rw [heq]
    rfl

end Opcode

namespace State

variable {code data : Array UInt8} {limit : UInt64} {s : State}

/-- The flat part of the price that the next evaluation pays, and zero if it pays none. -/
def flatCharge (s : State) : Nat :=
  match s.paidOpcode? with
  | none => 0
  | some op => op.entry.cost.flatPart s.stack

/-- A step that is paid for leaves memory that covers the range of its price. -/
theorem Payment.size_memory_advanced (p : Payment s)
    (hbound : s.stack.size ≤ Schedule.maxStackSize) :
    s.advanced.memory.size = (p.op.entry.cost.covered s.stack s.memory).size := by
  have hfit : p.operands.length + p.rest.length ≤ Schedule.maxStackSize := by
    rw [← p.size_stack]
    exact hbound
  obtain ⟨status, heq⟩ := s.advanced_eq
  rw [heq, p.eval_eq hbound, Payment.outcome]
  simp only [Opcode.memory_outcome p.length_operands hfit, p.stack_eq]
  exact Opcode.size_memoryAfter s.memory p.length_operands

/-- An evaluation spends its flat part and what it adds to the total price of memory. -/
theorem Sound.spent_advanced (h : s.Sound code data limit) :
    s.advanced.gas.spent.toNat + memoryTotal (s.memory.size / 32) =
      s.gas.spent.toNat + s.flatCharge + memoryTotal (s.advanced.memory.size / 32) := by
  rw [flatCharge]
  rcases eval_cases h.stack_le with ⟨hpaid, reason, heval⟩ | ⟨p, hpaid, _⟩
  · rw [hpaid, advanced_of_unchanged heval]
    rfl
  · have hspent := (h.balanced.toNat_charge p.charge_eq).2
    have hprice := stepCost_add_memoryTotal h.memory_aligned p.price_eq
    rw [hpaid, p.size_memory_advanced h.stack_le, p.gas_advanced h.stack_le, hspent]
    simp only
    omega

end State

/-! ## What a run spends -/

namespace Machine

variable {σ : Type} {m : Machine σ} {code data : Array UInt8} {limit : UInt64}

/-- The flat part of the price that the next step pays, and zero if it pays none: because
the machine has exited, because the policy refuses the step, or because a check fails. -/
def flatCharge (m : Machine σ) : Nat :=
  match m.status, m.verdict.refusal? with
  | .running, none => m.state.flatCharge
  | _, _ => 0

/-- A step spends its flat part and what it adds to the total price of memory. -/
theorem spent_step (h : m.state.Sound code data limit) :
    m.step.state.gas.spent.toNat + memoryTotal (m.state.memory.size / 32) =
      m.state.gas.spent.toNat + m.flatCharge + memoryTotal (m.step.state.memory.size / 32) := by
  rw [flatCharge]
  rcases step_cases m with
    ⟨reason, hstatus, hstep⟩ | ⟨hstatus, fault, hverdict, hstep⟩ | ⟨hstatus, hverdict, hstep⟩
  · rw [hstatus, hstep]
    rfl
  · rw [hstatus, hverdict, hstep]
    rfl
  · rw [hstatus, hverdict, hstep]
    exact h.spent_advanced

/-- Any number of steps spend the sum of their flat parts and what they add to the total
price of memory. -/
theorem spent_iterate_step (h : m.state.Sound code data limit) (rounds : Nat) :
    (step^[rounds] m).state.gas.spent.toNat + memoryTotal (m.state.memory.size / 32) =
      m.state.gas.spent.toNat + ∑ k ∈ Finset.range rounds, (step^[k] m).flatCharge +
        memoryTotal ((step^[rounds] m).state.memory.size / 32) := by
  induction rounds with
  | zero => simp
  | succ rounds ih =>
    have hstep := spent_step (sound_iterate_step h rounds)
    rw [Function.iterate_succ_apply', Finset.sum_range_succ]
    omega

/-- At every moment of a run, under every policy and however the run goes on or has ended,
the gas spent is the sum of the flat parts of all prices that were paid and the total price
of the memory that is there.  So memory never exceeds what has been paid for, and a step
that does not grow memory pays its flat part only. -/
theorem spent_eq_flat_add_memoryTotal (code data : Array UInt8) (gasLimit : UInt64)
    (context : Context) (policy : Policy σ) (memo : σ) (words : List Word) (rounds : Nat) :
    let start := (ofCode code data gasLimit context policy memo).seed words
    let m := step^[rounds] start
    m.state.gas.spent.toNat =
        ∑ k ∈ Finset.range rounds, (step^[k] start).flatCharge +
          memoryTotal (m.state.memory.size / 32) ∧
      memoryTotal (m.state.memory.size / 32) ≤ m.state.gas.spent.toNat ∧
      (m.step.state.memory.size = m.state.memory.size →
        m.step.state.gas.spent.toNat = m.state.gas.spent.toNat + m.flatCharge) := by
  intro start m
  have hstart := sound_start code data gasLimit context policy memo words
  have hempty : memoryTotal (start.state.memory.size / 32) = 0 := by
    have hsize : start.state.memory.size = 0 := rfl
    rw [hsize]
    rfl
  have hfresh : start.state.gas.spent.toNat = 0 := rfl
  have hrun := spent_iterate_step hstart rounds
  rw [hempty, hfresh, Nat.add_zero, Nat.zero_add] at hrun
  refine ⟨hrun, hrun ▸ Nat.le_add_left _ _, ?_⟩
  intro hsame
  have hstep := spent_step (sound_iterate_step hstart rounds)
  rw [hsame] at hstep
  exact Nat.add_right_cancel hstep

/-- Storing a word behind two empty ones pays for three words of memory, and the stop that
follows for none. -/
theorem spent_eq_flat_add_memoryTotal_of_store :
    let start :=
      (ofCode #[0x60, 0x01, 0x60, 0x40, 0x52] #[] 100 default Policy.permit ()).seed []
    let m := step^[3] start
    m.state.gas.spent.toNat = 18 ∧ m.state.memory.size = 96 ∧
      ∑ k ∈ Finset.range 3, (step^[k] start).flatCharge = 9 ∧
      m.step.state.memory.size = m.state.memory.size ∧
      m.step.state.gas.spent.toNat = m.state.gas.spent.toNat + m.flatCharge := by
  intro start m
  have hspent : m.state.gas.spent.toNat = 18 := by decide +kernel
  have hsize : m.state.memory.size = 96 := by decide +kernel
  have hsame : m.step.state.memory.size = m.state.memory.size := by decide +kernel
  have hthree : memoryTotal (96 / 32) = 9 := by decide
  obtain ⟨hsum, _, hstep⟩ := spent_eq_flat_add_memoryTotal #[0x60, 0x01, 0x60, 0x40, 0x52] #[]
    100 default Policy.permit () [] 3
  dsimp only [start, m] at hspent hsize hsame ⊢
  rw [hspent, hsize, hthree] at hsum
  exact ⟨hspent, hsize, by omega, hsame, hstep hsame⟩

end Machine

end MeteredMachine
