import MeteredMachine.Proofs.Step
import MeteredMachine.Proofs.WordArithmetic

/-!
# Completed instructions

A step completes its instruction if it leaves the machine running or ends it with success.  The
catalog says how many items an instruction takes from the stack and how many it gives; the bodies
of the instructions pop, push, copy and exchange on their own account.  On completed steps the two
agree: the items below the operands stay where they are, and on top of them lie as many items as
the catalog says, with the values that the instruction is named for.

Main results:

- Definition {lit}`Machine.completedOpcode?` is the instruction that the next step completes.
- Theorem {lit}`Machine.exists_payment_of_completed`: a completed step has paid for its instruction
  and replaced its operands by its results.
- Definition {lit}`Opcode.Gives` says which items an instruction gives for those it takes.
- Theorem {lit}`Machine.stack_of_completed` says that the catalog describes every completed step.
-/

namespace MeteredMachine

/-! ## Completion -/

namespace State

variable {s : State} {op : Opcode}

/-- An evaluation of a defined instruction that does not end in a fault has paid for the
instruction, had room for its results and handed on control. -/
theorem exists_payment_of_advanced (hbound : s.stack.size ≤ Schedule.maxStackSize)
    (hcurrent : s.currentOpcode? = some op)
    (hclean : ∀ fault, s.advanced.status ≠ .exited (.fault fault)) :
    ∃ (p : Payment s) (pc : Nat) (status : Status), p.op = op ∧
      s.advanced = { p.op.completed p.charged p.operands p.rest with pc, status } := by
  have hfault {fault : Fault} {t : State}
      (heval : s.eval = { state := t, exit? := some (.fault fault) }) : False := by
    apply hclean fault
    rw [advanced, heval]
    rfl
  cases s.checked with
  | undecoded hnone => cases hcurrent.symm.trans hnone
  | missing hop hinputs => exact (hfault (eval_of_missing hop hinputs)).elim
  | unpriced hop hinputs hprice => exact (hfault (eval_of_unpriced hop hinputs hprice)).elim
  | unpaid hop hinputs hprice hcharge =>
    exact (hfault (eval_of_unpaid hop hinputs hprice hcharge)).elim
  | paid p =>
    have hop : p.op = op := Option.some_inj.1 (p.current_eq.symm.trans hcurrent)
    have heval := p.eval_eq hbound
    rw [Payment.outcome] at heval
    rcases p.op.outcome_cases p.charged p.operands p.rest with
      ⟨hout, _⟩ | ⟨_, ⟨fault, _, hout⟩ | ⟨control, _, hout⟩⟩
    · exact (hfault (heval.trans hout)).elim
    · exact (hfault (heval.trans hout)).elim
    · rw [advanced, heval, hout]
      cases control <;> exact ⟨p, _, _, hop, rfl⟩

end State

namespace Machine

variable {σ : Type} {m : Machine σ} {op : Opcode}

/-- The instruction that the next step completes.  There is none if the machine has exited, if
the step ends in a fault, a refusal by the policy included, or if the code has ended. -/
def completedOpcode? (m : Machine σ) : Option Opcode :=
  match m.status, m.step.status with
  | .exited _, _ => none
  | .running, .exited (.fault _) => none
  | .running, _ => m.state.currentOpcode?

theorem completedOpcode?_eq_some (h : m.completedOpcode? = some op) :
    m.state.currentOpcode? = some op ∧ m.step.state = m.state.advanced ∧
      ∀ fault, m.step.status ≠ .exited (.fault fault) := by
  unfold completedOpcode? at h
  split at h
  next => cases h
  next => cases h
  next hstatus hclean =>
    refine ⟨h, ?_, hclean⟩
    rcases step_cases m with ⟨reason, hexited, _⟩ | ⟨_, fault, _, hstep⟩ | ⟨_, _, hstep⟩
    · cases hstatus.symm.trans hexited
    · exact (hclean fault (congrArg State.status hstep)).elim
    · exact hstep

/-- A completed step has paid for its instruction and replaced its operands by its results. -/
theorem exists_payment_of_completed (hbound : m.state.stack.size ≤ Schedule.maxStackSize)
    (h : m.completedOpcode? = some op) :
    ∃ (p : State.Payment m.state) (pc : Nat) (status : Status), p.op = op ∧
      m.step.state = { p.op.completed p.charged p.operands p.rest with pc, status } := by
  obtain ⟨hcurrent, hstep, hclean⟩ := completedOpcode?_eq_some h
  rw [hstep]
  apply State.exists_payment_of_advanced hbound hcurrent
  intro fault
  rw [← hstep]
  exact hclean fault

end Machine

/-! ## Items -/

namespace Opcode

/-- Which items an instruction gives for those it takes, both from the bottom up.  Functions give
their value, where the top item is the first operand; a copy leaves the items in place and adds the
deepest of them on top; an exchange swaps the first and the last. -/
def Gives (op : Opcode) (taken given : List Word) : Prop :=
  match op with
  | binary f => ∃ a b result, taken = [b, a] ∧ given = [result] ∧
      result.toNat = f.value a.toNat b.toNat
  | unary f => ∃ a result, taken = [a] ∧ given = [result] ∧ result.toNat = f.value a.toNat
  | dup _ => ∃ deepest above, taken = deepest :: above ∧ given = taken ++ [deepest]
  | swap _ => ∃ first between last, taken = first :: between ++ [last] ∧
      given = last :: between ++ [first]
  | _ => True

/-- A list that is not empty has a last item. -/
theorem exists_concat_of_length {items : List Word} {n : Nat} (h : items.length = n + 1) :
    ∃ front last, items = front ++ [last] := by
  rcases List.eq_nil_or_concat items with rfl | ⟨front, last, rfl⟩
  · cases h
  · exact ⟨front, last, by simp⟩

/-- The results of an instruction are what it gives for its operands. -/
theorem gives_results {op : Opcode} {operands : List Word} (s : State)
    (hlength : operands.length = op.entry.inputs) :
    op.Gives operands.reverse (op.results s operands).reverse := by
  cases op with
  | binary f =>
    obtain ⟨a, b, rfl⟩ := List.length_eq_two.1 hlength
    exact ⟨a, b, _, rfl, rfl, f.toNat_apply a b⟩
  | unary f =>
    obtain ⟨a, rfl⟩ := List.length_eq_one_iff.1 hlength
    exact ⟨a, _, rfl, rfl, f.toNat_apply a⟩
  | dup index =>
    obtain ⟨above, deepest, rfl⟩ := exists_concat_of_length hlength
    have hindex : above.length = index.val := by simpa [entry] using hlength
    exact ⟨deepest, above.reverse, by simp, by simp [results, ← hindex]⟩
  | swap index =>
    cases operands with
    | nil => cases hlength
    | cons top rest =>
      obtain ⟨between, deepest, rfl⟩ := exists_concat_of_length (Nat.succ.inj hlength)
      have hindex : between.length = index.val := by simpa [entry] using hlength
      exact ⟨deepest, between.reverse, top, by simp, by simp [results, ← hindex]⟩
  | _ => trivial

end Opcode

namespace Machine

variable {σ : Type}

/-- The catalog describes every completed step, on any machine with a stack within its limit.  The
operands are there; the items below them stay unchanged and in order; above them lie as many items
as the catalog says, and they are what the instruction gives for its operands. -/
theorem stack_of_completed (m : Machine σ) (hstack : m.state.stack.size ≤ 1024) (op : Opcode)
    (hcompleted : m.completedOpcode? = some op) :
    let before := m.state.stack.items.toList
    let below := before.length - op.entry.inputs
    op.entry.inputs ≤ before.length ∧
      ∃ given, m.step.state.stack.items.toList = before.take below ++ given ∧
        given.length = op.entry.outputs ∧ op.Gives (before.drop below) given := by
  intro before below
  obtain ⟨p, pc, status, rfl, hstep⟩ := exists_payment_of_completed hstack hcompleted
  have hbefore : before = p.rest.reverse ++ p.operands.reverse := by
    simp [before, p.stack_eq, Stack.ofList]
  have hbelow : below = p.rest.reverse.length := by
    simp [below, hbefore, p.length_operands]
  refine ⟨?_, (p.op.results p.charged p.operands).reverse, ?_, ?_, ?_⟩
  · simp [hbefore, p.length_operands]
  · rw [hstep, hbefore, hbelow, List.take_left]
    simp [Opcode.completed, Stack.ofList]
  · rw [List.length_reverse, Opcode.length_results _ p.length_operands]
  · rw [hbefore, hbelow, List.drop_left]
    exact Opcode.gives_results _ p.length_operands

/-- A power that wraps to zero, above an item that stays. -/
theorem stack_of_completed_of_exp :
    let m := (ofCode #[0x0a] #[] 1000 default Policy.permit ()).seed [7, 256, 2]
    m.state.stack.size ≤ 1024 ∧ m.completedOpcode? = some (.binary .exp) ∧
      ∃ result, m.step.state.stack.items.toList = [7, result] ∧
        result.toNat = 2 ^ 256 % 2 ^ 256 := by
  intro m
  have hstack : m.state.stack.size ≤ 1024 := by decide
  have hcompleted : m.completedOpcode? = some (.binary .exp) := by decide +kernel
  obtain ⟨_, given, hafter, _, a, b, result, htaken, rfl, hresult⟩ :=
    stack_of_completed m hstack (.binary .exp) hcompleted
  have hoperands : [(256 : Word), 2] = [b, a] := htaken
  cases hoperands
  exact ⟨hstack, hcompleted, result, hafter, hresult⟩

end Machine

end MeteredMachine
