import Mathlib.Data.List.Basic
import MeteredMachine.Machine.Instruction
import MeteredMachine.Proofs.Metering
import MeteredMachine.Proofs.Pricing

/-!
# Outcomes of instructions

The body of an instruction takes its operands one by one and may fail on the way.
This module describes the whole effect at once.  An instruction that has its
operands and is paid for either finds the stack too full for its results and changes
nothing, or replaces its operands by its results, updates memory and return data,
and hands on control.  Results, memory and control are functions of the operands;
nothing below the operands is looked at.

Main results:

- Definition {lit}`Opcode.outcome` is the description.
- Theorem {lit}`Effect.ofResult_ofOpcode`: every body has the described outcome on a
  stack within its limit.
- Theorem {lit}`State.checked`: the checks of an evaluation end in one of five ways, and a
  lemma for each says what the evaluation does then.
-/

namespace MeteredMachine

/-! ## Description -/

/-- Control of a jump, which has to go to a jump destination; the fault names the
destination as far as it fits a host size. -/
def State.jumpControl (s : State) (destination : Word) : Except Fault Control :=
  if destination.toNat < Word.sizeLimit ∧ s.jumpTable.contains destination.toNat then
    .ok (.jump destination.toNat)
  else .error (.invalidJump (min destination.toNat (Word.sizeLimit - 1)))

/-- The state and the exit reason that the result of a body stands for. -/
def State.Evaluated.ofResult : EStateM.Result Fault State Control → State.Evaluated
  | .ok control s => s.applyControl control
  | .error fault s => { state := s, exit? := some (.fault fault) }

namespace Opcode

/-- The words that an instruction leaves in place of its operands, from the top down. -/
def results (op : Opcode) (s : State) (operands : List Word) : List Word :=
  match op with
  | binary op => [op.apply (operands.getD 0 0) (operands.getD 1 0)]
  | unary op => [op.apply (operands.getD 0 0)]
  | mload => [(s.memory.loadWord (operands.getD 0 0).toNat).value]
  | pc => [Word.ofNat s.pc]
  | msize => [Word.ofNat s.memory.size]
  | gas => [Word.ofUInt64 s.gas.remaining]
  | push0 => [0]
  | push index => [s.immediate (index.val + 1)]
  | dup index => operands.getD index.val 0 :: operands
  | swap index =>
    (operands.set 0 (operands.getD (index.val + 1) 0)).set (index.val + 1) (operands.getD 0 0)
  | stop | pop | mstore | mstore8 | jump | jumpi | jumpdest | ret => []

/-- The memory that an instruction leaves. -/
def memoryAfter (op : Opcode) (memory : Memory) (operands : List Word) : Memory :=
  match op with
  | mload => memory.cover (operands.getD 0 0).toNat Word.byteCount
  | mstore => memory.storeWord (operands.getD 0 0).toNat (operands.getD 1 0)
  | mstore8 => memory.storeByte (operands.getD 0 0).toNat (operands.getD 1 0).lowUInt64.toUInt8
  | ret => memory.cover (operands.getD 0 0).toNat (operands.getD 1 0).toNat
  | _ => memory

/-- The return data that an instruction leaves. -/
def returnDataAfter (op : Opcode) (s : State) (operands : List Word) : List UInt8 :=
  match op with
  | ret => (s.memory.load (operands.getD 0 0).toNat (operands.getD 1 0).toNat).value
  | _ => s.returnData

/-- Where an instruction hands control, or why it cannot. -/
def control (op : Opcode) (s : State) (operands : List Word) : Except Fault Control :=
  match op with
  | stop => .ok (.exit .stopped)
  | ret => .ok (.exit .returned)
  | jump => s.jumpControl (operands.getD 0 0)
  | jumpi =>
    if (operands.getD 1 0).isZero then .ok (.advance 1) else s.jumpControl (operands.getD 0 0)
  | _ => .ok (.advance (1 + op.immediateSize))

/-- The state in which an instruction has replaced its operands and updated memory and
return data; the program counter has not moved yet. -/
def completed (op : Opcode) (s : State) (operands rest : List Word) : State :=
  { s with
    stack := .ofList (op.results s operands ++ rest)
    memory := op.memoryAfter s.memory operands
    returnData := op.returnDataAfter s operands }

/-- The outcome of an instruction whose operands lie on top of `rest` and whose price
is paid. -/
def outcome (op : Opcode) (s : State) (operands rest : List Word) : State.Evaluated :=
  if rest.length + op.entry.outputs > Schedule.maxStackSize then
    { state := s, exit? := some (.fault .stackOverflow) }
  else
    match op.control s operands with
    | .ok control => (op.completed s operands rest).applyControl control
    | .error fault =>
      { state := op.completed s operands rest, exit? := some (.fault fault) }

/-! ## Shape of an outcome -/

/-- A jump either goes to a jump destination or is a fault that names a destination. -/
theorem jumpControl_cases (s : State) (destination : Word) :
    (s.jumpControl destination = .ok (.jump destination.toNat) ∧
        s.jumpTable.contains destination.toNat = true) ∨
      ∃ position, s.jumpControl destination = .error (.invalidJump position) := by
  rw [State.jumpControl]
  split
  next h => exact Or.inl ⟨rfl, h.2⟩
  next => exact Or.inr ⟨_, rfl⟩

/-- Control goes behind the instruction, to a jump destination, or out of the machine;
only jumps can fail, and only two instructions end the machine. -/
theorem control_cases (op : Opcode) (s : State) (operands : List Word) :
    (op.control s operands = .ok (.advance (1 + op.immediateSize)) ∧ op ≠ stop ∧ op ≠ ret) ∨
      (∃ position, op.control s operands = .ok (.jump position) ∧
        s.jumpTable.contains position = true ∧ op ≠ stop ∧ op ≠ ret) ∨
      (op = stop ∧ op.control s operands = .ok (.exit .stopped)) ∨
      (op = ret ∧ op.control s operands = .ok (.exit .returned)) ∨
      ∃ position, op.control s operands = .error (.invalidJump position) ∧ op ≠ ret := by
  cases op with
  | stop => exact Or.inr (Or.inr (Or.inl ⟨rfl, rfl⟩))
  | ret => exact Or.inr (Or.inr (Or.inr (Or.inl ⟨rfl, rfl⟩)))
  | jump =>
    rcases jumpControl_cases s (operands.getD 0 0) with ⟨hjump, htable⟩ | ⟨position, hfault⟩
    · exact Or.inr (Or.inl ⟨_, hjump, htable, by simp, by simp⟩)
    · exact Or.inr (Or.inr (Or.inr (Or.inr ⟨position, hfault, by simp⟩)))
  | jumpi =>
    rw [control]
    split
    next => exact Or.inl ⟨rfl, by simp, by simp⟩
    next =>
      rcases jumpControl_cases s (operands.getD 0 0) with ⟨hjump, htable⟩ | ⟨position, hfault⟩
      · exact Or.inr (Or.inl ⟨_, hjump, htable, by simp, by simp⟩)
      · exact Or.inr (Or.inr (Or.inr (Or.inr ⟨position, hfault, by simp⟩)))
  | _ => exact Or.inl ⟨rfl, by simp, by simp⟩

/-- An outcome leaves the state alone for want of room, or completes the instruction and
hands on control as far as that is possible. -/
theorem outcome_cases (op : Opcode) (s : State) (operands rest : List Word) :
    (op.outcome s operands rest = { state := s, exit? := some (.fault .stackOverflow) } ∧
        Schedule.maxStackSize < rest.length + op.entry.outputs) ∨
      (rest.length + op.entry.outputs ≤ Schedule.maxStackSize ∧
        ((∃ fault, op.control s operands = .error fault ∧
            op.outcome s operands rest =
              { state := op.completed s operands rest, exit? := some (.fault fault) }) ∨
          ∃ control, op.control s operands = .ok control ∧
            op.outcome s operands rest =
              (op.completed s operands rest).applyControl control)) := by
  rw [outcome]
  split
  next hfull => exact Or.inl ⟨rfl, hfull⟩
  next hroom =>
    refine Or.inr ⟨by omega, ?_⟩
    cases hcontrol : op.control s operands with
    | error fault => exact Or.inl ⟨fault, rfl, rfl⟩
    | ok control => exact Or.inr ⟨control, rfl, rfl⟩

/-- Only jumps cannot hand on control, and they just take their operands. -/
theorem completed_of_control_error {op : Opcode} {s : State} {operands : List Word} {fault : Fault}
    (h : op.control s operands = .error fault) (rest : List Word) :
    op.completed s operands rest = { s with stack := .ofList rest } := by
  cases op with
  | jump | jumpi => rfl
  | _ => cases h

/-- In terms of the state, an outcome leaves it alone for want of room, or completes the
instruction and may move the program counter. -/
theorem state_outcome_cases (op : Opcode) (s : State) (operands rest : List Word) :
    ((op.outcome s operands rest).state = s ∧
        Schedule.maxStackSize < rest.length + op.entry.outputs) ∨
      (rest.length + op.entry.outputs ≤ Schedule.maxStackSize ∧
        ∃ pc, (op.outcome s operands rest).state =
          { op.completed s operands rest with pc }) := by
  rcases op.outcome_cases s operands rest with
    ⟨heq, hfull⟩ | ⟨hroom, ⟨fault, _, heq⟩ | ⟨control, _, heq⟩⟩
  · rw [heq]
    exact Or.inl ⟨rfl, hfull⟩
  · rw [heq]
    exact Or.inr ⟨hroom, _, rfl⟩
  · rw [heq]
    cases control <;> exact Or.inr ⟨hroom, _, rfl⟩

/-- An outcome does not change the meter. -/
theorem gas_outcome (op : Opcode) (s : State) (operands rest : List Word) :
    (op.outcome s operands rest).state.gas = s.gas := by
  rcases op.state_outcome_cases s operands rest with ⟨heq, _⟩ | ⟨_, _, heq⟩
  · rw [heq]
  · rw [heq]
    rfl

/-- An outcome does not change the status, which is left to the exit. -/
theorem status_outcome (op : Opcode) (s : State) (operands rest : List Word) :
    (op.outcome s operands rest).state.status = s.status := by
  rcases op.state_outcome_cases s operands rest with ⟨heq, _⟩ | ⟨_, _, heq⟩
  · rw [heq]
  · rw [heq]
    rfl

/-- An instruction leaves as many words as its catalog entry says. -/
theorem length_results {op : Opcode} {operands : List Word} (s : State)
    (hlength : operands.length = op.entry.inputs) :
    (op.results s operands).length = op.entry.outputs := by
  cases op with
  | dup index | swap index =>
    simp only [results, entry, List.length_cons, List.length_set] at hlength ⊢
    omega
  | _ => rfl

/-- An outcome keeps the stack within its limit. -/
theorem size_stack_outcome_le {op : Opcode} {s : State} {operands : List Word}
    (hbound : s.stack.size ≤ Schedule.maxStackSize)
    (hlength : operands.length = op.entry.inputs) (rest : List Word) :
    (op.outcome s operands rest).state.stack.size ≤ Schedule.maxStackSize := by
  rcases op.state_outcome_cases s operands rest with ⟨heq, _⟩ | ⟨hroom, _, heq⟩
  · rwa [heq]
  · rw [heq, completed, Stack.size_ofList, List.length_append, length_results s hlength]
    omega

/-- An instruction grows memory to the range that its cost rule prices. -/
theorem size_memoryAfter {op : Opcode} {operands rest : List Word} (m : Memory)
    (hlength : operands.length = op.entry.inputs) :
    (op.memoryAfter m operands).size =
      (op.entry.cost.covered (.ofList (operands ++ rest)) m).size := by
  cases op with
  | mload =>
    obtain ⟨a, rfl⟩ := List.length_eq_one_iff.1 hlength
    simp [memoryAfter, entry, CostRule.covered, RangeLength.word, Word.byteCount]
  | mstore =>
    obtain ⟨a, b, rfl⟩ := List.length_eq_two.1 hlength
    simp [memoryAfter, entry, CostRule.covered, RangeLength.word, Memory.storeWord,
      Memory.size_store]
  | mstore8 =>
    obtain ⟨a, b, rfl⟩ := List.length_eq_two.1 hlength
    simp [memoryAfter, entry, CostRule.covered, RangeLength.word, Memory.storeByte,
      Memory.size_store]
  | ret =>
    obtain ⟨a, b, rfl⟩ := List.length_eq_two.1 hlength
    simp [memoryAfter, entry, CostRule.covered, RangeLength.word]
  | binary f => cases f <;> rfl
  | _ => rfl

/-- An instruction that leaves no more words than it takes always has room for them. -/
theorem outcome_of_le {op : Opcode} {s : State} {operands rest : List Word}
    (hle : op.entry.outputs ≤ op.entry.inputs) (hlength : operands.length = op.entry.inputs)
    (hbound : operands.length + rest.length ≤ Schedule.maxStackSize) :
    op.outcome s operands rest =
      match op.control s operands with
      | .ok control => (op.completed s operands rest).applyControl control
      | .error fault =>
        { state := op.completed s operands rest, exit? := some (.fault fault) } := by
  rw [outcome, if_neg (by omega)]

end Opcode

/-! ## Bodies -/

namespace Effect

section

variable {α β : Type} {e : Effect α} {k : α → Effect β} {s s' : State}

/-- A step of a body that succeeds hands its value to the rest of the body. -/
theorem bind_of_ok {a : α} (h : e s = .ok a s') : (e >>= k) s = k a s' := by
  simp only [bind, EStateM.bind, h]

/-- A step of a body that fails ends the body. -/
theorem bind_of_error {fault : Fault} (h : e s = .error fault s') :
    (e >>= k) s = .error fault s' := by
  simp only [bind, EStateM.bind, h]

end

variable {s : State} {rest : List Word}

/-- Taking the top word off a stack that has one. -/
theorem pop_of_cons {w : Word} (h : s.stack = .ofList (w :: rest)) :
    pop s = .ok w { s with stack := .ofList rest } := by
  rw [pop, h, Stack.pop_ofList_cons]

/-- Putting a word on a stack with room for it. -/
theorem push_of_lt (h : s.stack = .ofList rest) (hroom : rest.length < Schedule.maxStackSize)
    (w : Word) : push w s = .ok () { s with stack := .ofList (w :: rest) } := by
  rw [push, updateStack, h, Stack.push_ofList, if_neg (by omega)]

/-- Putting a word on a full stack. -/
theorem push_of_full (h : s.stack = .ofList rest)
    (hfull : rest.length ≥ Schedule.maxStackSize) (w : Word) :
    push w s = .error .stackOverflow s := by
  rw [push, updateStack, h, Stack.push_ofList, if_pos hfull]

/-- An operand below the limit is a host size. -/
theorem size_of_lt {w : Word} (h : w.toNat < Word.sizeLimit) : size w s = .ok w.toNat s := by
  rw [size, Word.toSize?_eq, if_pos h]

/-- Reading a word only grows memory. -/
theorem loadWord_eq (offset : Nat) :
    loadWord offset s =
      .ok (s.memory.loadWord offset).value
        { s with memory := s.memory.cover offset Word.byteCount } :=
  rfl

/-- A jump hands on control or fails, and changes nothing. -/
theorem jumpTo_eq (destination : Word) :
    jumpTo destination s =
      match s.jumpControl destination with
      | .ok control => .ok control s
      | .error fault => .error fault s := by
  rw [jumpTo, Word.toSize?_eq, State.jumpControl]
  by_cases hlt : destination.toNat < Word.sizeLimit
  · have hmin : min destination.toNat (Word.sizeLimit - 1) = destination.toNat := by omega
    rw [if_pos hlt, hmin]
    by_cases htable : s.jumpTable.contains destination.toNat
    · simp [hlt, htable]
    · simp [htable]
  · have hmin : min destination.toNat (Word.sizeLimit - 1) = Word.sizeLimit - 1 := by omega
    simp [hlt, hmin]

/-- The offset of a memory rule with a price is a host size. -/
theorem lt_sizeLimit_of_stepCost {a : Word} {base cost : UInt64} {length : RangeLength}
    (hstack : s.stack = .ofList (a :: rest))
    (h : stepCost (.memory base 0 length) s.stack s.memory = .ok cost)
    (hne : (length.word s.stack).toNat ≠ 0) : a.toNat < Word.sizeLimit := by
  have haddress := stepCost_addressable h hne
  have hlimit : Schedule.maxMemorySize < Word.sizeLimit := by decide
  simp only [hstack, Stack.toList_ofList, List.getD_cons_zero] at haddress
  omega

/-- A range that can be addressed becomes the return data. -/
theorem returnBytes_eq {offset length : Word}
    (h : length.toNat ≠ 0 → offset.toNat + length.toNat ≤ Schedule.maxMemorySize) :
    returnBytes offset length s =
      .ok () { s with
        memory := s.memory.cover offset.toNat length.toNat
        returnData := (s.memory.load offset.toNat length.toNat).value } := by
  rw [returnBytes]
  by_cases hzero : length.toNat = 0
  · have hload : (s.memory.load offset.toNat 0).value = [] := by simp [Memory.load]
    rw [if_pos ((Word.isZero_iff length).2 hzero), hzero, Memory.cover_zero, hload]
    rfl
  · have haddress := h hzero
    have hlimit : Schedule.maxMemorySize < Word.sizeLimit := by decide
    rw [if_neg (fun hz => hzero ((Word.isZero_iff length).1 hz)),
      bind_of_ok (size_of_lt (by omega)), bind_of_ok (size_of_lt (by omega))]
    rfl

/-! ## Outcomes of bodies -/

/-- A body that ends with a jump. -/
theorem ofResult_jumpTo (destination : Word) :
    .ofResult (jumpTo destination s) =
      match s.jumpControl destination with
      | .ok control => s.applyControl control
      | .error fault => { state := s, exit? := some (.fault fault) } := by
  rw [jumpTo_eq]
  cases s.jumpControl destination <;> rfl

/-- A body that only puts a word on the stack. -/
theorem ofResult_push (hstack : s.stack = .ofList rest) (w : Word) (bytes : Nat) :
    .ofResult ((push w >>= fun _ => pure (.advance bytes)) s) =
      if rest.length + 1 > Schedule.maxStackSize then
        { state := s, exit? := some (.fault .stackOverflow) }
      else ({ s with stack := .ofList (w :: rest) } : State).applyControl (.advance bytes) := by
  split
  next hfull =>
    rw [bind_of_error (push_of_full hstack (by omega) w)]
    rfl
  next hroom =>
    rw [bind_of_ok (push_of_lt hstack (by omega) w)]
    rfl

/-- A body that copies one of its operands to the top. -/
theorem ofResult_dup {operands : List Word} {k : Nat}
    (hstack : s.stack = .ofList (operands ++ rest)) (hlength : operands.length = k + 1) :
    .ofResult ((updateStack (·.dup (k + 1)) >>= fun _ => pure (.advance 1)) s) =
      if rest.length + (k + 2) > Schedule.maxStackSize then
        { state := s, exit? := some (.fault .stackOverflow) }
      else
        ({ s with stack := .ofList (operands.getD k 0 :: operands ++ rest) } : State).applyControl
          (.advance 1) := by
  have hdup := Stack.dup_ofList_append rest hlength
  rw [List.length_append, hlength] at hdup
  split
  next hfull =>
    have hupdate : updateStack (·.dup (k + 1)) s = .error .stackOverflow s := by
      rw [updateStack, hstack, hdup, if_pos (by omega)]
    rw [bind_of_error hupdate]
    rfl
  next hroom =>
    have hupdate : updateStack (·.dup (k + 1)) s =
        .ok () { s with stack := .ofList (operands.getD k 0 :: operands ++ rest) } := by
      rw [updateStack, hstack, hdup, if_neg (by omega)]
    rw [bind_of_ok hupdate]
    rfl

/-- Every body has the described outcome, once its operands lie on a stack within its
limit and its price is known. -/
theorem ofResult_ofOpcode {op : Opcode} {operands : List Word} {cost : UInt64}
    (hstack : s.stack = .ofList (operands ++ rest))
    (hlength : operands.length = op.entry.inputs)
    (hbound : operands.length + rest.length ≤ Schedule.maxStackSize)
    (hcost : stepCost op.entry.cost s.stack s.memory = .ok cost) :
    .ofResult (ofOpcode op s) = op.outcome s operands rest := by
  cases op with
  | stop | jumpdest =>
    rw [Opcode.outcome_of_le (by decide) hlength hbound]
    obtain rfl := List.length_eq_zero_iff.1 hlength
    simp only [Opcode.control, Opcode.completed, Opcode.results, ← hstack]
    rfl
  | binary f =>
    rw [Opcode.outcome_of_le (by simp [Opcode.entry]) hlength hbound]
    obtain ⟨a, b, rfl⟩ := List.length_eq_two.1 hlength
    simp only [List.length_cons, List.length_nil] at hbound
    rw [ofOpcode, bind_of_ok (pop_of_cons hstack), bind_of_ok (pop_of_cons rfl),
      bind_of_ok (push_of_lt rfl (by simp; omega) _)]
    rfl
  | unary f =>
    rw [Opcode.outcome_of_le (by simp [Opcode.entry]) hlength hbound]
    obtain ⟨a, rfl⟩ := List.length_eq_one_iff.1 hlength
    simp only [List.length_cons, List.length_nil] at hbound
    rw [ofOpcode, bind_of_ok (pop_of_cons hstack), bind_of_ok (push_of_lt rfl (by simp; omega) _)]
    rfl
  | pop =>
    rw [Opcode.outcome_of_le (by decide) hlength hbound]
    obtain ⟨a, rfl⟩ := List.length_eq_one_iff.1 hlength
    rw [ofOpcode, bind_of_ok (pop_of_cons hstack)]
    rfl
  | mload =>
    rw [Opcode.outcome_of_le (by decide) hlength hbound]
    obtain ⟨a, rfl⟩ := List.length_eq_one_iff.1 hlength
    simp only [List.length_cons, List.length_nil] at hbound
    have haddress : a.toNat < Word.sizeLimit :=
      lt_sizeLimit_of_stepCost hstack hcost (by simp [RangeLength.word])
    rw [ofOpcode, bind_of_ok (pop_of_cons hstack), bind_of_ok (size_of_lt haddress),
      bind_of_ok (loadWord_eq _), bind_of_ok (push_of_lt rfl (by simp; omega) _)]
    rfl
  | mstore | mstore8 =>
    rw [Opcode.outcome_of_le (by decide) hlength hbound]
    obtain ⟨a, b, rfl⟩ := List.length_eq_two.1 hlength
    have haddress : a.toNat < Word.sizeLimit :=
      lt_sizeLimit_of_stepCost hstack hcost (by simp [RangeLength.word])
    rw [ofOpcode, bind_of_ok (pop_of_cons hstack), bind_of_ok (size_of_lt haddress),
      bind_of_ok (pop_of_cons rfl)]
    rfl
  | jump =>
    rw [Opcode.outcome_of_le (by decide) hlength hbound]
    obtain ⟨a, rfl⟩ := List.length_eq_one_iff.1 hlength
    rw [ofOpcode, bind_of_ok (pop_of_cons hstack), ofResult_jumpTo]
    rfl
  | jumpi =>
    rw [Opcode.outcome_of_le (by decide) hlength hbound]
    obtain ⟨a, b, rfl⟩ := List.length_eq_two.1 hlength
    rw [ofOpcode, bind_of_ok (pop_of_cons hstack), bind_of_ok (pop_of_cons rfl)]
    simp only [Opcode.control, List.getD_cons_succ, List.getD_cons_zero]
    split
    next => rfl
    next =>
      rw [ofResult_jumpTo]
      rfl
  | pc | msize | gas | push0 | push index =>
    obtain rfl := List.length_eq_zero_iff.1 hlength
    exact ofResult_push hstack _ _
  | dup index => exact ofResult_dup hstack hlength
  | swap index =>
    rw [Opcode.outcome_of_le (Nat.le_refl _) hlength hbound]
    have hupdate : updateStack (·.swap (index.val + 1)) s =
        .ok () { s with stack := .ofList ((Opcode.swap index).results s operands ++ rest) } := by
      rw [updateStack, hstack, Stack.swap_ofList_append rest hlength]
      rfl
    rw [ofOpcode, bind_of_ok hupdate]
    rfl
  | ret =>
    rw [Opcode.outcome_of_le (by decide) hlength hbound]
    obtain ⟨a, b, rfl⟩ := List.length_eq_two.1 hlength
    have haddress : b.toNat ≠ 0 → a.toNat + b.toNat ≤ Schedule.maxMemorySize := by
      simpa [hstack, RangeLength.word] using stepCost_addressable hcost
    rw [ofOpcode, bind_of_ok (pop_of_cons hstack), bind_of_ok (pop_of_cons rfl),
      bind_of_ok (returnBytes_eq haddress)]
    rfl

end Effect

/-! ## Evaluation -/

namespace State

variable {s : State} {op : Opcode}

/-- Why a machine ends where there is no defined instruction: the code has ended, or
its byte is undefined. -/
def undecodedReason (s : State) : ExitReason :=
  match s.currentByte? with
  | none => .success .stopped
  | some byte => .fault (.invalidOpcode byte)

/-- Where there is no defined instruction, an evaluation ends at once. -/
theorem eval_of_none (hcurrent : s.currentOpcode? = none) :
    s.eval = { state := s, exit? := some s.undecodedReason } := by
  rw [currentOpcode?] at hcurrent
  rw [eval, undecodedReason]
  cases hbyte : s.currentByte? with
  | none => rfl
  | some byte =>
    rw [hbyte, Option.bind_some] at hcurrent
    simp only [hcurrent]

/-- Where there is a defined instruction, it is evaluated. -/
theorem eval_of_some (hcurrent : s.currentOpcode? = some op) : s.eval = s.evalOpcode op := by
  obtain ⟨byte, hbyte, hop⟩ := Option.bind_eq_some_iff.1 hcurrent
  rw [eval, hbyte]
  simp only [hop]

/-- Missing operands end an evaluation first. -/
theorem eval_of_missing (hcurrent : s.currentOpcode? = some op)
    (hinputs : s.stack.size < op.entry.inputs) :
    s.eval = { state := s, exit? := some (.fault .stackUnderflow) } := by
  rw [eval_of_some hcurrent, evalOpcode, if_pos hinputs]

/-- A step without a price is not taken. -/
theorem eval_of_unpriced {fault : Fault} (hcurrent : s.currentOpcode? = some op)
    (hinputs : op.entry.inputs ≤ s.stack.size)
    (hprice : stepCost op.entry.cost s.stack s.memory = .error fault) :
    s.eval = { state := s, exit? := some (.fault fault) } := by
  rw [eval_of_some hcurrent, evalOpcode, if_neg (by omega), hprice]

/-- A step that cannot be paid for is not taken. -/
theorem eval_of_unpaid {cost : UInt64} (hcurrent : s.currentOpcode? = some op)
    (hinputs : op.entry.inputs ≤ s.stack.size)
    (hprice : stepCost op.entry.cost s.stack s.memory = .ok cost)
    (hcharge : s.gas.charge cost = .error .outOfGas) :
    s.eval = { state := s, exit? := some (.fault .outOfGas) } := by
  rw [eval_of_some hcurrent, evalOpcode, if_neg (by omega), hprice]
  simp only [hcharge]

/-- An evaluation that passes all checks: the instruction, its operands on top of the
rest of the stack, its price, and the meter after the charge. -/
structure Payment (s : State) where
  /-- The instruction. -/
  op : Opcode
  /-- Its operands from the top down. -/
  operands : List Word
  /-- The items below the operands. -/
  rest : List Word
  /-- The price. -/
  cost : UInt64
  /-- The meter after the charge. -/
  gas : Meter
  current_eq : s.currentOpcode? = some op
  stack_eq : s.stack = .ofList (operands ++ rest)
  length_operands : operands.length = op.entry.inputs
  price_eq : stepCost op.entry.cost s.stack s.memory = .ok cost
  charge_eq : s.gas.charge cost = .ok gas

namespace Payment

/-- The state after the charge. -/
def charged (p : Payment s) : State :=
  { s with gas := p.gas }

/-- The outcome of the instruction that was paid for. -/
def outcome (p : Payment s) : Evaluated :=
  p.op.outcome p.charged p.operands p.rest

/-- The operands and the rest make up the stack. -/
theorem size_stack (p : Payment s) : s.stack.size = p.operands.length + p.rest.length := by
  rw [p.stack_eq, Stack.size_ofList, List.length_append]

/-- The operands are there. -/
theorem inputs_le (p : Payment s) : p.op.entry.inputs ≤ s.stack.size := by
  rw [p.size_stack, ← p.length_operands]
  exact Nat.le_add_right _ _

/-- A step that is paid for has the outcome of its instruction. -/
theorem eval_eq (p : Payment s) (hbound : s.stack.size ≤ Schedule.maxStackSize) :
    s.eval = p.outcome := by
  rw [eval_of_some p.current_eq, evalOpcode, if_neg (Nat.not_lt.2 p.inputs_le), p.price_eq]
  simp only [p.charge_eq]
  rw [p.size_stack] at hbound
  exact Effect.ofResult_ofOpcode p.stack_eq p.length_operands hbound p.price_eq

end Payment

/-- The ways in which the checks of an evaluation can end, in the order of the checks. -/
inductive Checked (s : State) : Prop where
  /-- There is no defined instruction. -/
  | undecoded (hcurrent : s.currentOpcode? = none)
  /-- Operands are missing. -/
  | missing {op : Opcode} (hcurrent : s.currentOpcode? = some op)
    (hinputs : s.stack.size < op.entry.inputs)
  /-- The step has no price. -/
  | unpriced {op : Opcode} {fault : Fault} (hcurrent : s.currentOpcode? = some op)
    (hinputs : op.entry.inputs ≤ s.stack.size)
    (hprice : stepCost op.entry.cost s.stack s.memory = .error fault)
  /-- The price exceeds the remaining gas. -/
  | unpaid {op : Opcode} {cost : UInt64} (hcurrent : s.currentOpcode? = some op)
    (hinputs : op.entry.inputs ≤ s.stack.size)
    (hprice : stepCost op.entry.cost s.stack s.memory = .ok cost)
    (hcharge : s.gas.charge cost = .error .outOfGas)
  /-- The step is paid for. -/
  | paid (p : Payment s)

/-- The checks of an evaluation end in one of these ways. -/
theorem checked (s : State) : s.Checked := by
  cases hcurrent : s.currentOpcode? with
  | none => exact .undecoded hcurrent
  | some op =>
    by_cases hinputs : s.stack.size < op.entry.inputs
    · exact .missing hcurrent hinputs
    · rw [Nat.not_lt] at hinputs
      cases hprice : stepCost op.entry.cost s.stack s.memory with
      | error fault => exact .unpriced hcurrent hinputs hprice
      | ok cost =>
        cases hcharge : s.gas.charge cost with
        | error fault =>
          rw [Meter.eq_outOfGas_of_charge hcharge] at hcharge
          exact .unpaid hcurrent hinputs hprice hcharge
        | ok gas =>
          obtain ⟨operands, rest, hstack, hlength⟩ := Stack.exists_ofList_append hinputs
          exact .paid
            ⟨op, operands, rest, cost, gas, hcurrent, hstack, hlength, hprice, hcharge⟩

/-- The instruction that the next evaluation pays for: it is defined, its operands are
there, and its price is at most the remaining gas. -/
def paidOpcode? (s : State) : Option Opcode :=
  match s.currentOpcode? with
  | none => none
  | some op =>
    if s.stack.size < op.entry.inputs then none
    else
      match stepCost op.entry.cost s.stack s.memory with
      | .error _ => none
      | .ok cost =>
        match s.gas.charge cost with
        | .error _ => none
        | .ok _ => some op

/-- An evaluation either fails a check and changes nothing, or pays and has the outcome
of its instruction. -/
theorem eval_cases (hbound : s.stack.size ≤ Schedule.maxStackSize) :
    (s.paidOpcode? = none ∧ ∃ reason, s.eval = { state := s, exit? := some reason }) ∨
      ∃ p : Payment s, s.paidOpcode? = some p.op ∧ s.eval = p.outcome := by
  rw [paidOpcode?]
  cases s.checked with
  | undecoded hcurrent =>
    rw [hcurrent]
    exact Or.inl ⟨rfl, _, eval_of_none hcurrent⟩
  | missing hcurrent hinputs =>
    rw [hcurrent]
    exact Or.inl ⟨if_pos hinputs, _, eval_of_missing hcurrent hinputs⟩
  | unpriced hcurrent hinputs hprice =>
    simp only [hcurrent, hprice, ite_self]
    exact Or.inl ⟨trivial, _, eval_of_unpriced hcurrent hinputs hprice⟩
  | unpaid hcurrent hinputs hprice hcharge =>
    simp only [hcurrent, hprice, hcharge, ite_self]
    exact Or.inl ⟨trivial, _, eval_of_unpaid hcurrent hinputs hprice hcharge⟩
  | paid p =>
    simp only [p.current_eq, p.price_eq, p.charge_eq]
    exact Or.inr ⟨p, if_neg (Nat.not_lt.2 p.inputs_le), p.eval_eq hbound⟩

end State

end MeteredMachine
