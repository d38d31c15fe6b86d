import MeteredMachine.Proofs.InstructionStart
import MeteredMachine.Proofs.Step

/-!
# Invariant of a machine

What holds of the state of a machine from its start on, under every policy and
whatever a host does to the operand stack: code, data and jump table stay as they
were built, the program counter is on an instruction start, the stack is within its
limit, memory is a whole number of words that can be addressed, and the meter is in
balance.

Main results:

- Structure {lit}`State.Sound` is the invariant.
- Theorem {lit}`State.Sound.advanced`: evaluating an instruction preserves it.
- Theorem {lit}`Machine.sound_performAll`: it holds after every sequence of commands.
- Theorem {lit}`Machine.state_performAll_of_sound`: so does what steps preserve where it holds.
-/

namespace MeteredMachine

namespace State

/-- The invariant of a machine that was built from a code, input data and a gas limit. -/
structure Sound (code data : Array UInt8) (limit : UInt64) (s : State) : Prop where
  code_eq : s.code = code
  data_eq : s.data = data
  table_eq : s.jumpTable = .ofCode code
  pc_start : InstructionStart code s.pc
  stack_le : s.stack.size ≤ Schedule.maxStackSize
  memory_aligned : 32 ∣ s.memory.size
  memory_le : s.memory.size ≤ 2 ^ 32
  balanced : s.gas.Balanced limit

variable {code data : Array UInt8} {limit : UInt64} {s : State}

/-- A state at its start is sound. -/
theorem sound_initial (code data : Array UInt8) (limit : UInt64) :
    (initial code data limit).Sound code data limit where
  code_eq := rfl
  data_eq := rfl
  table_eq := rfl
  pc_start := .zero
  stack_le := Nat.zero_le _
  memory_aligned := Nat.dvd_zero 32
  memory_le := Nat.zero_le _
  balanced := Meter.balanced_ofLimit limit

namespace Sound

/-- The invariant does not depend on the status. -/
theorem withStatus (h : s.Sound code data limit) (status : Status) :
    ({ s with status } : State).Sound code data limit :=
  { h with }

/-- The invariant allows any stack within the limit. -/
theorem withStack (h : s.Sound code data limit) {stack : Stack}
    (hle : stack.size ≤ Schedule.maxStackSize) :
    ({ s with stack } : State).Sound code data limit :=
  { h with stack_le := hle }

/-- The invariant allows any instruction start as program counter. -/
theorem withPc (h : s.Sound code data limit) {pc : Nat} (hstart : InstructionStart code pc) :
    ({ s with pc } : State).Sound code data limit :=
  { h with pc_start := hstart }

/-- A charge keeps the invariant. -/
theorem charged (h : s.Sound code data limit) (p : Payment s) :
    p.charged.Sound code data limit :=
  { h with balanced := h.balanced.charge p.charge_eq }

/-- Memory that a priced rule covers is aligned and can be addressed. -/
theorem covered (h : s.Sound code data limit) {rule : CostRule} {cost : UInt64}
    (hprice : stepCost rule s.stack s.memory = .ok cost) :
    32 ∣ (rule.covered s.stack s.memory).size ∧
      (rule.covered s.stack s.memory).size ≤ 2 ^ 32 := by
  cases rule with
  | fixed | exponent => exact ⟨h.memory_aligned, h.memory_le⟩
  | memory base offset length =>
    refine ⟨Memory.aligned_cover h.memory_aligned _ _, ?_⟩
    simp only [CostRule.covered, Memory.size_cover]
    split
    next hcover =>
      have haddress := stepCost_addressable hprice hcover.1
      rw [Schedule.maxMemorySize] at haddress
      rw [Memory.wordsFor]
      omega
    next => exact h.memory_le

/-- Completing an instruction that was paid for keeps the invariant. -/
theorem completed (h : s.Sound code data limit) (p : Payment s)
    (hroom : p.rest.length + p.op.entry.outputs ≤ Schedule.maxStackSize) :
    (p.op.completed p.charged p.operands p.rest).Sound code data limit := by
  have hcovered := h.covered p.price_eq
  rw [p.stack_eq, ← p.op.size_memoryAfter s.memory p.length_operands] at hcovered
  have hsize : (p.op.results p.charged p.operands ++ p.rest).length ≤ Schedule.maxStackSize := by
    rw [List.length_append, Opcode.length_results _ p.length_operands]
    omega
  exact
    { h.charged p with
      stack_le := by rwa [← Stack.size_ofList] at hsize
      memory_aligned := hcovered.1
      memory_le := hcovered.2 }

/-- Behind the instruction that was paid for lies an instruction start. -/
theorem next_start (h : s.Sound code data limit) (p : Payment s) :
    InstructionStart code (s.pc + (1 + p.op.immediateSize)) := by
  obtain ⟨byte, hbyte, hop⟩ := Option.bind_eq_some_iff.1 p.current_eq
  rw [currentByte?, h.code_eq] at hbyte
  have hnext := h.pc_start.next hbyte
  rwa [← Opcode.toByte_of_ofByte? hop, Opcode.immediateSize_toByte, Nat.add_assoc] at hnext

/-- An instruction that was paid for keeps the invariant, whatever its outcome. -/
theorem outcome (h : s.Sound code data limit) (p : Payment s) :
    p.outcome.state.Sound code data limit := by
  rw [Payment.outcome]
  rcases p.op.outcome_cases p.charged p.operands p.rest with
    ⟨heq, _⟩ | ⟨hroom, ⟨fault, _, heq⟩ | ⟨control, hcontrol, heq⟩⟩
  · rw [heq]
    exact h.charged p
  · rw [heq]
    exact h.completed p hroom
  · rw [heq]
    have hcompleted := h.completed p hroom
    rcases p.op.control_cases p.charged p.operands with
      ⟨hok, _, _⟩ | ⟨position, hok, htable, _, _⟩ | ⟨_, hok⟩ | ⟨_, hok⟩ | ⟨position, hok, _⟩
    · cases hcontrol.symm.trans hok
      exact hcompleted.withPc (h.next_start p)
    · cases hcontrol.symm.trans hok
      have hcontains : (JumpTable.ofCode code).contains position = true := by
        rw [← h.table_eq]
        exact htable
      exact hcompleted.withPc (JumpTable.start_of_contains hcontains).1
    · cases hcontrol.symm.trans hok
      exact hcompleted
    · cases hcontrol.symm.trans hok
      exact hcompleted
    · cases hcontrol.symm.trans hok

/-- Evaluating an instruction keeps the invariant. -/
theorem advanced (h : s.Sound code data limit) : s.advanced.Sound code data limit := by
  have heval : s.eval.state.Sound code data limit := by
    rcases eval_cases h.stack_le with ⟨_, reason, heval⟩ | ⟨p, _, heval⟩
    · rwa [heval]
    · rw [heval]
      exact h.outcome p
  rw [State.advanced, Evaluated.recorded]
  cases s.eval.exit? with
  | none => exact heval
  | some reason => exact heval.withStatus _

end Sound

end State

namespace Machine

variable {σ : Type} {m : Machine σ} {code data : Array UInt8} {limit : UInt64}

/-- The invariant holds at the start, with any words on the stack. -/
theorem sound_start (code data : Array UInt8) (limit : UInt64) (context : Context)
    (policy : Policy σ) (memo : σ) (words : List Word) :
    ((ofCode code data limit context policy memo).seed words).state.Sound code data limit :=
  (State.sound_initial code data limit).withStack (Stack.size_seed_le (Nat.zero_le _) words)

/-- The invariant holds after any number of steps. -/
theorem sound_iterate_step (h : m.state.Sound code data limit) (rounds : Nat) :
    (step^[rounds] m).state.Sound code data limit :=
  state_iterate_step (fun _ _ _ hs => hs.withStatus _) (fun _ _ hs => hs.advanced) h rounds

/-- The invariant holds after every sequence of commands. -/
theorem sound_performAll (h : m.state.Sound code data limit) (commands : List Command) :
    (commands.foldl perform m).state.Sound code data limit :=
  state_performAll (fun _ _ _ hs => hs.withStatus _) (fun _ _ hs => hs.advanced)
    (fun _ command hs => hs.withStack (Stack.size_perform_le hs.stack_le command)) h commands

/-- A property that single steps and calls on the operand stack preserve on sound states holds
after every sequence of commands. -/
theorem state_performAll_of_sound {P : State → Prop}
    (hrefuse : ∀ s fault, s.status = .running → P s →
      P { s with status := .exited (.fault fault) })
    (hadvance : ∀ s, s.Sound code data limit → s.status = .running → P s → P s.advanced)
    (htouch : ∀ s command, P s → P { s with stack := (s.stack.perform command).stack })
    (h : m.state.Sound code data limit) (hstart : P m.state) (commands : List Command) :
    P (commands.foldl perform m).state := by
  have hall : (commands.foldl perform m).state.Sound code data limit ∧
      P (commands.foldl perform m).state := by
    apply state_performAll (P := fun s => s.Sound code data limit ∧ P s)
    · rintro s fault hrun ⟨hs, hp⟩
      exact ⟨hs.withStatus _, hrefuse s fault hrun hp⟩
    · rintro s hrun ⟨hs, hp⟩
      exact ⟨hs.advanced, hadvance s hs hrun hp⟩
    · rintro s command ⟨hs, hp⟩
      exact ⟨hs.withStack (Stack.size_perform_le hs.stack_le command), htouch s command hp⟩
    · exact ⟨h, hstart⟩
  exact hall.2

end Machine

end MeteredMachine
