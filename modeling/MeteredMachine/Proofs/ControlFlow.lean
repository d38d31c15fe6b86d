import MeteredMachine.Proofs.Invariant

/-!
# Control flow

A machine never executes the immediate of a push.  Its program counter moves in two
ways, past an instruction and to a position that an operand names; both end on an
instruction start, whatever the operand, and also behind the end of the code when
the last immediate is cut short.

Main results:

- Theorem {lit}`State.Sound.byte_of_takesJump`: a jump that is taken lands on the byte of
  a jump destination.
- Theorem {lit}`Machine.pc_outside_immediates`: the program counter of every machine that
  a host can bring about is on an instruction start.
-/

namespace MeteredMachine

namespace State

variable {code data : Array UInt8} {limit : UInt64} {s : State}

/-- The next instruction is a jump that is to be taken: a plain one, or a conditional one
whose condition is not zero. -/
def TakesJump (s : State) : Prop :=
  s.currentOpcode? = some .jump ∨
    (s.currentOpcode? = some .jumpi ∧
      ∃ condition, s.stack.peek 1 = .ok condition ∧ condition.toNat ≠ 0)

/-- Where a jump that is to be taken goes is decided by the jump table. -/
theorem TakesJump.control_eq (h : s.TakesJump) (p : Payment s) :
    p.op.control p.charged p.operands = p.charged.jumpControl (p.operands.getD 0 0) := by
  have hcurrent := p.current_eq
  have hlength := p.length_operands
  rcases h with hjump | ⟨hjumpi, condition, hpeek, hne⟩
  · have hop : p.op = .jump := Option.some_inj.1 (hcurrent.symm.trans hjump)
    rw [hop, Opcode.control]
  · have hop : p.op = .jumpi := Option.some_inj.1 (hcurrent.symm.trans hjumpi)
    have htwo : 1 < p.operands.length := by
      rw [hlength, hop]
      decide
    rw [p.stack_eq, Stack.peek_ofList_append _ htwo] at hpeek
    cases hpeek
    rw [hop, Opcode.control, if_neg (fun hzero => hne ((Word.isZero_iff _).1 hzero))]

/-- A jump that is taken lands on the byte of a jump destination. -/
theorem Sound.byte_of_takesJump (h : s.Sound code data limit) (hjump : s.TakesJump)
    (hrun : s.advanced.status = .running) : code[s.advanced.pc]? = some 0x5b := by
  obtain ⟨p, control, hcontrol, _, _, heq⟩ := advanced_of_running h.stack_le hrun
  rw [hjump.control_eq p] at hcontrol
  rcases Opcode.jumpControl_cases p.charged (p.operands.getD 0 0) with
    ⟨hok, htable⟩ | ⟨position, hfault⟩
  · cases hcontrol.symm.trans hok
    have hcontains : (JumpTable.ofCode code).contains (p.operands.getD 0 0).toNat = true := by
      rw [← h.table_eq]
      exact htable
    rw [heq]
    exact (JumpTable.start_of_contains hcontains).2
  · cases hcontrol.symm.trans hfault

end State

namespace Machine

variable {σ : Type}

/-- After any commands of a host, and at every step of a run that may follow, the program
counter is on an instruction start and at most one immediate behind the end of the code;
and where the next step takes a jump and leaves the machine running, it lands on the byte
of a jump destination. -/
theorem pc_outside_immediates (code data : Array UInt8) (gasLimit : UInt64) (context : Context)
    (policy : Policy σ) (memo : σ) (commands : List Command) (rounds : Nat) :
    let start := ofCode code data gasLimit context policy memo
    let m := step^[rounds] (commands.foldl perform start)
    InstructionStart code m.state.pc ∧ m.state.pc ≤ code.size + 32 ∧
      (m.state.TakesJump → m.step.isRunning = true →
        code[m.step.state.pc]? = some 0x5b) := by
  intro start m
  have hsound : m.state.Sound code data gasLimit :=
    sound_iterate_step (sound_performAll (State.sound_initial code data gasLimit) commands) rounds
  refine ⟨hsound.pc_start, hsound.pc_start.le_size_add, ?_⟩
  intro hjump hrun
  obtain ⟨hstep, hadvanced⟩ := state_step_of_running hrun
  rw [hstep]
  exact hsound.byte_of_takesJump hjump hadvanced

/-- A jump to the last of two jump destination bytes, the first of which is an immediate. -/
theorem pc_outside_immediates_of_jump :
    let code := #[0x56, 0x60, 0x5b, 0x5b]
    let m := perform (ofCode code #[] 100 default Policy.permit ()) (.stack (.push 3))
    m.state.TakesJump ∧ m.step.isRunning = true ∧ m.step.state.pc = 3 ∧
      code[m.step.state.pc]? = some 0x5b := by
  intro code m
  have hjump : m.state.TakesJump := Or.inl (by decide)
  have hrun : m.step.isRunning = true := by decide +kernel
  refine ⟨hjump, hrun, by decide +kernel, ?_⟩
  exact (pc_outside_immediates code #[] 100 default Policy.permit () [.stack (.push 3)] 0).2.2
    hjump hrun

end Machine

end MeteredMachine
