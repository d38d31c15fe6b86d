import Mathlib.Logic.Function.Iterate
import MeteredMachine.Machine.Basic
import MeteredMachine.Proofs.Outcome

/-!
# Steps and commands

A step of a machine either finds it exited, or is refused by the policy, or
evaluates one instruction; in terms of the state there is nothing else.  Whatever
these three and the calls on the operand stack preserve, every sequence of commands
of a host preserves.  A run is a number of single steps, since steps do nothing after
an exit.

Main results:

- Theorem {lit}`State.advanced_of_running`: an evaluation that leaves the machine running
  has paid for an instruction, completed it and handed on control.
- Theorem {lit}`State.Unnoticed.outcome_map` compares the outcomes of an instruction in two
  states that differ in a way it does not notice.
- Theorem {lit}`Machine.step_cases` lists what a step can do.
- Theorem {lit}`Machine.answer_callStep`: a step answers with the reason that it leaves in the
  status.
- Theorem {lit}`Machine.state_performAll`: what holds at the start and is preserved by
  single steps and stack calls holds after every sequence of commands.
- Theorem {lit}`Machine.run_eq_iterate`: a run is so many steps.
-/

namespace MeteredMachine

namespace State

/-- The state after an evaluation, with the exit in its status. -/
def Evaluated.recorded (e : Evaluated) : State :=
  match e.exit? with
  | none => e.state
  | some reason => { e.state with status := .exited reason }

/-- The state after evaluating the instruction at the program counter. -/
def advanced (s : State) : State :=
  s.eval.recorded

/-- Recording an exit changes only the status. -/
theorem advanced_eq (s : State) : ∃ status, s.advanced = { s.eval.state with status } := by
  rw [advanced, Evaluated.recorded]
  cases s.eval.exit? with
  | none => exact ⟨_, rfl⟩
  | some reason => exact ⟨_, rfl⟩

/-- An evaluation that fails a check only ends the machine. -/
theorem advanced_of_unchanged {s : State} {reason : ExitReason}
    (h : s.eval = { state := s, exit? := some reason }) :
    s.advanced = { s with status := .exited reason } := by
  rw [advanced, h]
  rfl

/-- Once a step is paid for, nothing else changes the meter. -/
theorem Payment.gas_advanced {s : State} (p : Payment s)
    (hbound : s.stack.size ≤ Schedule.maxStackSize) : s.advanced.gas = p.gas := by
  obtain ⟨status, heq⟩ := s.advanced_eq
  rw [heq, p.eval_eq hbound]
  exact Opcode.gas_outcome _ _ _ _

/-- An evaluation keeps the stack within its limit. -/
theorem size_stack_advanced_le {s : State} (hbound : s.stack.size ≤ Schedule.maxStackSize) :
    s.advanced.stack.size ≤ Schedule.maxStackSize := by
  obtain ⟨status, heq⟩ := s.advanced_eq
  rw [heq]
  rcases eval_cases hbound with ⟨_, reason, heval⟩ | ⟨p, _, heval⟩
  · rwa [heval]
  · rw [heval]
    exact Opcode.size_stack_outcome_le (s := p.charged) hbound p.length_operands p.rest

/-- An evaluation of a running machine leaves it running or ends it, as its exit says. -/
theorem status_advanced {s : State} (hbound : s.stack.size ≤ Schedule.maxStackSize)
    (hrun : s.status = .running) :
    s.advanced.status = s.eval.exit?.elim .running .exited := by
  have hstatus : s.eval.state.status = .running := by
    rcases eval_cases hbound with ⟨_, reason, heval⟩ | ⟨p, _, heval⟩
    · rwa [heval]
    · rw [heval, Payment.outcome, Opcode.status_outcome]
      exact hrun
  rw [advanced, Evaluated.recorded]
  cases s.eval.exit? with
  | none => exact hstatus
  | some reason => rfl

/-- An exit shows in the status. -/
theorem Evaluated.exit?_of_running {e : Evaluated} (h : e.recorded.status = .running) :
    e.exit? = none := by
  rw [recorded] at h
  cases hexit : e.exit? with
  | none => rfl
  | some reason =>
    rw [hexit] at h
    cases h

/-- An evaluation that leaves the machine running has paid for an instruction that does not
end it, completed the instruction and handed on control. -/
theorem advanced_of_running {s : State} (hbound : s.stack.size ≤ Schedule.maxStackSize)
    (h : s.advanced.status = .running) :
    ∃ (p : Payment s) (control : Control), p.op.control p.charged p.operands = .ok control ∧
      p.op ≠ .stop ∧ p.op ≠ .ret ∧
      s.advanced =
        ((p.op.completed p.charged p.operands p.rest).applyControl control).state := by
  have hexit := Evaluated.exit?_of_running h
  rw [advanced, Evaluated.recorded, hexit]
  rcases eval_cases hbound with ⟨_, reason, heval⟩ | ⟨p, _, heval⟩
  · rw [heval] at hexit
    cases hexit
  · rw [heval, Payment.outcome] at hexit ⊢
    rcases p.op.outcome_cases p.charged p.operands p.rest with
      ⟨heq, _⟩ | ⟨_, ⟨fault, _, heq⟩ | ⟨control, hcontrol, heq⟩⟩
    · rw [heq] at hexit
      cases hexit
    · rw [heq] at hexit
      cases hexit
    · rw [heq] at hexit ⊢
      refine ⟨p, control, hcontrol, ?_, ?_, rfl⟩
      · intro hstop
        rw [hstop] at hcontrol
        cases hcontrol
        cases hexit
      · intro hret
        rw [hret] at hcontrol
        cases hcontrol
        cases hexit

/-! ## Changed states -/

/-- An evaluation that ends in the same way in a changed state. -/
def Evaluated.map (f : State → State) (e : Evaluated) : Evaluated :=
  { e with state := f e.state }

/-- A change of states that neither control nor exits notice. -/
structure Unnoticed (f : State → State) : Prop where
  withStatus : ∀ s status, f { s with status } = { f s with status }
  applyControl : ∀ s control, (f s).applyControl control = (s.applyControl control).map f

namespace Unnoticed

variable {f : State → State}

/-- Recording an exit commutes with an unnoticed change. -/
theorem recorded_map (h : Unnoticed f) (e : Evaluated) : (e.map f).recorded = f e.recorded := by
  rw [Evaluated.recorded, Evaluated.recorded, Evaluated.map]
  cases e.exit? with
  | none => rfl
  | some reason => exact (h.withStatus e.state _).symm

/-- If an instruction completes in the same way in a changed state and hands control to the
same place, it has the same outcome there. -/
theorem outcome_map (h : Unnoticed f) {op : Opcode} {s : State} {operands rest rest' : List Word}
    (hroom : rest'.length + op.entry.outputs > Schedule.maxStackSize ↔
      rest.length + op.entry.outputs > Schedule.maxStackSize)
    (hcontrol : op.control (f s) operands = op.control s operands)
    (hcompleted : op.completed (f s) operands rest' = f (op.completed s operands rest)) :
    op.outcome (f s) operands rest' = (op.outcome s operands rest).map f := by
  rw [Opcode.outcome, Opcode.outcome, hcontrol, hcompleted]
  by_cases hfull : rest.length + op.entry.outputs > Schedule.maxStackSize
  · rw [if_pos hfull, if_pos (hroom.2 hfull)]
    rfl
  · rw [if_neg hfull, if_neg (fun hfull' => hfull (hroom.1 hfull'))]
    cases op.control s operands with
    | error fault => rfl
    | ok control => exact h.applyControl _ control

end Unnoticed

end State

/-- The answer that goes with a status. -/
def Status.answer : Status → Except ExitReason Unit
  | running => .ok ()
  | exited reason => .error reason

namespace Machine

variable {σ : Type} {m : Machine σ}

/-! ## One step -/

/-- Evaluating an instruction of a machine evaluates it on the state. -/
theorem after_advance (m : Machine σ) : m.advance.after = { m with state := m.state.advanced } := by
  rw [advance, State.advanced, State.Evaluated.recorded]
  cases m.state.eval.exit? <;> rfl

/-- A step leaves an exited machine alone. -/
theorem step_of_exited {reason : ExitReason} (h : m.status = .exited reason) : m.step = m := by
  rw [step, callStep, h]

/-- What the policy says about the next step. -/
def verdict (m : Machine σ) : Verdict σ :=
  m.policy.review m.memo m.state m.state.currentOpcode? m.context.address

/-- A step that the policy refuses ends the machine without any other change. -/
theorem step_of_refused {fault : Fault} (h : m.status = .running)
    (hverdict : m.verdict.refusal? = some fault) :
    m.step =
      { m with
        state := { m.state with status := .exited (.fault fault) }
        memo := m.verdict.memo } := by
  rw [verdict] at hverdict
  rw [step, callStep, h]
  simp only [hverdict]
  rfl

/-- A step that the policy permits evaluates one instruction. -/
theorem step_of_permitted (h : m.status = .running) (hverdict : m.verdict.refusal? = none) :
    m.step = { m with state := m.state.advanced, memo := m.verdict.memo } := by
  rw [verdict] at hverdict
  rw [step, callStep, h]
  simp only [hverdict]
  exact after_advance _

/-- A step finds the machine exited, is refused, or evaluates one instruction. -/
theorem step_cases (m : Machine σ) :
    (∃ reason, m.status = .exited reason ∧ m.step.state = m.state) ∨
      (m.status = .running ∧ ∃ fault, m.verdict.refusal? = some fault ∧
        m.step.state = { m.state with status := .exited (.fault fault) }) ∨
      (m.status = .running ∧ m.verdict.refusal? = none ∧ m.step.state = m.state.advanced) := by
  cases hstatus : m.status with
  | exited reason => exact Or.inl ⟨reason, rfl, by rw [step_of_exited hstatus]⟩
  | running =>
    cases hverdict : m.verdict.refusal? with
    | some fault =>
      exact Or.inr (Or.inl ⟨rfl, fault, rfl, by rw [step_of_refused hstatus hverdict]⟩)
    | none => exact Or.inr (Or.inr ⟨rfl, rfl, by rw [step_of_permitted hstatus hverdict]⟩)

/-- A machine is running exactly when its status says so. -/
theorem isRunning_eq_true_iff (m : Machine σ) : m.isRunning = true ↔ m.state.status = .running := by
  rw [isRunning, status]
  cases m.state.status <;> simp [Status.isRunning]

/-- A machine has exited exactly when its status holds a reason. -/
theorem isRunning_eq_false_iff (m : Machine σ) :
    m.isRunning = false ↔ ∃ reason, m.state.status = .exited reason := by
  rw [isRunning, status]
  cases m.state.status <;> simp [Status.isRunning]

/-- A step that leaves the machine running has evaluated an instruction. -/
theorem state_step_of_running (h : m.step.isRunning = true) :
    m.step.state = m.state.advanced ∧ m.state.advanced.status = .running := by
  rw [isRunning_eq_true_iff] at h
  rcases step_cases m with ⟨reason, hstatus, hstep⟩ | ⟨_, fault, _, hstep⟩ | ⟨_, _, hstep⟩
  · rw [hstep, ← status, hstatus] at h
    cases h
  · rw [hstep] at h
    cases h
  · rw [hstep] at h
    exact ⟨hstep, h⟩

/-! ## Answers -/

/-- A step answers with nothing if it evaluates an instruction that does not end the machine.
Otherwise it answers with a reason, which is then in the status. -/
theorem callStep_cases (m : Machine σ) :
    (m.callStep.answer = .ok () ∧ m.status = .running ∧ m.verdict.refusal? = none ∧
        m.state.eval.exit? = none) ∨
      ∃ reason, m.callStep.answer = .error reason ∧ m.step.status = .exited reason := by
  cases hstatus : m.status with
  | exited reason =>
    refine Or.inr ⟨reason, ?_, by rw [step_of_exited hstatus, hstatus]⟩
    rw [callStep, hstatus]
  | running =>
    cases hverdict : m.verdict.refusal? with
    | some fault =>
      refine Or.inr ⟨.fault fault, ?_, by rw [step_of_refused hstatus hverdict]; rfl⟩
      rw [verdict] at hverdict
      rw [callStep, hstatus]
      simp only [hverdict]
      rfl
    | none =>
      have hcall : m.callStep = ({ m with memo := m.verdict.memo } : Machine σ).advance := by
        rw [verdict] at hverdict
        rw [callStep, hstatus]
        simp only [hverdict]
        rfl
      rw [step, hcall, advance]
      cases hexit : m.state.eval.exit? with
      | none => exact Or.inl ⟨rfl, rfl, rfl, rfl⟩
      | some reason => exact Or.inr ⟨reason, rfl, rfl⟩

/-- A step answers with the reason that it leaves in the status. -/
theorem answer_callStep (hbound : m.state.stack.size ≤ Schedule.maxStackSize) :
    m.callStep.answer = m.step.status.answer := by
  rcases callStep_cases m with ⟨hanswer, hstatus, hverdict, hexit⟩ | ⟨reason, hanswer, hstatus⟩
  · have hadvanced := State.status_advanced hbound hstatus
    rw [hexit] at hadvanced
    rw [hanswer, step_of_permitted hstatus hverdict, status, hadvanced]
    rfl
  · rw [hanswer, hstatus]
    rfl

/-! ## Runs -/

/-- Steps do nothing after an exit. -/
theorem iterate_step_of_exited (h : m.isRunning = false) (rounds : Nat) : step^[rounds] m = m := by
  have hstep : m.step = m := by
    rw [isRunning] at h
    cases hstatus : m.status with
    | running => rw [hstatus] at h; cases h
    | exited reason => exact step_of_exited hstatus
  induction rounds with
  | zero => rfl
  | succ rounds ih => rw [Function.iterate_succ_apply, hstep, ih]

/-- Once a machine has exited, more steps lead nowhere else. -/
theorem iterate_step_eq_of_exited {calls rounds : Nat}
    (hexited : (step^[calls] m).isRunning = false) (hle : calls ≤ rounds) :
    step^[rounds] m = step^[calls] m := by
  obtain ⟨more, rfl⟩ := Nat.exists_eq_add_of_le' hle
  rw [Function.iterate_add_apply, iterate_step_of_exited hexited]

/-- So many steps, of which those behind an exit do nothing. -/
theorem after_untilExit_callStep (rounds : Nat) (m : Machine σ) :
    (untilExit callStep rounds m).after = step^[rounds] m := by
  induction rounds generalizing m with
  | zero => rfl
  | succ rounds ih =>
    rw [untilExit, Function.iterate_succ_apply]
    rcases callStep_cases m with ⟨hanswer, _⟩ | ⟨reason, hanswer, hstatus⟩
    · simp only [hanswer]
      exact ih m.step
    · simp only [hanswer]
      exact (iterate_step_of_exited ((isRunning_eq_false_iff _).2 ⟨reason, hstatus⟩) rounds).symm

/-- A run is as many steps as its bound says. -/
theorem run_eq_iterate (m : Machine σ) : m.run = step^[m.stepBound] m :=
  after_untilExit_callStep _ m

/-! ## Commands -/

/-- A property of states that single steps preserve holds after any number of them. -/
theorem state_iterate_step {P : State → Prop}
    (hrefuse : ∀ s fault, s.status = .running → P s →
      P { s with status := .exited (.fault fault) })
    (hadvance : ∀ s, s.status = .running → P s → P s.advanced)
    (hstart : P m.state) (rounds : Nat) : P (step^[rounds] m).state := by
  induction rounds with
  | zero => exact hstart
  | succ rounds ih =>
    rw [Function.iterate_succ_apply']
    rcases step_cases (step^[rounds] m) with
      ⟨_, _, hstep⟩ | ⟨hrun, fault, _, hstep⟩ | ⟨hrun, _, hstep⟩
    · rw [hstep]
      exact ih
    · rw [hstep]
      exact hrefuse _ fault hrun ih
    · rw [hstep]
      exact hadvance _ hrun ih

/-- A property of states that single steps and calls on the operand stack preserve holds
after every sequence of commands. -/
theorem state_performAll {P : State → Prop}
    (hrefuse : ∀ s fault, s.status = .running → P s →
      P { s with status := .exited (.fault fault) })
    (hadvance : ∀ s, s.status = .running → P s → P s.advanced)
    (htouch : ∀ s command, P s → P { s with stack := (s.stack.perform command).stack })
    (hstart : P m.state) (commands : List Command) : P (commands.foldl perform m).state := by
  induction commands generalizing m with
  | nil => exact hstart
  | cons command commands ih =>
    apply ih
    cases command with
    | step => exact state_iterate_step hrefuse hadvance hstart 1
    | run =>
      rw [perform, run_eq_iterate]
      exact state_iterate_step hrefuse hadvance hstart _
    | stack command => exact htouch _ command hstart

end Machine

end MeteredMachine
