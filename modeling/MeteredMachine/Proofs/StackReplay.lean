import MeteredMachine.Proofs.TracedRun

/-!
# Replaying the stack

With the items of each step in its entries, a log can be replayed: a step takes its inputs off
the top of the stack and puts its outputs there.  The items are cut out of the stacks around a
step by the catalog, whatever the step did to them, so a replay follows the machine only because
every instruction that changes the stack replaces as many items as its catalog entry says.

Main results:

- Definition {lit}`Trace.replay` replays a log from a stack.
- Theorem {lit}`Machine.stack_step_cases`: a step leaves the stack alone or replaces the operands
  of an instruction by its results.
- Theorem {lit}`Trace.Recorder.replay_logOf`: a replay of the first entries is the stack after as
  many steps.
- Theorem {lit}`Trace.Recorder.replay_follows_run` says this of every traced run.
-/

namespace MeteredMachine

/-! ## Stacks of steps -/

/-- An evaluation leaves the stack alone, or replaces the operands of the instruction by its
results. -/
theorem State.stack_advanced_cases {s : State} (hbound : s.stack.size ≤ Schedule.maxStackSize) :
    s.advanced.stack = s.stack ∨
      ∃ p : Payment s,
        s.advanced.stack = .ofList (p.op.results p.charged p.operands ++ p.rest) := by
  obtain ⟨status, heq⟩ := s.advanced_eq
  rw [heq]
  rcases eval_cases hbound with ⟨_, reason, heval⟩ | ⟨p, _, heval⟩
  · rw [heval]
    exact Or.inl rfl
  · rw [heval, Payment.outcome]
    rcases p.op.state_outcome_cases p.charged p.operands p.rest with ⟨hstate, _⟩ | ⟨_, pc, hstate⟩
    · rw [hstate]
      exact Or.inl rfl
    · rw [hstate]
      exact Or.inr ⟨p, rfl⟩

namespace Machine

variable {σ : Type} {m : Machine σ}

theorem stack_step_cases (hbound : m.state.stack.size ≤ Schedule.maxStackSize) :
    m.step.state.stack = m.state.stack ∨
      ∃ p : State.Payment m.state,
        m.step.state.stack = .ofList (p.op.results p.charged p.operands ++ p.rest) := by
  rcases step_cases m with ⟨_, _, hstep⟩ | ⟨_, _, _, hstep⟩ | ⟨_, _, hstep⟩
  · rw [hstep]
    exact Or.inl rfl
  · rw [hstep]
    exact Or.inl rfl
  · rw [hstep]
    exact State.stack_advanced_cases hbound

end Machine

namespace Trace

/-! ## Replay -/

/-- Takes the inputs off a stack from the top down, which fails unless they lie there, and puts
the outputs in their place. -/
def StackSlots.replay (slots : StackSlots) (stack : List Word) : Option (List Word) :=
  if stack.take slots.inputs.length = slots.inputs then
    some (slots.outputs ++ stack.drop slots.inputs.length)
  else none

/-- Replays a step; one that shows no items leaves the stack as it is. -/
def Entry.replay (e : Entry) (stack : List Word) : Option (List Word) :=
  match e.slots? with
  | some slots => slots.replay stack
  | none => some stack

/-- Replays the steps of a log one after the other. -/
def replay (stack : List Word) (log : List Entry) : Option (List Word) :=
  log.foldlM (fun stack e => e.replay stack) stack

/-- The items that the catalog cuts out replace operands by results. -/
theorem StackSlots.replay_between {op : Opcode} {operands results rest : List Word}
    {before after : Stack} (hbefore : before = .ofList (operands ++ rest))
    (hafter : after = .ofList (results ++ rest)) (hinputs : operands.length = op.entry.inputs)
    (houtputs : results.length = op.entry.outputs) :
    (between op before.items.toList after.items.toList).replay before.toList =
      some after.toList := by
  have htop : before.items.toList.reverse = operands ++ rest := by
    rw [← Stack.toList, hbefore, Stack.toList_ofList]
  have htop' : after.items.toList.reverse = results ++ rest := by
    rw [← Stack.toList, hafter, Stack.toList_ofList]
  rw [between, htop, htop', List.take_left' hinputs, List.take_left' houtputs, replay,
    Stack.toList, Stack.toList, htop, htop']
  simp

namespace Recorder

variable {σ : Type} {m : Machine σ} {o : Options}

/-- With items in its entries, a log shows those of an instruction that changes the stack. -/
theorem slots?_stepEntry (hslots : o.stackInOut = true) {storage? : Option Storage} {e : Entry}
    (he : stepEntry o storage? m = some e) :
    e.slots? =
      if m.step.state.stack = m.state.stack then none
      else m.state.currentOpcode?.map fun op =>
        .between op m.state.stack.items.toList m.step.state.stack.items.toList := by
  obtain ⟨byte, hbyte, rfl⟩ := Option.map_eq_some_iff.1 he
  have hkeeps : o.keepsStack = true := by rw [Options.keepsStack, hslots, Bool.or_true]
  have hitems : m.step.state.stack = m.state.stack ↔
      m.state.stack.items.toList = m.step.state.stack.items.toList := by
    constructor
    · intro h
      rw [h]
    · intro h
      exact congrArg Stack.mk (Array.toList_inj.1 h.symm)
  rw [State.currentOpcode?, hbyte, Option.bind_some]
  simp only [Entry.ofSnapshots, Entry.shownSlots, Snapshot.capture, hslots, hkeeps, if_true,
    Bool.not_true, Bool.false_or, beq_iff_eq, Option.some.injEq, ← hitems]
  cases Opcode.ofByte? byte <;> rfl

/-- Replaying the entry of a step gives the stack after the step. -/
theorem replay_stepEntry (hslots : o.stackInOut = true)
    (hbound : m.state.stack.size ≤ Schedule.maxStackSize) {storage? : Option Storage} {e : Entry}
    (he : stepEntry o storage? m = some e) :
    e.replay m.state.stack.toList = some m.step.state.stack.toList := by
  rw [Entry.replay, slots?_stepEntry hslots he]
  by_cases hsame : m.step.state.stack = m.state.stack
  · rw [if_pos hsame, hsame]
  · rcases Machine.stack_step_cases hbound with hstack | ⟨p, hstack⟩
    · exact absurd hstack hsame
    · rw [if_neg hsame, p.current_eq, Option.map_some]
      exact StackSlots.replay_between p.stack_eq hstack p.length_operands
        (Opcode.length_results _ p.length_operands)

/-- Replaying the log of the first steps gives the stack after them. -/
theorem replay_logOf (hslots : o.stackInOut = true)
    (hbound : m.state.stack.size ≤ Schedule.maxStackSize) (storage? : Option Storage)
    (steps : Nat) :
    replay m.state.stack.toList (logOf o storage? steps m) =
      some (Machine.step^[steps] m).state.stack.toList := by
  induction steps with
  | zero => rfl
  | succ steps ih =>
    rw [replay] at ih
    rw [logOf_succ, replay, List.foldlM_append, ih, Function.iterate_succ_apply']
    cases hentry : stepEntry o storage? (Machine.step^[steps] m) with
    | none =>
      -- A step without an entry starts behind the code.
      obtain ⟨_, hstate⟩ :=
        Machine.state_step_of_currentByte?_eq_none (Option.map_eq_none_iff.1 hentry)
      rw [hstate]
      rfl
    | some e =>
      have hreplay := replay_stepEntry hslots (Machine.size_stack_iterate_step_le hbound steps)
        hentry
      simp [hreplay]

/-- The log of a run can be replayed from the stack at its start.  Entry `i` is that of step `i`;
the replay of the first `i` entries does not fail and gives the stack after `i` steps; and that
of all entries gives the stack at the end. -/
structure ReplaysStack (m final : Machine σ) (steps : Nat) (log : List Entry) : Prop where
  plain_eq : ∀ i, i < steps → log[i]?.map Entry.plain = (Machine.step^[i] m).loggedStep
  replay_take : ∀ i, i ≤ steps →
    replay m.state.stack.toList (log.take i) = some (Machine.step^[i] m).state.stack.toList
  replay_all : replay m.state.stack.toList log = some final.state.stack.toList

/-- With the items of each step in its entries, a log replays the stack of the machine.  This
holds from every running machine that a host can bring about, under every policy, whether the
stack is hidden or not, and whatever the run ends with. -/
theorem replay_follows_run (code data : Array UInt8) (gasLimit : UInt64) (context : Context)
    (policy : Policy σ) (memo : σ) (commands : List Machine.Command) (o : Options)
    (hslots : o.stackInOut = true) (storage? : Option Storage) :
    let m := commands.foldl Machine.perform (.ofCode code data gasLimit context policy memo)
    m.status = .running →
      let traced := run storage? { recorder := .ofOptions o, machine := m }
      ∃ steps log, Machine.RunsIn steps m m.run ∧ traced.machine = m.run ∧
        traced.recorder.finish = .flat log ∧ ReplaysStack m m.run steps log := by
  intro m hstatus traced
  have hrunning : m.isRunning = true := (Machine.isRunning_eq_true_iff m).2 hstatus
  have hsound : m.state.Sound code data gasLimit :=
    Machine.sound_performAll (State.sound_initial code data gasLimit) commands
  have hbound := hsound.stack_le
  obtain ⟨steps, hle, hruns⟩ := Machine.exists_runsIn_run hbound
  have htraced : traced = _ := (run_eq o storage? hbound hrunning hruns hle).2
  refine ⟨steps, logOf o storage? steps m, hruns, ?_, ?_, ?_, ?_, ?_⟩
  · rw [htraced]
  · rw [htraced]
    rfl
  · intro i hlt
    rw [getElem?_logOf o storage? hbound hrunning hruns, if_pos hlt]
    exact plain_stepEntry o storage? (Machine.size_stack_iterate_step_le hbound i)
  · intro i hi
    rw [take_logOf o storage? hbound hrunning hruns hi]
    exact replay_logOf hslots hbound storage? i
  · rw [hruns.eq_iterate]
    exact replay_logOf hslots hbound storage? steps

/-- A copy, an exchange and a jump that fails with its operand already taken. -/
theorem replay_follows_run_of_jump :
    let o : Options := { stackInOut := true, hideStack := true }
    let commands : List Machine.Command := [.stack (.push 5), .stack (.push 6)]
    let m := commands.foldl Machine.perform
      (.ofCode #[0x80, 0x91, 0x56] #[] 100 default Policy.permit ())
    let traced := run none { recorder := .ofOptions o, machine := m }
    o.stackInOut = true ∧ m.status = .running ∧ m.state.stack.toList = [6, 5] ∧
      m.run.status = .exited (.fault (.invalidJump 5)) ∧ m.run.state.stack.toList = [6, 6] ∧
      ∃ log, traced.recorder.finish = .flat log ∧
        replay m.state.stack.toList log = some m.run.state.stack.toList := by
  intro o commands m traced
  have hrunning : m.status = .running := by decide +kernel
  have hstart : m.state.stack.toList = [6, 5] := by decide +kernel
  have hexited : m.run.status = .exited (.fault (.invalidJump 5)) := by decide +kernel
  have hend : m.run.state.stack.toList = [6, 6] := by decide +kernel
  obtain ⟨steps, log, _, _, hfinish, (hlog : ReplaysStack m m.run steps log)⟩ :=
    replay_follows_run #[0x80, 0x91, 0x56] #[] 100 default Policy.permit () commands o rfl none
      hrunning
  exact ⟨rfl, hrunning, hstart, hexited, hend, log, hfinish, hlog.replay_all⟩

end Recorder

end Trace

end MeteredMachine
