import MeteredMachine.Proofs.Invariant

/-!
# Runs

Every step that leaves a machine running costs gas, so a run ends before its bound on
steps is used up, and the state it ends in is the one that any sufficient number of
steps leads to.  Under the policy that permits everything, steps are a function of the
state alone; arguments about two runs are arguments about this function.

Main results:

- Type {lit}`Machine.RunsIn` is the loop that steps until an exit, without any bound.
- Theorem {lit}`Machine.RunsIn.untilExit_eq`: calls that step a machine are repeated until it
  exits, and the last of them gives the reason.
- Theorem {lit}`Machine.exists_runsIn_callRun`: a run is this loop, ends within its gas and
  answers with the reason of the exit.
- Theorem {lit}`Machine.run_eq_of_exited`: a run ends where any number of steps that
  reaches an exit ends.
- Theorem {lit}`Machine.run_ends_within_gas` says what gas means for a run and for what
  follows it.
- Theorem {lit}`Machine.related_run_unguarded`: under the policy that permits everything,
  what two runs preserve step by step relates their ends.
-/

namespace MeteredMachine

/-! ## Gas of a step -/

/-- An instruction that does not end the machine is not free. -/
theorem Opcode.one_le_flatPart {op : Opcode} (hstop : op ≠ stop) (hret : op ≠ ret)
    (stack : Stack) : 1 ≤ op.entry.cost.flatPart stack := by
  cases op with
  | stop => exact absurd rfl hstop
  | ret => exact absurd rfl hret
  | binary f =>
    cases f with
    | exp => exact Nat.le_add_right_of_le (by decide)
    | _ => exact Nat.le_of_ble_eq_true rfl
  | _ => exact Nat.le_of_ble_eq_true rfl

namespace State

variable {s : State}

/-- An evaluation that leaves the machine running uses up gas. -/
theorem remaining_advanced_lt (hbound : s.stack.size ≤ Schedule.maxStackSize)
    (hrun : s.advanced.status = .running) :
    s.advanced.gas.remaining.toNat < s.gas.remaining.toNat := by
  obtain ⟨p, _, _, hstop, hret, _⟩ := advanced_of_running hbound hrun
  have hflat := flatPart_le_of_stepCost p.price_eq
  have hpos := Opcode.one_le_flatPart hstop hret s.stack
  have hcharge := Meter.toNat_remaining_of_charge p.charge_eq
  rw [p.gas_advanced hbound]
  omega

end State

namespace Machine

variable {σ : Type} {m final : Machine σ} {calls : Nat}

/-- A step that leaves the machine running uses up gas. -/
theorem remaining_step_lt (hbound : m.state.stack.size ≤ Schedule.maxStackSize)
    (hrun : m.step.isRunning = true) :
    m.step.state.gas.remaining.toNat < m.state.gas.remaining.toNat := by
  obtain ⟨hstep, hadvanced⟩ := state_step_of_running hrun
  rw [hstep]
  exact State.remaining_advanced_lt hbound hadvanced

/-- Steps keep the stack within its limit. -/
theorem size_stack_iterate_step_le (hbound : m.state.stack.size ≤ Schedule.maxStackSize)
    (rounds : Nat) : (step^[rounds] m).state.stack.size ≤ Schedule.maxStackSize :=
  state_iterate_step (P := fun s => s.stack.size ≤ Schedule.maxStackSize) (fun _ _ _ hs => hs)
    (fun _ _ hs => State.size_stack_advanced_le hs) hbound rounds

/-! ## Steps until an exit -/

/-- Stepping a machine until it exits takes so many steps and leads to `final`.  Nothing
bounds the number of steps beforehand. -/
inductive RunsIn : Nat → Machine σ → Machine σ → Prop where
  /-- The step ends the machine. -/
  | last {m : Machine σ} (hexited : m.step.isRunning = false) : RunsIn 1 m m.step
  /-- The step leaves the machine running, and more steps follow. -/
  | more {calls : Nat} {m final : Machine σ} (hrun : m.step.isRunning = true)
      (rest : RunsIn calls m.step final) : RunsIn (calls + 1) m final

/-- Stepping until an exit is so many steps. -/
theorem RunsIn.eq_iterate (h : RunsIn calls m final) : final = step^[calls] m := by
  induction h with
  | last => rfl
  | more _ _ ih => exact ih

/-- Stepping until an exit ends with an exit. -/
theorem RunsIn.isRunning_final (h : RunsIn calls m final) : final.isRunning = false := by
  induction h with
  | last hexited => exact hexited
  | more _ _ ih => exact ih

/-- Before its last step, a machine that is stepped until it exits is running. -/
theorem RunsIn.isRunning_iterate (h : RunsIn calls m final) (hrun : m.isRunning = true)
    {rounds : Nat} (hlt : rounds < calls) : (step^[rounds] m).isRunning = true := by
  induction h generalizing rounds with
  | last =>
    obtain rfl : rounds = 0 := by omega
    exact hrun
  | more hnext _ ih =>
    cases rounds with
    | zero => exact hrun
    | succ rounds => exact ih hnext (by omega)

/-- A machine that is running before so many steps and has exited after one more is stepped
until it exits. -/
theorem runsIn_of_iterate {rounds : Nat}
    (hrun : ∀ j, j ≤ rounds → (step^[j] m).isRunning = true)
    (hexited : (step^[rounds + 1] m).isRunning = false) :
    RunsIn (rounds + 1) m (step^[rounds + 1] m) := by
  induction rounds generalizing m with
  | zero => exact .last hexited
  | succ rounds ih =>
    refine .more (hrun 1 (by omega)) (ih ?_ hexited)
    intro j hle
    exact hrun (j + 1) (by omega)

/-- Stepping until an exit ends, after at most one step more than there is gas. -/
theorem exists_runsIn (hbound : m.state.stack.size ≤ Schedule.maxStackSize) :
    ∃ calls final, calls ≤ m.state.gas.remaining.toNat + 1 ∧ RunsIn calls m final := by
  generalize hgas : m.state.gas.remaining.toNat = gas
  induction gas using Nat.strongRecOn generalizing m with
  | ind gas ih =>
    cases hrun : m.step.isRunning with
    | false => exact ⟨1, m.step, by omega, .last hrun⟩
    | true =>
      have hlt := remaining_step_lt hbound hrun
      have hnext : m.step.state.stack.size ≤ Schedule.maxStackSize :=
        size_stack_iterate_step_le hbound 1
      obtain ⟨calls, final, hle, hruns⟩ := ih _ (hgas ▸ hlt) hnext rfl
      exact ⟨calls + 1, final, by omega, .more hrun hruns⟩

/-- A call that steps a machine, perhaps among other things, and answers as the step does. -/
structure Drives {α : Type} (call : α → Called α) (machine : α → Machine σ) : Prop where
  after_eq : ∀ a, machine (call a).after = (machine a).step
  answer_eq : ∀ a, (call a).answer = (machine a).callStep.answer

/-- Calls that step a machine are repeated until it exits, and the last of them gives the reason in
its status. -/
theorem RunsIn.untilExit_eq {α : Type} {call : α → Called α} {machine : α → Machine σ}
    (hdrives : Drives call machine) {a : α} {rounds : Nat}
    (hbound : (machine a).state.stack.size ≤ Schedule.maxStackSize)
    (h : RunsIn calls (machine a) final) (hle : calls ≤ rounds) :
    untilExit call rounds a =
      { after := (fun a => (call a).after)^[calls] a, reason? := final.status.exitReason? } := by
  generalize hm : machine a = m at h
  induction h generalizing a rounds with
  | @last m hexited =>
    subst hm
    obtain ⟨more, rfl⟩ := Nat.exists_eq_add_of_le' hle
    obtain ⟨reason, hreason⟩ := (isRunning_eq_false_iff _).1 hexited
    have hanswer : (call a).answer = .error reason := by
      rw [hdrives.answer_eq, answer_callStep hbound, status, hreason]
      rfl
    rw [untilExit, status, hreason]
    simp only [hanswer]
    rfl
  | @more calls m final hrun _ ih =>
    subst hm
    obtain ⟨more, rfl⟩ := Nat.exists_eq_add_of_le' hle
    have hanswer : (call a).answer = .ok () := by
      rw [hdrives.answer_eq, answer_callStep hbound, status, (isRunning_eq_true_iff _).1 hrun]
      rfl
    have hnext : (machine (call a).after).state.stack.size ≤ Schedule.maxStackSize := by
      rw [hdrives.after_eq]
      exact size_stack_iterate_step_le hbound 1
    rw [← Nat.add_assoc, untilExit]
    simp only [hanswer]
    exact ih hnext (by omega) (hdrives.after_eq a)

theorem drives_callStep : Drives callStep (id : Machine σ → Machine σ) :=
  ⟨fun _ => rfl, fun _ => rfl⟩

/-- A run steps until the exit, which comes after at most one step more than there is gas, and
answers with the reason of that exit. -/
theorem exists_runsIn_callRun (hbound : m.state.stack.size ≤ Schedule.maxStackSize) :
    ∃ calls, calls ≤ m.state.gas.remaining.toNat + 1 ∧ RunsIn calls m m.run ∧
      m.callRun = { after := m.run, reason? := m.run.status.exitReason? } := by
  obtain ⟨calls, final, hle, hruns⟩ := exists_runsIn hbound
  have hcall : m.callRun = { after := final, reason? := final.status.exitReason? } := by
    rw [callRun, stepBound, RunsIn.untilExit_eq drives_callStep hbound hruns hle, hruns.eq_iterate]
    rfl
  obtain rfl : m.run = final := congrArg Ended.after hcall
  exact ⟨calls, hle, hruns, hcall⟩

theorem exists_runsIn_run (hbound : m.state.stack.size ≤ Schedule.maxStackSize) :
    ∃ calls, calls ≤ m.state.gas.remaining.toNat + 1 ∧ RunsIn calls m m.run := by
  obtain ⟨calls, hle, hruns, _⟩ := exists_runsIn_callRun hbound
  exact ⟨calls, hle, hruns⟩

/-- A run ends with an exit. -/
theorem isRunning_run (hbound : m.state.stack.size ≤ Schedule.maxStackSize) :
    m.run.isRunning = false := by
  obtain ⟨_, _, hruns⟩ := exists_runsIn_run hbound
  exact hruns.isRunning_final

/-- A run ends where any number of steps that reaches an exit ends. -/
theorem run_eq_of_exited (hbound : m.state.stack.size ≤ Schedule.maxStackSize) {rounds : Nat}
    (hexited : (step^[rounds] m).isRunning = false) : m.run = step^[rounds] m := by
  have hrun := isRunning_run hbound
  rw [run_eq_iterate] at hrun ⊢
  rcases Nat.le_total rounds m.stepBound with hle | hle
  · exact iterate_step_eq_of_exited hexited hle
  · exact (iterate_step_eq_of_exited hrun hle).symm

/-- Neither steps nor runs change a machine that has exited. -/
theorem performAll_of_exited (h : m.isRunning = false) {commands : List Command}
    (hcommands : ∀ command ∈ commands, command = .step ∨ command = .run) :
    commands.foldl perform m = m := by
  induction commands with
  | nil => rfl
  | cons command commands ih =>
    have hperform : m.perform command = m := by
      rcases hcommands command List.mem_cons_self with rfl | rfl
      · exact iterate_step_of_exited h 1
      · rw [perform, run_eq_iterate]
        exact iterate_step_of_exited h _
    rw [List.foldl_cons, hperform]
    exact ih fun other hmem => hcommands other (List.mem_cons_of_mem _ hmem)

/-- A machine that has exited answers steps and runs with the reason of its exit, and does not
change. -/
theorem call_of_exited {reason : ExitReason} (h : m.status = .exited reason) :
    m.callStep = { after := m, answer := .error reason } ∧
      m.callRun = { after := m, reason? := some reason } := by
  have hcall : m.callStep = { after := m, answer := .error reason } := by
    rw [callStep, h]
  refine ⟨hcall, ?_⟩
  rw [callRun, stepBound, untilExit, hcall]

/-- Gas bounds every run.  On any machine, under every policy and with any code, memory and
stack within the limit, a step answers with the reason that it leaves in the status, and one that
leaves the machine running takes at least one unit of the remaining gas.  So stepping until an exit
takes at most one step more than there is gas; a run does just that, ends with a reason in its
status and answers with it.  No sequence of further steps and runs changes anything of the machine,
what its policy remembers included, and all of them answer with the same reason. -/
theorem run_ends_within_gas (m : Machine σ) (hstack : m.state.stack.size ≤ 1024) :
    m.callStep.answer = m.step.status.answer ∧
      (m.step.status = .running →
        m.step.state.gas.remaining.toNat + 1 ≤ m.state.gas.remaining.toNat) ∧
      ∃ calls reason, calls ≤ m.state.gas.remaining.toNat + 1 ∧ RunsIn calls m m.run ∧
        m.run.status = .exited reason ∧ m.callRun.reason? = some reason ∧
        ∀ commands : List Command,
          (∀ command ∈ commands, command = .step ∨ command = .run) →
            let later := commands.foldl perform m.run
            later = m.run ∧ later.callStep.answer = .error reason ∧
              later.callRun.reason? = some reason := by
  refine ⟨answer_callStep hstack, ?_, ?_⟩
  · intro hrun
    exact remaining_step_lt hstack ((isRunning_eq_true_iff _).2 hrun)
  · obtain ⟨calls, hle, hruns, hcall⟩ := exists_runsIn_callRun hstack
    have hexited := hruns.isRunning_final
    obtain ⟨reason, hreason⟩ := (isRunning_eq_false_iff _).1 hexited
    obtain ⟨hstep, hrun⟩ := call_of_exited hreason
    refine ⟨calls, reason, hle, hruns, hreason, by rw [hcall, status, hreason]; rfl, ?_⟩
    intro commands hcommands later
    have hlater : later = m.run := performAll_of_exited hexited hcommands
    rw [hlater, hstep, hrun]
    exact ⟨rfl, rfl, rfl⟩

/-- A loop without an end, with gas for two rounds and a part of the third, under a policy
that keeps what it is asked. -/
theorem run_ends_within_gas_of_loop :
    let m := ofCode #[0x5b, 0x5f, 0x56] #[] 25 default StockPolicy.policy (.record #[])
    m.status = .running ∧ m.state.stack.size ≤ 1024 ∧ m.step.status = .running ∧
      m.step.state.gas.remaining.toNat + 1 ≤ 25 ∧
      ∃ calls reason, calls ≤ 26 ∧ RunsIn calls m m.run ∧ m.run.status = .exited reason ∧
        m.callRun.reason? = some reason ∧ [Command.step, .run].foldl perform m.run = m.run := by
  intro m
  have hrunning : m.status = .running := rfl
  have hstack : m.state.stack.size ≤ 1024 := by decide
  have hstep : m.step.status = .running := by decide +kernel
  obtain ⟨_, hless, calls, reason, hle, hruns, hexited, hreason, hstays⟩ :=
    run_ends_within_gas m hstack
  exact ⟨hrunning, hstack, hstep, hless hstep, calls, reason, hle, hruns, hexited, hreason,
    (hstays [.step, .run] (by simp)).1⟩

end Machine

/-! ## Runs without a policy -/

namespace State

variable {code data : Array UInt8} {limit : UInt64} {s : State}

/-- A step on states, where no policy interferes. -/
def next (s : State) : State :=
  match s.status with
  | .exited _ => s
  | .running => s.advanced

/-- A step leaves an exited state alone. -/
theorem next_of_exited {reason : ExitReason} (h : s.status = .exited reason) : s.next = s := by
  rw [next, h]

/-- A step of a running state is an evaluation. -/
theorem next_of_running (h : s.status = .running) : s.next = s.advanced := by
  rw [next, h]

/-- An exited state stays as it is. -/
theorem iterate_next_of_exited {reason : ExitReason} (h : s.status = .exited reason)
    (rounds : Nat) : next^[rounds] s = s :=
  Function.iterate_fixed (next_of_exited h) rounds

/-- The invariant holds after any number of steps on states. -/
theorem Sound.iterate_next (h : s.Sound code data limit) (rounds : Nat) :
    (next^[rounds] s).Sound code data limit := by
  induction rounds with
  | zero => exact h
  | succ rounds ih =>
    rw [Function.iterate_succ_apply', next]
    split
    next => exact ih
    next => exact ih.advanced

end State

namespace Machine

/-- Where every step is permitted, steps are steps on states. -/
theorem iterate_step_permit {m : Machine Unit} (h : m.policy = .permit) (rounds : Nat) :
    (step^[rounds] m).state = State.next^[rounds] m.state ∧
      (step^[rounds] m).policy = .permit := by
  induction rounds with
  | zero => exact ⟨rfl, h⟩
  | succ rounds ih =>
    obtain ⟨hstate, hpolicy⟩ := ih
    rw [Function.iterate_succ_apply', Function.iterate_succ_apply', ← hstate]
    cases hstatus : (step^[rounds] m).state.status with
    | exited reason =>
      rw [step_of_exited hstatus, State.next_of_exited hstatus]
      exact ⟨rfl, hpolicy⟩
    | running =>
      have hverdict : (step^[rounds] m).verdict.refusal? = none := by
        rw [verdict, hpolicy]
        rfl
      rw [step_of_permitted hstatus hverdict, State.next_of_running hstatus]
      exact ⟨rfl, hpolicy⟩

/-- A machine at the start of its code with words on its stack, under the policy that
permits everything. -/
def unguarded (code data : Array UInt8) (gasLimit : UInt64) (context : Context)
    (words : List Word) : Machine Unit :=
  (ofCode code data gasLimit context .permit ()).seed words

section

variable (code data : Array UInt8) (gasLimit : UInt64) (context : Context) (words : List Word)

/-- The invariant holds at the start of an unguarded run. -/
theorem sound_unguarded :
    (unguarded code data gasLimit context words).state.Sound code data gasLimit :=
  sound_start code data gasLimit context .permit () words

/-- An unguarded run ends with an exit. -/
theorem exists_exit_run_unguarded :
    ∃ reason, (unguarded code data gasLimit context words).run.state.status = .exited reason :=
  (isRunning_eq_false_iff _).1
    (isRunning_run (sound_unguarded code data gasLimit context words).stack_le)

/-- An unguarded run ends where sufficiently many steps on states lead. -/
theorem exists_run_unguarded_eq :
    ∃ enough, ∀ rounds, enough ≤ rounds →
      (unguarded code data gasLimit context words).run.state =
        State.next^[rounds] (unguarded code data gasLimit context words).state := by
  obtain ⟨reason, hexited⟩ := exists_exit_run_unguarded code data gasLimit context words
  rw [run_eq_iterate, (iterate_step_permit rfl _).1] at hexited ⊢
  refine ⟨(unguarded code data gasLimit context words).stepBound, ?_⟩
  intro rounds hle
  obtain ⟨more, hmore⟩ := Nat.exists_eq_add_of_le' hle
  rw [hmore, Function.iterate_add_apply, State.iterate_next_of_exited hexited]

end

/-- What relates the starts of two unguarded runs and is preserved when both take a step
relates their ends. -/
theorem related_run_unguarded {R : State → State → Prop} {code code' data data' : Array UInt8}
    {gasLimit gasLimit' : UInt64} {context context' : Context} {words words' : List Word}
    (hnext : ∀ s t, s.Sound code data gasLimit → t.Sound code' data' gasLimit' → R s t →
      R s.next t.next)
    (hstart : R (unguarded code data gasLimit context words).state
      (unguarded code' data' gasLimit' context' words').state) :
    R (unguarded code data gasLimit context words).run.state
      (unguarded code' data' gasLimit' context' words').run.state := by
  have hiterate (rounds : Nat) :
      R (State.next^[rounds] (unguarded code data gasLimit context words).state)
        (State.next^[rounds] (unguarded code' data' gasLimit' context' words').state) := by
    induction rounds with
    | zero => exact hstart
    | succ rounds ih =>
      rw [Function.iterate_succ_apply', Function.iterate_succ_apply']
      exact hnext _ _ ((sound_unguarded code data gasLimit context words).iterate_next rounds)
        ((sound_unguarded code' data' gasLimit' context' words').iterate_next rounds) ih
  obtain ⟨enough, hrun⟩ := exists_run_unguarded_eq code data gasLimit context words
  obtain ⟨enough', hrun'⟩ := exists_run_unguarded_eq code' data' gasLimit' context' words'
  rw [hrun (max enough enough') (Nat.le_max_left _ _),
    hrun' (max enough enough') (Nat.le_max_right _ _)]
  exact hiterate _

end Machine

end MeteredMachine
