import Mathlib.Algebra.GroupWithZero.Nat
import MeteredMachine.Proofs.RecordedHistory
import MeteredMachine.Proofs.Representation
import MeteredMachine.Proofs.Run

/-!
# Traced runs

A traced run takes the same steps as a plain run and ends in the same machine.  Its log has one
entry for every step that starts at a byte of the code.  Only the last step of a run can start
behind the code, and then it costs nothing, so the log accounts for all gas of the run; and only
the last step can end in a fault, so no other entry has an error.

Main results:

- Definition {lit}`Trace.Recorder.logOf` is the log of the first steps of a machine.
- Theorem {lit}`Trace.Recorder.run_eq`: a traced run takes the steps of a plain run and records
  their log.
- Structure {lit}`Trace.FaithfulLog` says how a log describes a run.
- Theorem {lit}`Trace.Recorder.run_logs_faithfully` says that every traced run has such a log.
-/

namespace MeteredMachine

/-! ## Steps behind the code and steps with a fault -/

namespace State

variable {s : State}

theorem currentByte?_ne_none_of_running (hbound : s.stack.size ≤ Schedule.maxStackSize)
    (hrun : s.advanced.status = .running) : s.currentByte? ≠ none := by
  obtain ⟨p, _⟩ := advanced_of_running hbound hrun
  have hcurrent := p.current_eq
  intro hnone
  rw [currentOpcode?, hnone] at hcurrent
  cases hcurrent

/-- An evaluation behind the end of the code only ends the machine. -/
theorem advanced_of_currentByte?_eq_none (hnone : s.currentByte? = none) :
    s.advanced = { s with status := .exited (.success .stopped) } := by
  apply advanced_of_unchanged
  rw [eval, hnone]

/-- A fault leaves the program counter at the instruction that failed. -/
theorem pc_advanced_of_fault {fault : Fault} (hbound : s.stack.size ≤ Schedule.maxStackSize)
    (hrun : s.status = .running) (hfault : s.advanced.status = .exited (.fault fault)) :
    s.advanced.pc = s.pc := by
  rw [status_advanced hbound hrun] at hfault
  obtain ⟨status, heq⟩ := s.advanced_eq
  rw [heq]
  rcases eval_cases hbound with ⟨_, reason, heval⟩ | ⟨p, _, heval⟩
  · rw [heval]
  · rw [heval, Payment.outcome] at hfault ⊢
    rcases p.op.outcome_cases p.charged p.operands p.rest with
      ⟨hout, _⟩ | ⟨_, ⟨_, _, hout⟩ | ⟨control, _, hout⟩⟩
    · rw [hout]
      rfl
    · rw [hout]
      rfl
    · rw [hout] at hfault
      cases control <;> cases hfault

end State

namespace Machine

variable {σ : Type} {m : Machine σ}

theorem currentByte?_ne_none_of_step (hbound : m.state.stack.size ≤ Schedule.maxStackSize)
    (hrun : m.step.isRunning = true) : m.state.currentByte? ≠ none :=
  State.currentByte?_ne_none_of_running hbound (state_step_of_running hrun).2

/-- A step behind the end of the code changes at most the status. -/
theorem state_step_of_currentByte?_eq_none (hnone : m.state.currentByte? = none) :
    ∃ status, m.step.state = { m.state with status } := by
  rcases step_cases m with ⟨_, _, hstep⟩ | ⟨_, _, _, hstep⟩ | ⟨_, _, hstep⟩
  · exact ⟨_, hstep⟩
  · exact ⟨_, hstep⟩
  · exact ⟨_, hstep.trans (State.advanced_of_currentByte?_eq_none hnone)⟩

theorem pc_step_of_fault {fault : Fault} (hbound : m.state.stack.size ≤ Schedule.maxStackSize)
    (hfault : m.step.status = .exited (.fault fault)) : m.step.state.pc = m.state.pc := by
  rw [status] at hfault
  rcases step_cases m with ⟨_, _, hstep⟩ | ⟨_, _, _, hstep⟩ | ⟨hrun, _, hstep⟩
  · rw [hstep]
  · rw [hstep]
  · rw [hstep] at hfault ⊢
    exact State.pc_advanced_of_fault hbound hrun hfault

theorem remaining_step_le (hbound : m.state.stack.size ≤ Schedule.maxStackSize) :
    m.step.state.gas.remaining.toNat ≤ m.state.gas.remaining.toNat := by
  rcases step_cases m with ⟨_, _, hstep⟩ | ⟨_, _, _, hstep⟩ | ⟨_, _, hstep⟩
  · rw [hstep]
  · rw [hstep]
  · rw [hstep]
    exact State.remaining_advanced_le hbound

end Machine

namespace Trace

/-! ## Logs -/

namespace Entry

/-- An entry without the parts that options decide about. -/
def plain (e : Entry) : Entry :=
  { e with gasSplit? := none, stack? := none, slots? := none, memory? := none, storage? := none }

/-- The same entry at another call depth. -/
def atDepth (depth : Nat) (e : Entry) : Entry :=
  { e with depth }

theorem gasBetween_of_le {before after : UInt64} (hle : after.toNat ≤ before.toNat) :
    gasBetween before after = before - after := by
  rw [gasBetween, if_pos (UInt64.le_iff_toNat_le.2 hle)]

theorem toNat_gasBetween {before after : UInt64} (hle : after.toNat ≤ before.toNat) :
    (gasBetween before after).toNat + after.toNat = before.toNat := by
  rw [gasBetween_of_le hle, UInt64.toNat_sub_of_le _ _ (UInt64.le_iff_toNat_le.2 hle)]
  omega

theorem errorText_eq_some_iff (status : Status) (text : String) :
    errorText status = some text ↔
      ∃ fault, status = .exited (.fault fault) ∧ fault.message = text := by
  rcases status with _ | (_ | fault) <;> simp [errorText]

end Entry

end Trace

/-- What a log says about the next step of a machine under all options: there is an entry if
the step starts at a byte of the code. -/
def Machine.loggedStep {σ : Type} (m : Machine σ) : Option Trace.Entry :=
  m.state.code[m.state.pc]?.map fun byte =>
    { pc := m.state.pc
      opcode := byte
      depth := 0
      address := m.context.address
      gas := m.state.gas.remaining
      gasCost := m.state.gas.remaining - m.step.state.gas.remaining
      error? := Trace.Entry.errorText m.step.status }

namespace Trace

namespace CallForest

/-- Entries one after the other, with nothing below them. -/
def flat : List Entry → CallForest
  | [] => nil
  | entry :: rest => node entry nil (flat rest)

@[simp] theorem flatten_flat (entries : List Entry) : (flat entries).flatten = entries := by
  induction entries with
  | nil => rfl
  | cons entry rest ih => simp [flat, flatten, ih]

@[simp] theorem push_flat (entries : List Entry) (entry : Entry) :
    (flat entries).push entry = flat (entries ++ [entry]) := by
  induction entries with
  | nil => rfl
  | cons first rest ih => exact congrArg (node first nil) ih

end CallForest

namespace Recorder

variable {σ : Type} (o : Options) (storage? : Option Storage)

/-- The entry of the next step of a machine, if it starts at a byte of the code. -/
def stepEntry (m : Machine σ) : Option Entry :=
  m.state.currentByte?.map fun byte =>
    .ofSnapshots o 0 byte (.capture o m storage?) (.capture o m.step storage?)

/-- The entries of the first steps of a machine. -/
def logOf (steps : Nat) (m : Machine σ) : List Entry :=
  (List.range steps).filterMap fun i => stepEntry o storage? (Machine.step^[i] m)

/-- A recorder without open calls or pending snapshots that has recorded some entries. -/
def withLog (log : List Entry) : Recorder :=
  { ofOptions o with current := .flat log }

variable {o storage?} {m final : Machine σ}

theorem recorded?_capture (hrun : m.isRunning = true) (r : Recorder) (after : Snapshot) :
    r.recorded? (.capture o m storage?) after =
      m.state.currentByte?.map fun byte =>
        .ofSnapshots r.options r.depth byte (.capture o m storage?) after := by
  have hstatus : (Snapshot.capture o m storage?).status = .running :=
    (Machine.isRunning_eq_true_iff m).1 hrun
  have hbyte : (Snapshot.capture o m storage?).byte? = m.state.currentByte? := rfl
  rw [recorded?, hstatus, hbyte]
  cases m.state.currentByte? <;> rfl

/-- A round of a running machine steps it, forgets the pending snapshots and pushes the entry of
the step at the depth of the recorder. -/
theorem round_of_running (hrun : m.isRunning = true) (r : Recorder) :
    round storage? { recorder := r, machine := m } =
      { recorder :=
          { r with
            before? := none
            after? := none
            current := ((stepEntry r.options storage? m).map (Entry.atDepth r.depth)).elim
              r.current r.current.push }
        machine := m.step } := by
  rw [round, callRound, complete_eq, stepEntry]
  simp only [before, after, Option.bind_some, recorded?_capture hrun]
  cases m.state.currentByte? <;> rfl

/-- A round of a running machine steps it and logs the step. -/
theorem round_withLog (hrun : m.isRunning = true) (log : List Entry) :
    round storage? { recorder := withLog o log, machine := m } =
      { recorder := withLog o (log ++ (stepEntry o storage? m).toList), machine := m.step } := by
  have hentry : (stepEntry (withLog o log).options storage? m).map
      (Entry.atDepth (withLog o log).depth) = stepEntry o storage? m := by
    rw [stepEntry, Option.map_map]
    rfl
  rw [round_of_running hrun, hentry]
  cases stepEntry o storage? m <;> simp [withLog, ofOptions]

variable (o storage?)

theorem logOf_succ (steps : Nat) (m : Machine σ) :
    logOf o storage? (steps + 1) m =
      logOf o storage? steps m ++ (stepEntry o storage? (Machine.step^[steps] m)).toList := by
  rw [logOf, List.range_succ, List.filterMap_append, logOf]
  cases hentry : stepEntry o storage? (Machine.step^[steps] m) <;> simp [hentry]

theorem iterate_round {calls : Nat}
    (hrun : ∀ i, i < calls → (Machine.step^[i] m).isRunning = true) :
    (round storage?)^[calls] { recorder := .ofOptions o, machine := m } =
      { recorder := withLog o (logOf o storage? calls m), machine := Machine.step^[calls] m } := by
  induction calls with
  | zero => rfl
  | succ calls ih =>
    rw [Function.iterate_succ_apply', ih (fun i hi => hrun i (by omega)),
      round_withLog (hrun calls (by omega)), logOf_succ, Function.iterate_succ_apply']

theorem drives_callRound :
    Machine.Drives (callRound storage?) (Traced.machine : Traced σ → Machine σ) :=
  ⟨fun _ => rfl, fun _ => rfl⟩

/-- A traced run takes one round for each step of a plain run, and answers with the reason of its
exit. -/
theorem callRun_eq {calls : Nat} (hbound : m.state.stack.size ≤ Schedule.maxStackSize)
    (h : Machine.RunsIn calls m final) (hle : calls ≤ m.stepBound) (r : Recorder) :
    callRun storage? { recorder := r, machine := m } =
      { after := (round storage?)^[calls] { recorder := r, machine := m }
        reason? := final.status.exitReason? } :=
  Machine.RunsIn.untilExit_eq (drives_callRound storage?) hbound h hle

/-- A traced run takes the steps of a plain run and records their log. -/
theorem run_eq {steps : Nat} (hbound : m.state.stack.size ≤ Schedule.maxStackSize)
    (hrunning : m.isRunning = true) (hruns : Machine.RunsIn steps m final)
    (hle : steps ≤ m.stepBound) :
    let start : Traced σ := { recorder := .ofOptions o, machine := m }
    run storage? start = (round storage?)^[steps] start ∧
      run storage? start =
        { recorder := withLog o (logOf o storage? steps m), machine := final } := by
  intro start
  have hrounds : run storage? start = (round storage?)^[steps] start :=
    congrArg Ended.after (callRun_eq storage? hbound hruns hle _)
  have hlog := iterate_round o storage? fun i hi => hruns.isRunning_iterate hrunning hi
  rw [← hruns.eq_iterate] at hlog
  exact ⟨hrounds, hrounds.trans hlog⟩

/-! ## Entries of a log -/

/-- A list of optional items that may lack only the last keeps their positions. -/
theorem getElem?_filterMap_range {α : Type} {f : Nat → Option α} {n : Nat}
    (hsome : ∀ i, i + 1 < n → (f i).isSome) (i : Nat) :
    ((List.range n).filterMap f)[i]? = if i < n then f i else none := by
  induction n with
  | zero => rfl
  | succ n ih =>
    have hlength : ((List.range n).filterMap f).length = n := by
      rw [List.filterMap_length_eq_length.2, List.length_range]
      intro j hj
      rw [List.mem_range] at hj
      exact hsome j (by omega)
    rw [List.range_succ, List.filterMap_append, List.getElem?_append, hlength,
      ih fun j hj => hsome j (by omega)]
    rcases Nat.lt_trichotomy i n with hlt | rfl | hgt
    · rw [if_pos hlt, if_pos hlt, if_pos (by omega)]
    · rw [if_neg (Nat.lt_irrefl i), if_pos (Nat.lt_succ_self i), Nat.sub_self]
      cases hitem : f i <;> simp [hitem]
    · rw [if_neg (by omega), if_neg (by omega), List.getElem?_eq_none]
      have hle := List.length_filterMap_le f [n]
      rw [List.length_singleton] at hle
      omega

section

variable {steps : Nat} (hbound : m.state.stack.size ≤ Schedule.maxStackSize)
  (hrunning : m.isRunning = true) (hruns : Machine.RunsIn steps m final)

include hbound hrunning hruns

/-- Only the last step of a run can start behind the code. -/
theorem isSome_stepEntry_iterate {i : Nat} (hlt : i + 1 < steps) :
    (stepEntry o storage? (Machine.step^[i] m)).isSome := by
  have hnext := hruns.isRunning_iterate hrunning hlt
  rw [Function.iterate_succ_apply'] at hnext
  have hbyte := Machine.currentByte?_ne_none_of_step
    (Machine.size_stack_iterate_step_le hbound i) hnext
  rw [stepEntry, Option.isSome_map]
  exact Option.isSome_iff_ne_none.2 hbyte

theorem getElem?_logOf (i : Nat) :
    (logOf o storage? steps m)[i]? =
      if i < steps then stepEntry o storage? (Machine.step^[i] m) else none :=
  getElem?_filterMap_range
    (fun _ hlt => isSome_stepEntry_iterate o storage? hbound hrunning hruns hlt) i

/-- The first entries of a run are those of its first steps. -/
theorem take_logOf {i : Nat} (hle : i ≤ steps) :
    (logOf o storage? steps m).take i = logOf o storage? i m := by
  apply List.ext_getElem?
  intro j
  have hprefix : (logOf o storage? i m)[j]? =
      if j < i then stepEntry o storage? (Machine.step^[j] m) else none :=
    getElem?_filterMap_range (fun k hlt => isSome_stepEntry_iterate o storage? hbound hrunning
      hruns (Nat.lt_of_lt_of_le hlt hle)) j
  rw [List.getElem?_take, getElem?_logOf o storage? hbound hrunning hruns, hprefix]
  by_cases hlt : j < i
  · rw [if_pos hlt, if_pos hlt, if_pos (Nat.lt_of_lt_of_le hlt hle)]
  · rw [if_neg hlt, if_neg hlt]

end

/-- What the entry of a step says about gas and errors. -/
theorem of_stepEntry_eq_some (hbound : m.state.stack.size ≤ Schedule.maxStackSize) {e : Entry}
    (he : stepEntry o storage? m = some e) :
    e.gas = m.state.gas.remaining ∧
      e.gasCost.toNat + m.step.state.gas.remaining.toNat = m.state.gas.remaining.toNat ∧
      e.error? = Entry.errorText m.step.status := by
  obtain ⟨byte, _, rfl⟩ := Option.map_eq_some_iff.1 he
  exact ⟨rfl, Entry.toNat_gasBetween (Machine.remaining_step_le hbound), rfl⟩

theorem plain_stepEntry (hbound : m.state.stack.size ≤ Schedule.maxStackSize) :
    (stepEntry o storage? m).map Entry.plain = m.loggedStep := by
  rw [stepEntry, Option.map_map]
  apply Option.map_congr
  intro byte _
  simp only [Function.comp, Entry.ofSnapshots, Entry.plain, Snapshot.capture,
    Entry.gasBetween_of_le (Machine.remaining_step_le hbound)]
  rfl

theorem plain_logOf (hbound : m.state.stack.size ≤ Schedule.maxStackSize) (steps : Nat) :
    (logOf o storage? steps m).map Entry.plain =
      (List.range steps).filterMap fun i => (Machine.step^[i] m).loggedStep := by
  rw [logOf, List.map_filterMap]
  apply List.filterMap_congr
  intro i _
  exact plain_stepEntry o storage? (Machine.size_stack_iterate_step_le hbound i)

/-- The costs in a log add up to the gas that its steps take; a step without an entry takes
none. -/
theorem sum_gasCost_logOf (hbound : m.state.stack.size ≤ Schedule.maxStackSize) (steps : Nat) :
    ((logOf o storage? steps m).map (·.gasCost.toNat)).sum +
        (Machine.step^[steps] m).state.gas.remaining.toNat =
      m.state.gas.remaining.toNat := by
  induction steps with
  | zero => exact Nat.zero_add _
  | succ steps ih =>
    rw [logOf_succ, List.map_append, List.sum_append, Function.iterate_succ_apply']
    cases hentry : stepEntry o storage? (Machine.step^[steps] m) with
    | none =>
      obtain ⟨_, hstate⟩ :=
        Machine.state_step_of_currentByte?_eq_none (Option.map_eq_none_iff.1 hentry)
      rw [hstate, Option.toList_none, List.map_nil, List.sum_nil]
      exact ih
    | some e =>
      have hcost := (of_stepEntry_eq_some o storage?
        (Machine.size_stack_iterate_step_le hbound steps) hentry).2.1
      simp only [Option.toList_some, List.map_cons, List.map_nil, List.sum_singleton]
      omega

/-- A step that leaves the machine running has no error. -/
theorem error?_stepEntry_of_running (hbound : m.state.stack.size ≤ Schedule.maxStackSize)
    {e : Entry} (he : stepEntry o storage? m = some e) (hrun : m.step.isRunning = true) :
    e.error? = none := by
  rw [(of_stepEntry_eq_some o storage? hbound he).2.2, Machine.status,
    (Machine.isRunning_eq_true_iff _).1 hrun]
  rfl

theorem error?_of_mem_logOf (hbound : m.state.stack.size ≤ Schedule.maxStackSize) {steps : Nat}
    (hrun : ∀ i, i < steps → (Machine.step^[i + 1] m).isRunning = true) :
    ∀ e ∈ logOf o storage? steps m, e.error? = none := by
  intro e he
  obtain ⟨i, hi, hentry⟩ := List.mem_filterMap.1 he
  have hnext := hrun i (List.mem_range.1 hi)
  rw [Function.iterate_succ_apply'] at hnext
  exact error?_stepEntry_of_running o storage? (Machine.size_stack_iterate_step_le hbound i)
    hentry hnext

end Recorder

/-! ## Faithful logs -/

/-- A log describes the run of a machine in so many steps to its end.  It has what is known under
all options about each step that starts at a byte of the code; what an entry leaves of its gas
is the gas of the next one; the costs are what the run spends; and only the last entry can have
an error, the text of the fault that ends the run at a byte of the code. -/
structure FaithfulLog {σ : Type} (m final : Machine σ) (steps : Nat) (log : List Entry) : Prop where
  plain_eq : log.map Entry.plain =
    (List.range steps).filterMap fun i => (Machine.step^[i] m).loggedStep
  gas_eq : ∀ i e next, log[i]? = some e → log[i + 1]? = some next →
    e.gas.toNat = e.gasCost.toNat + next.gas.toNat
  cost_sum : final.state.gas.spent.toNat =
    m.state.gas.spent.toNat + (log.map (·.gasCost.toNat)).sum
  error_none : ∀ i e, log[i]? = some e → i + 1 < log.length → e.error? = none
  error_last : ∀ text, log.getLast?.bind (·.error?) = some text ↔
    ∃ fault, final.status = .exited (.fault fault) ∧
      final.state.pc < final.state.code.size ∧ fault.message = text

namespace Recorder

variable {σ : Type} {m final : Machine σ} {steps : Nat} {code data : Array UInt8} {limit : UInt64}

/-- The last entry has the text of the fault that ends a run, unless the last step starts behind
the code. -/
theorem error_last_logOf (o : Options) (storage? : Option Storage)
    (hsound : m.state.Sound code data limit) (hrunning : m.isRunning = true)
    (hruns : Machine.RunsIn steps m final) (text : String) :
    (logOf o storage? steps m).getLast?.bind (·.error?) = some text ↔
      ∃ fault, final.status = .exited (.fault fault) ∧ final.state.pc < code.size ∧
        fault.message = text := by
  cases steps with
  | zero => cases hruns
  | succ n =>
    have hlast := Machine.sound_iterate_step hsound n
    have hfinal : final = (Machine.step^[n] m).step := by
      rw [hruns.eq_iterate, Function.iterate_succ_apply']
    rw [hfinal, logOf_succ]
    cases hentry : stepEntry o storage? (Machine.step^[n] m) with
    | some e =>
      obtain ⟨byte, hbyte, _⟩ := Option.map_eq_some_iff.1 hentry
      rw [State.currentByte?, hlast.code_eq] at hbyte
      obtain ⟨hlt, _⟩ := Array.getElem?_eq_some_iff.1 hbyte
      have herror := (of_stepEntry_eq_some o storage? hlast.stack_le hentry).2.2
      rw [Option.toList_some, List.getLast?_concat, Option.bind_some, herror,
        Entry.errorText_eq_some_iff]
      apply exists_congr
      intro fault
      refine ⟨?_, fun h => ⟨h.1, h.2.2⟩⟩
      rintro ⟨hstatus, htext⟩
      exact ⟨hstatus, (Machine.pc_step_of_fault hlast.stack_le hstatus).symm ▸ hlt, htext⟩
    | none =>
      have hnone := Option.map_eq_none_iff.1 hentry
      rw [State.currentByte?, hlast.code_eq, Array.getElem?_eq_none_iff] at hnone
      have hclean : ∀ e ∈ logOf o storage? n m, e.error? = none :=
        error?_of_mem_logOf o storage? hsound.stack_le
          fun i hi => hruns.isRunning_iterate hrunning (Nat.succ_lt_succ hi)
      rw [Option.toList_none, List.append_nil]
      constructor
      · intro htext
        obtain ⟨e, he, herror⟩ := Option.bind_eq_some_iff.1 htext
        cases (hclean e (List.mem_of_getLast? he)).symm.trans herror
      · rintro ⟨fault, hstatus, hlt, _⟩
        rw [Machine.pc_step_of_fault hlast.stack_le hstatus] at hlt
        omega

/-- The log of a run describes it. -/
theorem faithfulLog_logOf (o : Options) (storage? : Option Storage)
    (hsound : m.state.Sound code data limit) (hrunning : m.isRunning = true)
    (hruns : Machine.RunsIn steps m final) :
    FaithfulLog m final steps (logOf o storage? steps m) := by
  have hbound := hsound.stack_le
  have hentry (i : Nat) (e : Entry) (he : (logOf o storage? steps m)[i]? = some e) :
      i < steps ∧ stepEntry o storage? (Machine.step^[i] m) = some e := by
    rw [getElem?_logOf o storage? hbound hrunning hruns] at he
    split at he
    next hlt => exact ⟨hlt, he⟩
    next => cases he
  have hfinal : final.state.Sound code data limit := by
    rw [hruns.eq_iterate]
    exact Machine.sound_iterate_step hsound steps
  refine ⟨plain_logOf o storage? hbound steps, ?_, ?_, ?_, ?_⟩
  · intro i e next he hnext
    obtain ⟨_, he⟩ := hentry i e he
    obtain ⟨_, hnext⟩ := hentry (i + 1) next hnext
    have hstack := Machine.size_stack_iterate_step_le hbound
    obtain ⟨hgas, hcost, _⟩ := of_stepEntry_eq_some o storage? (hstack i) he
    obtain ⟨hgas', _, _⟩ := of_stepEntry_eq_some o storage? (hstack (i + 1)) hnext
    rw [hgas, hgas', Function.iterate_succ_apply', hcost]
  · have hsum := sum_gasCost_logOf o storage? hbound steps
    rw [← hruns.eq_iterate] at hsum
    have hbefore := hsound.balanced.sum_eq
    have hafter := hfinal.balanced.sum_eq
    omega
  · intro i e he hlt
    obtain ⟨next, hnext⟩ : ∃ next, (logOf o storage? steps m)[i + 1]? = some next :=
      ⟨_, List.getElem?_eq_getElem hlt⟩
    obtain ⟨_, he⟩ := hentry i e he
    obtain ⟨hless, _⟩ := hentry (i + 1) next hnext
    have hrun := hruns.isRunning_iterate hrunning hless
    rw [Function.iterate_succ_apply'] at hrun
    exact error?_stepEntry_of_running o storage? (Machine.size_stack_iterate_step_le hbound i)
      he hrun
  · rw [hfinal.code_eq]
    exact error_last_logOf o storage? hsound hrunning hruns

/-- A traced run is the plain run and a faithful log.  From every running machine that a host
can bring about, under every policy, a plain run takes some number of steps to an exit and answers
with its reason; a traced run takes one round for each of them, under all options and with or
without a storage, answers with the same reason, ends with the same machine, what its policy
remembers included, and has recorded a log without calls that describes the run. -/
theorem run_logs_faithfully (code data : Array UInt8) (gasLimit : UInt64) (context : Context)
    (policy : Policy σ) (memo : σ) (commands : List Machine.Command) :
    let m := commands.foldl Machine.perform (.ofCode code data gasLimit context policy memo)
    m.status = .running →
      ∃ steps reason, Machine.RunsIn steps m m.run ∧ m.run.status = .exited reason ∧
        m.callRun.reason? = some reason ∧
        ∀ (o : Options) (storage? : Option Storage),
          let start : Traced σ := { recorder := .ofOptions o, machine := m }
          let traced := run storage? start
          (callRun storage? start).reason? = some reason ∧
            traced = (round storage?)^[steps] start ∧ traced.machine = m.run ∧
            ∃ log, traced.recorder.finish = .flat log ∧ FaithfulLog m m.run steps log := by
  intro m hstatus
  have hrunning : m.isRunning = true := (Machine.isRunning_eq_true_iff m).2 hstatus
  have hsound : m.state.Sound code data gasLimit :=
    Machine.sound_performAll (State.sound_initial code data gasLimit) commands
  obtain ⟨steps, hle, hruns, hcall⟩ := Machine.exists_runsIn_callRun hsound.stack_le
  obtain ⟨reason, hreason⟩ := (Machine.isRunning_eq_false_iff _).1 hruns.isRunning_final
  have hanswer : m.run.status.exitReason? = some reason := by
    rw [Machine.status, hreason]
    rfl
  refine ⟨steps, reason, hruns, hreason, by rw [hcall, hanswer], ?_⟩
  intro o storage? start traced
  obtain ⟨hrounds, htraced⟩ := run_eq o storage? hsound.stack_le hrunning hruns hle
  refine ⟨?_, hrounds, congrArg Traced.machine htraced, logOf o storage? steps m, ?_, ?_⟩
  · rw [callRun_eq storage? hsound.stack_le hruns hle, hanswer]
  · exact congrArg (fun t => t.recorder.finish) htraced
  · exact faithfulLog_logOf o storage? hsound hrunning hruns

/-- A jump to a position that is no jump destination, under a policy that keeps what it is
asked: the run ends in a fault, and its text is the error of the last entry. -/
theorem run_logs_faithfully_of_jump :
    let m : Machine StockPolicy :=
      .ofCode #[0x60, 0x07, 0x56] #[] 100 default StockPolicy.policy (.record #[])
    let start : Traced StockPolicy := { recorder := .ofOptions {}, machine := m }
    let traced := run none start
    m.status = .running ∧ traced.machine = m.run ∧
      (callRun none start).reason? = some (.fault (.invalidJump 7)) ∧
      ∃ log, traced.recorder.finish = .flat log ∧
        m.run.state.gas.spent.toNat = (log.map (·.gasCost.toNat)).sum ∧
        log.getLast?.bind (·.error?) = some "invalid jump destination: 7" := by
  intro m start traced
  have hrunning : m.status = .running := rfl
  have hspent : m.state.gas.spent.toNat = 0 := rfl
  have hstatus : m.run.status = .exited (.fault (.invalidJump 7)) := by decide +kernel
  have hpc : m.run.state.pc < m.run.state.code.size := by decide +kernel
  have htext : (Fault.invalidJump 7).message = "invalid jump destination: 7" := by decide +kernel
  obtain ⟨steps, reason, _, (hreason : m.run.status = .exited reason), _, htraced⟩ :=
    run_logs_faithfully #[0x60, 0x07, 0x56] #[] 100 default StockPolicy.policy (.record #[]) []
      hrunning
  obtain rfl : ExitReason.fault (.invalidJump 7) = reason :=
    Status.exited.inj (hstatus.symm.trans hreason)
  obtain ⟨hanswer, _, hmachine, log, hfinish, (hlog : FaithfulLog m m.run steps log)⟩ :=
    htraced {} none
  refine ⟨hrunning, hmachine, hanswer, log, hfinish, ?_, ?_⟩
  · rw [hlog.cost_sum, hspent, Nat.zero_add]
  · exact (hlog.error_last _).2 ⟨.invalidJump 7, hstatus, hpc, htext⟩

end Recorder

end Trace

end MeteredMachine
