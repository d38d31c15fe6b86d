import MeteredMachine.Proofs.MemoryCharge
import MeteredMachine.Proofs.TracedRun

/-!
# The gas of a recorded step

A recorder splits the gas of a step into a fixed and a dynamic part without being told whether
the step was paid for: it has two readings of the meter and the catalog.  The split is right
all the same.  A step that pays takes at least the fixed part of its price, so the rest is what
the operands or the growth of memory cost; a step that does not pay takes nothing, so both
parts are zero, whatever the catalog says about its instruction.

Main results:

- Definition {lit}`CostRule.SplitsInto` says what the two parts of a price are under a rule.
- Theorem {lit}`Machine.charge_cases`: a step takes nothing, or the two parts of its price.
- Structure {lit}`Trace.GasSplit.Accounts` says how a split describes a step.
- Theorem {lit}`Trace.Recorder.flatten_iterate_round`: a recorder appends the log of a run to
  what it has recorded, at the depth that it has reached.
- Theorem {lit}`Trace.Recorder.gas_breakdown_exact` says that every entry of a traced run has
  such a split.
-/

namespace MeteredMachine

/-! ## The two parts of a price -/

namespace CostRule

/-- The fixed and the dynamic part of the gas of a step that pays under a rule, between the
states around it.  The dynamic part of an exponentiation follows from its second operand, and
that of a memory rule is what the step adds to the total price of memory. -/
def SplitsInto (rule : CostRule) (before after : State) (base dynamic : Nat) : Prop :=
  match rule with
  | fixed gas => base = gas.toNat ∧ dynamic = 0
  | exponent =>
    base = 10 ∧
      ∃ power, before.stack.toList[1]? = some power ∧ dynamic = 50 * power.byteLength
  | memory flat _ _ =>
    base = flat.toNat ∧
      dynamic + memoryTotal (before.memory.size / 32) = memoryTotal (after.memory.size / 32)

/-- A price is the fixed part of its rule and the dynamic part that goes with it, if the memory
after the step is what the rule prices. -/
theorem splitsInto_of_stepCost {rule : CostRule} {before after : State} {cost : UInt64}
    (haligned : 32 ∣ before.memory.size)
    (hsize : after.memory.size = (rule.covered before.stack before.memory).size)
    (hprice : stepCost rule before.stack before.memory = .ok cost) :
    ∃ dynamic, cost.toNat = rule.fixedPart.toNat + dynamic ∧
      rule.SplitsInto before after rule.fixedPart.toNat dynamic := by
  cases rule with
  | fixed gas =>
    cases hprice
    exact ⟨0, rfl, rfl, rfl⟩
  | exponent =>
    rw [stepCost, Stack.peek_toList] at hprice
    cases hpower : before.stack.toList[1]? with
    | none => simp [hpower] at hprice
    | some power =>
      simp only [hpower, Except.ok.injEq] at hprice
      subst hprice
      exact ⟨50 * power.byteLength, toNat_expGas power, rfl, power, hpower, rfl⟩
  | memory flat offset length =>
    obtain ⟨growth, hcost, htotal⟩ := stepCost_eq_flatPart_add hprice
    refine ⟨growth, hcost, rfl, ?_⟩
    rw [hsize]
    exact htotal haligned

end CostRule

/-! ## What a step takes from the meter -/

namespace Machine

variable {σ : Type} {m : Machine σ} {code data : Array UInt8} {limit : UInt64}

/-- The instruction that the next step pays for.  There is none if the machine has exited, the
policy refuses the step, or a check fails before the charge. -/
def chargedOpcode? (m : Machine σ) : Option Opcode :=
  match m.status, m.verdict.refusal? with
  | .running, none => m.state.paidOpcode?
  | _, _ => none

/-- A step leaves the meter alone, or pays for the current instruction and takes the two parts
of its price. -/
theorem charge_cases (h : m.state.Sound code data limit) :
    (m.chargedOpcode? = none ∧ m.step.state.gas = m.state.gas) ∨
      ∃ op dynamic, m.chargedOpcode? = some op ∧ m.state.currentOpcode? = some op ∧
        m.step.state.gas.remaining.toNat + (op.entry.cost.fixedPart.toNat + dynamic) =
          m.state.gas.remaining.toNat ∧
        op.entry.cost.SplitsInto m.state m.step.state op.entry.cost.fixedPart.toNat dynamic := by
  rw [chargedOpcode?]
  rcases step_cases m with
    ⟨reason, hstatus, hstep⟩ | ⟨hstatus, fault, hverdict, hstep⟩ | ⟨hstatus, hverdict, hstep⟩
  · rw [hstatus, hstep]
    exact Or.inl ⟨rfl, rfl⟩
  · rw [hstatus, hverdict, hstep]
    exact Or.inl ⟨rfl, rfl⟩
  · rw [hstatus, hverdict, hstep]
    rcases State.eval_cases h.stack_le with ⟨hpaid, reason, heval⟩ | ⟨p, hpaid, _⟩
    · rw [State.advanced_of_unchanged heval]
      exact Or.inl ⟨hpaid, rfl⟩
    · obtain ⟨dynamic, hcost, hsplit⟩ := CostRule.splitsInto_of_stepCost h.memory_aligned
        (p.size_memory_advanced h.stack_le) p.price_eq
      refine Or.inr ⟨p.op, dynamic, hpaid, p.current_eq, ?_, hsplit⟩
      rw [← hcost, p.gas_advanced h.stack_le]
      exact Meter.toNat_remaining_of_charge p.charge_eq

end Machine

namespace Trace

/-! ## The split of one step -/

/-- A split accounts for the next step of a machine and what the step costs.  It has the
readings of the meter on both sides; its parts add up to the cost, the cost is the difference
of the readings, and spent and remaining gas add up to the limit.  If the step is paid for, the
parts are those of its price, and else both are zero. -/
structure GasSplit.Accounts {σ : Type} (m : Machine σ) (cost : UInt64) (split : GasSplit) :
    Prop where
  before_eq : split.remainingBefore = m.state.gas.remaining
  after_eq : split.remainingAfter = m.step.state.gas.remaining
  parts_sum : split.base.toNat + split.dynamic.toNat = cost.toNat
  cost_sum : cost.toNat + split.remainingAfter.toNat = split.remainingBefore.toNat
  spent_sum : split.spent.toNat + split.remainingAfter.toNat = m.state.gas.limit.toNat
  charged : ∀ op, m.chargedOpcode? = some op →
    op.entry.cost.SplitsInto m.state m.step.state split.base.toNat split.dynamic.toNat
  uncharged : m.chargedOpcode? = none → split.base = 0 ∧ split.dynamic = 0

namespace Entry

variable (op? : Option Opcode) (before after : Snapshot)

/-- The fixed part is that of the catalog, as far as so much was used. -/
theorem toNat_base_splitGas :
    (splitGas op? before after).base.toNat =
      min (fixedCost op?).toNat (gasBetween before.remaining after.remaining).toNat := by
  have hmin (a b : UInt64) : (min a b).toNat = min a.toNat b.toNat := by
    change (if a ≤ b then a else b).toNat = _
    rw [Nat.min_def, apply_ite UInt64.toNat]
    simp only [UInt64.le_iff_toNat_le]
  exact hmin _ _

/-- The dynamic part is what was used beyond the fixed part. -/
theorem toNat_dynamic_splitGas :
    (splitGas op? before after).dynamic.toNat =
      (gasBetween before.remaining after.remaining).toNat - (fixedCost op?).toNat := by
  have hbase := toNat_base_splitGas op? before after
  have hle : (splitGas op? before after).base ≤ gasBetween before.remaining after.remaining := by
    rw [UInt64.le_iff_toNat_le, hbase]
    exact Nat.min_le_right _ _
  have hdynamic : (splitGas op? before after).dynamic =
      gasBetween before.remaining after.remaining - (splitGas op? before after).base := rfl
  rw [hdynamic, UInt64.toNat_sub_of_le _ _ hle, hbase]
  omega

end Entry

namespace Recorder

variable {σ : Type} {m final : Machine σ} {code data : Array UInt8} {limit : UInt64}
  (o : Options) (storage? : Option Storage)

/-- The split between the snapshots around a step accounts for it. -/
theorem accounts_splitGas (hsound : m.state.Sound code data limit) :
    let split := Entry.splitGas m.state.currentOpcode? (.capture o m storage?)
      (.capture o m.step storage?)
    split.Accounts m (Entry.gasBetween m.state.gas.remaining m.step.state.gas.remaining) := by
  intro split
  have hused := Entry.toNat_gasBetween (Machine.remaining_step_le hsound.stack_le)
  have hbase : split.base.toNat = min (Entry.fixedCost m.state.currentOpcode?).toNat
      (Entry.gasBetween m.state.gas.remaining m.step.state.gas.remaining).toNat :=
    Entry.toNat_base_splitGas _ _ _
  have hdynamic : split.dynamic.toNat =
      (Entry.gasBetween m.state.gas.remaining m.step.state.gas.remaining).toNat -
        (Entry.fixedCost m.state.currentOpcode?).toNat :=
    Entry.toNat_dynamic_splitGas _ _ _
  have hafter : m.step.state.Sound code data limit := Machine.sound_iterate_step hsound 1
  have hspent : split.spent.toNat + split.remainingAfter.toNat = m.state.gas.limit.toNat := by
    rw [hsound.balanced.limit_eq, ← hafter.balanced.sum_eq]
    exact Nat.add_comm _ _
  have hparts : split.base.toNat + split.dynamic.toNat =
      (Entry.gasBetween m.state.gas.remaining m.step.state.gas.remaining).toNat := by
    omega
  refine ⟨rfl, rfl, hparts, hused, hspent, ?_, ?_⟩
  · intro op hop
    rcases Machine.charge_cases hsound with
      ⟨hnone, _⟩ | ⟨op', dynamic, hsome, hcurrent, hremaining, hsplit⟩
    · cases hnone.symm.trans hop
    · cases hsome.symm.trans hop
      -- At least the fixed part was used, so the minimum is the fixed part.
      rw [hcurrent, Entry.fixedCost] at hbase hdynamic
      have hfixed : split.base.toNat = op.entry.cost.fixedPart.toNat := by omega
      have hrest : split.dynamic.toNat = dynamic := by omega
      rwa [hfixed, hrest]
  · intro hnone
    rcases Machine.charge_cases hsound with ⟨_, hgas⟩ | ⟨op, _, hsome, _⟩
    · rw [hgas] at hused hparts
      rw [← UInt64.toNat_inj, ← UInt64.toNat_inj, UInt64.toNat_zero]
      omega
    · cases hnone.symm.trans hsome

/-! ## Entries of a traced run -/

/-- What the entry of a step says about it under options that ask for the split. -/
theorem accounts_of_stepEntry {e : Entry} (hsound : m.state.Sound code data limit)
    (hkeep : o.gasCalculation = true) (he : stepEntry o storage? m = some e) :
    e.pc = m.state.pc ∧ m.state.currentByte? = some e.opcode ∧
      ∃ split, e.gasSplit? = some split ∧ split.Accounts m e.gasCost := by
  obtain ⟨byte, hbyte, rfl⟩ := Option.map_eq_some_iff.1 he
  have hcurrent : Opcode.ofByte? byte = m.state.currentOpcode? := by
    rw [State.currentOpcode?, hbyte]
    rfl
  refine ⟨rfl, hbyte, _, if_pos hkeep, ?_⟩
  rw [hcurrent]
  exact accounts_splitGas o storage? hsound

/-- A round of a running machine steps it and appends the entry of the step to what the
recorder has recorded, in whatever frame it is and whatever snapshots it has pending. -/
theorem round_eq (hrun : m.isRunning = true) (r : Recorder) :
    let next := round storage? { recorder := r, machine := m }
    next.machine = m.step ∧ next.recorder.options = r.options ∧
      next.recorder.depth = r.depth ∧
      next.recorder.finish.flatten =
        r.finish.flatten ++
          ((stepEntry r.options storage? m).map (Entry.atDepth r.depth)).toList := by
  intro next
  dsimp only [next]
  rw [round_of_running hrun]
  refine ⟨rfl, rfl, rfl, ?_⟩
  rw [flatten_finish, flatten_finish]
  cases stepEntry r.options storage? m <;> simp

/-- Rounds of a running machine append the log of its steps to what the recorder has recorded,
at the depth that the recorder has reached. -/
theorem flatten_iterate_round (r : Recorder) {calls : Nat}
    (hrun : ∀ i, i < calls → (Machine.step^[i] m).isRunning = true) :
    let traced := (round storage?)^[calls] { recorder := r, machine := m }
    traced.machine = Machine.step^[calls] m ∧ traced.recorder.options = r.options ∧
      traced.recorder.depth = r.depth ∧
      traced.recorder.finish.flatten =
        r.finish.flatten ++
          (logOf r.options storage? calls m).map (Entry.atDepth r.depth) := by
  induction calls with
  | zero => exact ⟨rfl, rfl, rfl, (List.append_nil _).symm⟩
  | succ calls ih =>
    obtain ⟨hmachine, hoptions, hdepth, hflatten⟩ := ih fun i hi => hrun i (by omega)
    have hnow := hrun calls (by omega)
    rw [← hmachine] at hnow
    obtain ⟨hmachine', hoptions', hdepth', hflatten'⟩ :=
      round_eq storage? hnow ((round storage?)^[calls] { recorder := r, machine := m }).recorder
    rw [Function.iterate_succ_apply', Function.iterate_succ_apply']
    refine ⟨hmachine'.trans (congrArg _ hmachine), hoptions'.trans hoptions,
      hdepth'.trans hdepth, hflatten'.trans ?_⟩
    rw [hflatten, hoptions, hdepth, hmachine, logOf_succ, List.map_append, List.append_assoc]
    cases stepEntry r.options storage? (Machine.step^[calls] m) <;> rfl

/-- The gas of every recorded step is split exactly.  Whatever commands a host has given a
machine and its recorder, under every policy, with or without a storage, and under all options
that ask for the split: a traced run of a running machine appends a log to what is already
recorded, and each entry of the log is that of one step, has a split, and the split accounts
for the step. -/
theorem gas_breakdown_exact (code data : Array UInt8) (gasLimit : UInt64) (context : Context)
    (policy : Policy σ) (memo : σ) (commands : List Machine.Command) (r : Recorder)
    (storage? : Option Storage) :
    let m := commands.foldl Machine.perform (.ofCode code data gasLimit context policy memo)
    m.status = .running → r.options.gasCalculation = true →
      ∃ log,
        (run storage? { recorder := r, machine := m }).recorder.finish.flatten =
          r.finish.flatten ++ log ∧
        ∀ i e, log[i]? = some e →
          let before := Machine.step^[i] m
          e.pc = before.state.pc ∧ before.state.currentByte? = some e.opcode ∧
            ∃ split, e.gasSplit? = some split ∧ split.Accounts before e.gasCost := by
  intro m hstatus hkeep
  have hrunning : m.isRunning = true := (Machine.isRunning_eq_true_iff m).2 hstatus
  have hsound : m.state.Sound code data gasLimit :=
    Machine.sound_performAll (State.sound_initial code data gasLimit) commands
  obtain ⟨steps, hle, hruns⟩ := Machine.exists_runsIn_run hsound.stack_le
  obtain ⟨_, _, _, hflatten⟩ := flatten_iterate_round storage? r
    fun i hi => hruns.isRunning_iterate hrunning hi
  have hrounds : run storage? { recorder := r, machine := m } =
      (round storage?)^[steps] { recorder := r, machine := m } :=
    congrArg Ended.after (callRun_eq storage? hsound.stack_le hruns hle r)
  rw [hrounds]
  refine ⟨_, hflatten, ?_⟩
  intro i e he
  rw [List.getElem?_map, getElem?_logOf _ _ hsound.stack_le hrunning hruns] at he
  obtain ⟨entry, hentry, rfl⟩ := Option.map_eq_some_iff.1 he
  rw [Option.ite_none_right_eq_some] at hentry
  -- The depth is no part of what is said about the entry.
  have haccounts := accounts_of_stepEntry r.options storage?
    (Machine.sound_iterate_step hsound i) hkeep hentry.2
  exact haccounts

/-- An exponentiation by a number of two bytes, recorded below an open call: 10 is the fixed
part of its gas, and 50 for each byte the dynamic part. -/
theorem gas_breakdown_exact_of_exponent :
    let m : Machine Unit :=
      [.stack (.push 0x100), .stack (.push 2)].foldl Machine.perform
        (.ofCode #[0x0a] #[] 200 default Policy.permit ())
    let r : Recorder := (ofOptions { gasCalculation := true }).enter
    m.status = .running ∧ r.options.gasCalculation = true ∧ m.chargedOpcode? = some (.binary .exp) ∧
      ∃ e split, (run none { recorder := r, machine := m }).recorder.finish.flatten = [e] ∧
        e.gasSplit? = some split ∧ split.base.toNat = 10 ∧ split.dynamic.toNat = 100 ∧
        split.remainingAfter.toNat = 90 ∧ split.spent.toNat = 110 := by
  intro m r
  have hstatus : m.status = .running := by decide +kernel
  have hkeep : r.options.gasCalculation = true := by decide +kernel
  have hcharged : m.chargedOpcode? = some (.binary .exp) := by decide +kernel
  have hlength : (run none { recorder := r, machine := m }).recorder.finish.flatten.length = 1 := by
    decide +kernel
  have hbefore : m.state.gas.remaining.toNat = 200 ∧ m.state.gas.limit.toNat = 200 := by
    decide +kernel
  have hpower : m.state.stack.toList[1]? = some 0x100 := by decide +kernel
  obtain ⟨log, hlog, haccounts⟩ := gas_breakdown_exact #[0x0a] #[] 200 default Policy.permit ()
    [.stack (.push 0x100), .stack (.push 2)] r none hstatus hkeep
  have hnew : log.length = 1 := by
    rw [hlog, List.length_append] at hlength
    exact (Nat.zero_add _).symm.trans hlength
  obtain ⟨e, rfl⟩ := List.length_eq_one_iff.1 hnew
  obtain ⟨_, _, split, hsplit, (hparts : split.Accounts m e.gasCost)⟩ := haccounts 0 e rfl
  obtain ⟨hbase, power, hsecond, hdynamic⟩ := hparts.charged (.binary .exp) hcharged
  cases hpower.symm.trans hsecond
  have hcost := hparts.cost_sum
  have hsum := hparts.parts_sum
  have hlimit := hparts.spent_sum
  rw [hparts.before_eq] at hcost
  have hbytes : (0x100 : Word).byteLength = 2 := by decide +kernel
  rw [hbytes] at hdynamic
  refine ⟨hstatus, hkeep, hcharged, e, split, hlog, hsplit, hbase, hdynamic, ?_, ?_⟩
  · omega
  · omega

end Recorder

end Trace

end MeteredMachine
