import MeteredMachine.Proofs.ExactPrice
import MeteredMachine.Proofs.Invariant

/-!
# Ordered checks

A step checks one thing after another: is there code, is its byte defined, are the operands there,
is there gas for the price, is there room for the results, does the jump land.  The first check that
fails decides why the machine exits and how much of the step has happened by then.  Here the checks
are written down in their order, from the catalog and over natural numbers; the bodies of the
instructions find some of the failures only after they have taken operands from the stack.

Main results:

- Definition {lit}`State.prescription` lists the checks and what follows from each.
- Structure {lit}`Prescription.Describes` says what a prescription means for the states before and
  after a step.
- Theorem {lit}`Machine.step_as_prescribed`: every step of a reachable machine does what its checks
  prescribe.
-/

namespace MeteredMachine

/-! ## Prescriptions -/

/-- What the checks of a step prescribe. -/
structure Prescription where
  /-- Why the machine exits, if it does. -/
  exit? : Option ExitReason
  /-- The gas that is taken. -/
  cost : Nat
  /-- How many items are taken from the stack of a machine that exits. -/
  popped : Nat
deriving DecidableEq

namespace Prescription

/-- An exit before anything has happened. -/
def atOnce (reason : ExitReason) : Prescription :=
  { exit? := some reason, cost := 0, popped := 0 }

/-- What a prescription means.  Gas is taken in any case.  A machine that exits stays where it is,
and unless it returns, memory and return data stay as they are. -/
structure Describes (p : Prescription) (before after : State) : Prop where
  status : after.status = p.exit?.elim .running .exited
  remaining : after.gas.remaining.toNat + p.cost = before.gas.remaining.toNat
  spent : after.gas.spent.toNat = before.gas.spent.toNat + p.cost
  budget : after.gas.limit = before.gas.limit ∧ after.gas.refunded = before.gas.refunded
  program : after.code = before.code ∧ after.data = before.data ∧
    after.jumpTable = before.jumpTable
  exited : p.exit?.isSome → after.pc = before.pc ∧
    after.stack.toList = before.stack.toList.drop p.popped
  untouched : p.exit?.isSome → p.exit? ≠ some (.success .returned) →
    after.memory = before.memory ∧ after.returnData = before.returnData

end Prescription

namespace Opcode

/-- The destination of a jump that is taken, given the items of the stack from the top down. -/
def destination? (op : Opcode) (items : List Word) : Option Nat :=
  match op, items with
  | jump, destination :: _ => some destination.toNat
  | jumpi, destination :: condition :: _ =>
    if condition.toNat = 0 then none else some destination.toNat
  | _, _ => none

/-- How an instruction ends a machine when nothing fails. -/
def ending? : Opcode → Option ExitReason
  | stop => some (.success .stopped)
  | ret => some (.success .returned)
  | _ => none

end Opcode

namespace State

/-- The destination of a jump that does not land: it is no host size, or not in the jump table. -/
def stray? (s : State) (op : Opcode) : Option Nat :=
  (op.destination? s.stack.toList).filter fun d => ¬ (d < 2 ^ 64 ∧ s.jumpTable.contains d)

/-- The checks of an instruction once it is paid for. -/
def prescriptionPaid (s : State) (op : Opcode) (cost : Nat) : Prescription :=
  if s.stack.size - op.entry.inputs + op.entry.outputs > Schedule.maxStackSize then
    { exit? := some (.fault .stackOverflow), cost, popped := 0 }
  else
    match s.stray? op with
    | some d =>
      { exit? := some (.fault (.invalidJump (min d (2 ^ 64 - 1)))), cost
        popped := op.entry.inputs }
    | none => { exit? := op.ending?, cost, popped := op.entry.inputs }

/-- The checks of an instruction: operands, price, and what follows. -/
def prescriptionOf (s : State) (op : Opcode) : Prescription :=
  if s.stack.size < op.entry.inputs then .atOnce (.fault .stackUnderflow)
  else
    match op.entry.cost.price? s.stack s.memory with
    | none => .atOnce (.fault .outOfGas)
    | some cost =>
      if cost > s.gas.remaining.toNat then .atOnce (.fault .outOfGas)
      else s.prescriptionPaid op cost

/-- The checks of a step in their order. -/
def prescription (s : State) : Prescription :=
  match s.code[s.pc]? with
  | none => .atOnce (.success .stopped)
  | some byte =>
    match Opcode.ofByte? byte with
    | none => .atOnce (.fault (.invalidOpcode byte))
    | some op => s.prescriptionOf op

end State

/-! ## Control -/

namespace Opcode

variable {op : Opcode} {s : State} {operands rest : List Word}

theorem control_of_destination {d : Nat} (hlength : operands.length = op.entry.inputs)
    (h : op.destination? (operands ++ rest) = some d) :
    ∃ destination : Word, destination.toNat = d ∧
      op.control s operands = s.jumpControl destination ∧ op.ending? = none := by
  cases op with
  | jump =>
    obtain ⟨a, rfl⟩ := List.length_eq_one_iff.1 hlength
    cases h
    exact ⟨a, rfl, rfl, rfl⟩
  | jumpi =>
    obtain ⟨a, b, rfl⟩ := List.length_eq_two.1 hlength
    simp only [destination?, List.cons_append] at h
    split at h
    next => cases h
    next hne =>
      cases h
      exact ⟨a, rfl, if_neg (fun hz => hne ((Word.isZero_iff b).1 hz)), rfl⟩
  | _ => cases h

theorem control_of_no_destination (hlength : operands.length = op.entry.inputs)
    (h : op.destination? (operands ++ rest) = none) :
    ∃ control, op.control s operands = .ok control ∧
      ∀ t : State, (t.applyControl control).exit? = op.ending? := by
  cases op with
  | jump =>
    obtain ⟨a, rfl⟩ := List.length_eq_one_iff.1 hlength
    cases h
  | jumpi =>
    obtain ⟨a, b, rfl⟩ := List.length_eq_two.1 hlength
    simp only [destination?, List.cons_append] at h
    split at h
    next hzero => exact ⟨_, if_pos ((Word.isZero_iff b).2 hzero), fun _ => rfl⟩
    next => cases h
  | _ => exact ⟨_, rfl, fun _ => rfl⟩

/-- A jump that does not land names its destination as far as it fits a host size. -/
theorem control_of_stray {d : Nat} (hitems : s.stack.toList = operands ++ rest)
    (hlength : operands.length = op.entry.inputs) (h : s.stray? op = some d) :
    op.control s operands = .error (.invalidJump (min d (2 ^ 64 - 1))) := by
  rw [State.stray?, hitems, Option.filter_eq_some_iff, decide_eq_true_iff] at h
  obtain ⟨hdestination, hstray⟩ := h
  obtain ⟨destination, rfl, hcontrol, _⟩ := control_of_destination (s := s) hlength hdestination
  rw [hcontrol]
  exact if_neg hstray

/-- An instruction that does not jump astray ends the machine or hands on control. -/
theorem control_of_landing (hitems : s.stack.toList = operands ++ rest)
    (hlength : operands.length = op.entry.inputs) (h : s.stray? op = none) :
    ∃ control, op.control s operands = .ok control ∧
      ∀ t : State, (t.applyControl control).exit? = op.ending? := by
  rw [State.stray?, hitems] at h
  cases hdestination : op.destination? (operands ++ rest) with
  | none => exact control_of_no_destination hlength hdestination
  | some d =>
    obtain ⟨destination, rfl, hcontrol, hending⟩ :=
      control_of_destination (s := s) hlength hdestination
    have hlands : destination.toNat < 2 ^ 64 ∧ s.jumpTable.contains destination.toNat = true := by
      simpa [hdestination, Option.filter] using h
    exact ⟨_, hcontrol.trans (if_pos hlands), fun _ => hending.symm⟩

/-- An instruction that ends the machine just takes its operands, and a stop does nothing else. -/
theorem completed_of_ending {reason : ExitReason} (h : op.ending? = some reason) (s : State)
    (operands rest : List Word) :
    (op.completed s operands rest).stack = .ofList rest ∧
      (reason ≠ .success .returned →
        op.memoryAfter s.memory operands = s.memory ∧
          op.returnDataAfter s operands = s.returnData) := by
  cases op with
  | stop => exact ⟨rfl, fun _ => ⟨rfl, rfl⟩⟩
  | ret =>
    cases h
    exact ⟨rfl, fun hne => absurd rfl hne⟩
  | _ => cases h

end Opcode

/-! ## Evaluation -/

namespace State

variable {s : State}

/-- An evaluation that ends before the charge changes nothing. -/
theorem describes_atOnce {reason : ExitReason}
    (h : s.eval = { state := s, exit? := some reason }) :
    (Prescription.atOnce reason).Describes s s.advanced := by
  rw [advanced_of_unchanged h]
  exact ⟨rfl, rfl, rfl, ⟨rfl, rfl⟩, ⟨rfl, rfl, rfl⟩, fun _ => ⟨rfl, rfl⟩, fun _ _ => ⟨rfl, rfl⟩⟩

variable {limit : UInt64}

/-- A payment takes its price, whatever else happens to the state. -/
theorem Payment.describes (p : Payment s) (hbalanced : s.gas.Balanced limit) {pc popped : Nat}
    {stack : Stack} {memory : Memory} {returnData : List UInt8} {status : Status}
    {exit? : Option ExitReason} (hstatus : status = exit?.elim .running .exited)
    (hexited : exit?.isSome → pc = s.pc ∧ stack.toList = s.stack.toList.drop popped)
    (huntouched : exit?.isSome → exit? ≠ some (.success .returned) →
      memory = s.memory ∧ returnData = s.returnData) :
    ({ exit?, cost := p.cost.toNat, popped } : Prescription).Describes s
      { p.charged with pc, stack, memory, returnData, status } := by
  obtain ⟨hremaining, hspent⟩ := hbalanced.toNat_charge p.charge_eq
  have hafter := hbalanced.charge p.charge_eq
  exact
    { status := hstatus
      remaining := hremaining
      spent := hspent
      budget := ⟨hafter.limit_eq.trans hbalanced.limit_eq.symm,
        hafter.refunded_eq.trans hbalanced.refunded_eq.symm⟩
      program := ⟨rfl, rfl, rfl⟩
      exited := hexited
      untouched := huntouched }

/-- An instruction that is paid for does what its later checks prescribe. -/
theorem Payment.describes_advanced (p : Payment s) (hbalanced : s.gas.Balanced limit)
    (hbound : s.stack.size ≤ Schedule.maxStackSize) (hrun : s.status = .running) :
    (s.prescriptionPaid p.op p.cost.toNat).Describes s s.advanced := by
  have hitems : s.stack.toList = p.operands ++ p.rest := by rw [p.stack_eq, Stack.toList_ofList]
  have hrest : (Stack.ofList p.rest).toList = s.stack.toList.drop p.op.entry.inputs := by
    rw [hitems, ← p.length_operands, List.drop_left, Stack.toList_ofList]
  have hroom : s.stack.size - p.op.entry.inputs = p.rest.length := by
    rw [p.size_stack, p.length_operands, Nat.add_sub_cancel_left]
  rw [prescriptionPaid, hroom, advanced, p.eval_eq hbound, outcome, Opcode.outcome]
  -- Room for the results comes first on both sides, then whether the jump lands.
  split
  next => exact p.describes hbalanced rfl (fun _ => ⟨rfl, rfl⟩) (fun _ _ => ⟨rfl, rfl⟩)
  next =>
    cases hstray : s.stray? p.op with
    | some d =>
      have hcontrol := Opcode.control_of_stray (s := p.charged) hitems p.length_operands hstray
      simp only [hcontrol, Opcode.completed_of_control_error hcontrol]
      exact p.describes hbalanced rfl (fun _ => ⟨rfl, hrest⟩) (fun _ _ => ⟨rfl, rfl⟩)
    | none =>
      obtain ⟨control, hcontrol, hexit⟩ :=
        Opcode.control_of_landing (s := p.charged) hitems p.length_operands hstray
      simp only [hcontrol]
      -- The kind of control decides whether the instruction ends the machine.
      cases control with
      | advance | jump =>
        have hending : p.op.ending? = none := (hexit s).symm
        rw [hending]
        exact p.describes hbalanced hrun (by simp) (by simp)
      | exit success =>
        have hending : p.op.ending? = some (.success success) := (hexit s).symm
        obtain ⟨hstack, hkept⟩ := Opcode.completed_of_ending hending p.charged p.operands p.rest
        rw [hending]
        apply p.describes hbalanced rfl
        · intro _
          rw [applyControl, hstack]
          exact ⟨rfl, hrest⟩
        · intro _ hreturned
          exact hkept fun h => hreturned (congrArg some h)

theorem prescription_of_none (hcurrent : s.currentOpcode? = none) :
    s.prescription = .atOnce s.undecodedReason := by
  rw [currentOpcode?, currentByte?] at hcurrent
  rw [prescription, undecodedReason, currentByte?]
  cases hbyte : s.code[s.pc]? with
  | none => rfl
  | some byte =>
    rw [hbyte, Option.bind_some] at hcurrent
    simp only [hcurrent]

theorem prescription_of_some {op : Opcode} (hcurrent : s.currentOpcode? = some op) :
    s.prescription = s.prescriptionOf op := by
  obtain ⟨byte, hbyte, hop⟩ := Option.bind_eq_some_iff.1 hcurrent
  rw [currentByte?] at hbyte
  simp only [prescription, hbyte, hop]

theorem prescriptionOf_of_unaffordable {op : Opcode} (hinputs : op.entry.inputs ≤ s.stack.size)
    (h : ∀ cost ∈ op.entry.cost.price? s.stack s.memory, s.gas.remaining.toNat < cost) :
    s.prescriptionOf op = .atOnce (.fault .outOfGas) := by
  rw [prescriptionOf, if_neg (Nat.not_lt.2 hinputs)]
  split
  next => rfl
  next cost hcost => exact if_pos (h cost hcost)

theorem prescriptionOf_of_affordable {op : Opcode} {cost : Nat}
    (hinputs : op.entry.inputs ≤ s.stack.size)
    (hcost : op.entry.cost.price? s.stack s.memory = some cost)
    (hle : cost ≤ s.gas.remaining.toNat) : s.prescriptionOf op = s.prescriptionPaid op cost := by
  rw [prescriptionOf, if_neg (Nat.not_lt.2 hinputs), hcost]
  exact if_neg (Nat.not_lt.2 hle)

/-- An evaluation does what its checks prescribe. -/
theorem Sound.describes_advanced {code data : Array UInt8} (h : s.Sound code data limit)
    (hrun : s.status = .running) : s.prescription.Describes s s.advanced := by
  -- With the operands there, a price is only missing where no gas is enough.
  have hprice {op : Opcode} (hinputs : op.entry.inputs ≤ s.stack.size) :=
    stepCost_eq_gasOfPrice (Nat.le_trans op.reads_le_inputs hinputs) s.memory
  cases s.checked with
  | undecoded hcurrent =>
    rw [prescription_of_none hcurrent]
    exact describes_atOnce (eval_of_none hcurrent)
  | missing hcurrent hinputs =>
    rw [prescription_of_some hcurrent, prescriptionOf, if_pos hinputs]
    exact describes_atOnce (eval_of_missing hcurrent hinputs)
  | unpriced hcurrent hinputs hunpriced =>
    obtain ⟨rfl, hbeyond⟩ := lt_of_gasOfPrice ((hprice hinputs).symm.trans hunpriced)
    rw [prescription_of_some hcurrent, prescriptionOf_of_unaffordable hinputs
      fun cost hcost => Nat.lt_of_lt_of_le s.gas.remaining.toNat_lt (hbeyond cost hcost)]
    exact describes_atOnce (eval_of_unpriced hcurrent hinputs hunpriced)
  | @unpaid op price hcurrent hinputs hpriced hcharge =>
    have hcost := eq_of_gasOfPrice ((hprice hinputs).symm.trans hpriced)
    have hbeyond : s.gas.remaining.toNat < price.toNat := by
      apply Nat.lt_of_not_le
      intro hle
      rw [Meter.charge_of_le hle] at hcharge
      cases hcharge
    rw [prescription_of_some hcurrent, prescriptionOf_of_unaffordable hinputs (by simpa [hcost])]
    exact describes_atOnce (eval_of_unpaid hcurrent hinputs hpriced hcharge)
  | paid p =>
    have hcost := eq_of_gasOfPrice ((hprice p.inputs_le).symm.trans p.price_eq)
    rw [prescription_of_some p.current_eq,
      prescriptionOf_of_affordable p.inputs_le hcost (Meter.le_of_charge p.charge_eq)]
    exact p.describes_advanced h.balanced h.stack_le hrun

end State

namespace Machine

variable {σ : Type}

/-- Every step does what its checks prescribe.  After any steps, runs and calls on the stack, a
running machine whose policy permits the next step exits for the reason that the first failing check
gives, and in the state that this check prescribes; if no check fails and the instruction does not
end the machine, it goes on, with the price taken. -/
theorem step_as_prescribed (code data : Array UInt8) (gasLimit : UInt64) (context : Context)
    (policy : Policy σ) (memo : σ) (commands : List Command) :
    let m := commands.foldl perform (ofCode code data gasLimit context policy memo)
    m.status = .running → m.verdict.refusal? = none →
      m.state.prescription.Describes m.state m.step.state := by
  intro m hrun hpermitted
  have hsound : m.state.Sound code data gasLimit :=
    sound_performAll (State.sound_initial code data gasLimit) commands
  rw [step_of_permitted hrun hpermitted]
  exact hsound.describes_advanced hrun

/-- A jump to a word that is no host size takes its price and its operand. -/
theorem step_as_prescribed_of_stray :
    let m := [Command.stack (.push 7), .stack (.push (Word.ofNat (2 ^ 70)))].foldl perform
      (ofCode #[0x56] #[] 100 default Policy.permit ())
    let reason := ExitReason.fault (.invalidJump (2 ^ 64 - 1))
    m.status = .running ∧ m.verdict.refusal? = none ∧
      ({ exit? := some reason, cost := 8, popped := 1 } : Prescription).Describes m.state
        m.step.state := by
  intro m reason
  have hrun : m.status = .running := by decide +kernel
  have hpermitted : m.verdict.refusal? = none := by decide +kernel
  have hprescription : m.state.prescription = { exit? := some reason, cost := 8, popped := 1 } := by
    decide +kernel
  refine ⟨hrun, hpermitted, ?_⟩
  rw [← hprescription]
  exact step_as_prescribed #[0x56] #[] 100 default Policy.permit () _ hrun hpermitted

end Machine

end MeteredMachine
