import MeteredMachine.Proofs.Run

/-!
# Gas limits are thresholds

Where no instruction reads the meter, the limit only decides how far a run gets.  Two
runs of the same code under different limits go in lockstep, with meters that agree in
what is spent, up to the first price that the smaller limit does not cover; there the
charge fails before anything else can.

Main results:

- Definition {lit}`State.rebudget` is a state under another limit.
- Theorem {lit}`State.Sound.follows_advanced`: an evaluation under another limit does the
  same, or runs out of gas.
- Theorem {lit}`Machine.gas_limit_threshold`: a run that ends otherwise than out of gas ends
  in the same way under every limit that covers what it spent, and out of gas under every
  limit below that.
-/

namespace MeteredMachine

/-! ## Meters under another limit -/

namespace Meter

variable {meter charged : Meter} {cost limit other : UInt64}

/-- The meter that has spent the same out of another limit. -/
def rebudget (meter : Meter) (other : UInt64) : Meter :=
  { meter with limit := other, remaining := other - meter.spent }

/-- A fresh meter under another limit is fresh. -/
theorem rebudget_ofLimit (limit other : UInt64) :
    (ofLimit limit).rebudget other = ofLimit other := by
  rw [rebudget, ofLimit, UInt64.sub_zero]
  rfl

/-- What another limit leaves, if it covers what was spent. -/
theorem toNat_remaining_rebudget (h : meter.spent.toNat ≤ other.toNat) :
    (meter.rebudget other).remaining.toNat = other.toNat - meter.spent.toNat :=
  UInt64.toNat_sub_of_le _ _ (UInt64.le_iff_toNat_le.2 h)

/-- A charge succeeds under every limit that covers what is spent after it. -/
theorem Balanced.charge_rebudget (h : meter.Balanced limit)
    (hcharge : meter.charge cost = .ok charged) (hle : charged.spent.toNat ≤ other.toNat) :
    (meter.rebudget other).charge cost = .ok (charged.rebudget other) := by
  have hspent := (h.toNat_charge hcharge).2
  have hremaining := toNat_remaining_rebudget (show meter.spent.toNat ≤ other.toNat by omega)
  have hsub : other - meter.spent - cost = other - (meter.spent + cost) := by grind
  rw [charge_of_le (le_of_charge hcharge)] at hcharge
  cases hcharge
  rw [charge_of_le (by omega)]
  simp only [rebudget, hsub]

/-- A charge fails under a limit that covers what is spent before, but not after it. -/
theorem Balanced.charge_rebudget_eq_error (h : meter.Balanced limit)
    (hcharge : meter.charge cost = .ok charged) (hle : meter.spent.toNat ≤ other.toNat)
    (hlt : other.toNat < charged.spent.toNat) :
    (meter.rebudget other).charge cost = .error .outOfGas := by
  have hspent := (h.toNat_charge hcharge).2
  have hremaining := toNat_remaining_rebudget hle
  exact charge_of_lt (by omega)

end Meter

/-! ## Evaluations under another limit -/

/-- The state that has spent the same out of another limit. -/
def State.rebudget (s : State) (other : UInt64) : State :=
  { s with gas := s.gas.rebudget other }

/-- Control and exits do not notice the limit. -/
theorem State.unnoticed_rebudget (other : UInt64) : Unnoticed (rebudget · other) where
  withStatus _ _ := rfl
  applyControl _ control := by cases control <;> rfl

namespace Opcode

variable {op : Opcode}

/-- Only one instruction reads the meter. -/
theorem results_rebudget (hgas : op ≠ gas) (s : State) (other : UInt64) (operands : List Word) :
    op.results (s.rebudget other) operands = op.results s operands := by
  cases op with
  | gas => exact absurd rfl hgas
  | _ => rfl

/-- The limit does not decide where control goes. -/
theorem control_rebudget (s : State) (other : UInt64) (operands : List Word) :
    op.control (s.rebudget other) operands = op.control s operands := by
  cases op <;> rfl

/-- An instruction that does not read the meter has the same outcome under another limit. -/
theorem outcome_rebudget (hgas : op ≠ gas) (s : State) (other : UInt64)
    (operands rest : List Word) :
    op.outcome (s.rebudget other) operands rest =
      (op.outcome s operands rest).map (State.rebudget · other) := by
  apply (State.unnoticed_rebudget other).outcome_map Iff.rfl (control_rebudget s other operands)
  rw [completed, results_rebudget hgas]
  cases op <;> rfl

end Opcode

namespace State

variable {code data : Array UInt8} {limit other : UInt64} {s t : State}

/-- The state `t` of a run under another limit belongs to the state `s`: the limit covers
what `s` has spent and the states agree, or it does not and the other run is out of gas.
Nothing is said once the first run is out of gas itself. -/
inductive Follows (other : UInt64) (s t : State) : Prop where
  /-- The limit covers what was spent. -/
  | within (hle : s.gas.spent.toNat ≤ other.toNat) (heq : t = s.rebudget other)
  /-- The limit was exceeded. -/
  | beyond (hlt : other.toNat < s.gas.spent.toNat)
    (hexited : t.status = .exited (.fault .outOfGas))
  /-- The first run has no gas left for its next step. -/
  | exhausted (hexited : s.status = .exited (.fault .outOfGas))

/-- A step never reduces what was spent. -/
theorem Sound.spent_le_next (h : s.Sound code data limit) :
    s.gas.spent.toNat ≤ s.next.gas.spent.toNat := by
  rw [next]
  split
  next => exact Nat.le_refl _
  next =>
    rcases eval_cases h.stack_le with ⟨_, reason, heval⟩ | ⟨p, _, _⟩
    · exact Nat.le_of_eq (by rw [advanced_of_unchanged heval])
    · rw [p.gas_advanced h.stack_le, (h.balanced.toNat_charge p.charge_eq).2]
      exact Nat.le_add_right _ _

/-- The payment for the same instruction under a limit that covers it. -/
def Payment.rebudget (p : Payment s) (h : s.gas.Balanced limit)
    (hle : p.gas.spent.toNat ≤ other.toNat) : Payment (s.rebudget other) where
  op := p.op
  operands := p.operands
  rest := p.rest
  cost := p.cost
  gas := p.gas.rebudget other
  current_eq := p.current_eq
  stack_eq := p.stack_eq
  length_operands := p.length_operands
  price_eq := p.price_eq
  charge_eq := h.charge_rebudget p.charge_eq hle

/-- An instruction that was paid for does the same under a limit that covers its price,
and is not paid for under one that does not. -/
theorem Sound.follows_of_payment (h : s.Sound code data limit) (p : Payment s)
    (hgas : p.op ≠ .gas) (hcovered : s.gas.spent.toNat ≤ other.toNat) :
    Follows other s.advanced (s.rebudget other).advanced := by
  have hspent : s.advanced.gas.spent = p.gas.spent := by rw [p.gas_advanced h.stack_le]
  by_cases hle : p.gas.spent.toNat ≤ other.toNat
  · refine .within (hspent ▸ hle) ?_
    rw [State.advanced, State.advanced, p.eval_eq h.stack_le,
      (p.rebudget h.balanced hle).eval_eq h.stack_le, ← (unnoticed_rebudget other).recorded_map]
    exact congrArg _ (Opcode.outcome_rebudget hgas p.charged other p.operands p.rest)
  · have hcharge := h.balanced.charge_rebudget_eq_error p.charge_eq hcovered (by omega)
    have heval : (s.rebudget other).eval =
        { state := s.rebudget other, exit? := some (.fault .outOfGas) } :=
      eval_of_unpaid (s := s.rebudget other) p.current_eq p.inputs_le p.price_eq hcharge
    refine .beyond (by rw [hspent]; omega) ?_
    rw [advanced_of_unchanged heval]

/-- An evaluation does the same under another limit, unless one of the two runs out of
gas. -/
theorem Sound.follows_advanced (h : s.Sound code data limit)
    (hgas : s.currentOpcode? ≠ some .gas) (hcovered : s.gas.spent.toNat ≤ other.toNat) :
    Follows other s.advanced (s.rebudget other).advanced := by
  -- The checks before the charge read code, stack and memory, which the limit leaves alone.
  cases s.checked with
  | undecoded hcurrent =>
    rw [advanced_of_unchanged (eval_of_none hcurrent),
      advanced_of_unchanged (eval_of_none (s := s.rebudget other) hcurrent)]
    exact .within hcovered rfl
  | missing hcurrent hinputs =>
    rw [advanced_of_unchanged (eval_of_missing hcurrent hinputs),
      advanced_of_unchanged (eval_of_missing (s := s.rebudget other) hcurrent hinputs)]
    exact .within hcovered rfl
  | unpriced hcurrent hinputs hprice =>
    rw [advanced_of_unchanged (eval_of_unpriced hcurrent hinputs hprice),
      advanced_of_unchanged (eval_of_unpriced (s := s.rebudget other) hcurrent hinputs hprice)]
    exact .within hcovered rfl
  | unpaid hcurrent hinputs hprice hcharge =>
    rw [advanced_of_unchanged (eval_of_unpaid hcurrent hinputs hprice hcharge)]
    exact .exhausted rfl
  | paid p =>
    refine h.follows_of_payment p ?_ hcovered
    intro hop
    exact hgas (hop ▸ p.current_eq)

/-- Where no instruction of the code reads the meter, the next one does not. -/
theorem Sound.currentOpcode?_ne_gas (h : s.Sound code data limit)
    (hcode : ∀ position, InstructionStart code position → code[position]? ≠ some 0x5a) :
    s.currentOpcode? ≠ some .gas := by
  intro hcurrent
  obtain ⟨byte, hbyte, hop⟩ := Option.bind_eq_some_iff.1 hcurrent
  rw [currentByte?, h.code_eq, ← Opcode.toByte_of_ofByte? hop] at hbyte
  exact hcode s.pc h.pc_start hbyte

/-- A step keeps two runs together that differ in their limit. -/
theorem Sound.follows_next (h : s.Sound code data limit) (hgas : s.currentOpcode? ≠ some .gas)
    (hfollows : Follows other s t) : Follows other s.next t.next := by
  cases hfollows with
  | exhausted hexited =>
    rw [next_of_exited hexited]
    exact .exhausted hexited
  | beyond hlt hexited =>
    rw [next_of_exited hexited]
    exact .beyond (Nat.lt_of_lt_of_le hlt h.spent_le_next) hexited
  | within hle heq =>
    rw [heq]
    cases hstatus : s.status with
    | exited reason =>
      rw [next_of_exited hstatus, next_of_exited (s := s.rebudget other) hstatus]
      exact .within hle rfl
    | running =>
      rw [next_of_running hstatus, next_of_running (s := s.rebudget other) hstatus]
      exact h.follows_advanced hgas hle

end State

/-! ## Runs under another limit -/

namespace Machine

/-- Machines that differ in their limit start in states that differ in their budget. -/
theorem rebudget_unguarded (code data : Array UInt8) (gasLimit other : UInt64)
    (context : Context) (words : List Word) :
    (unguarded code data gasLimit context words).state.rebudget other =
      (unguarded code data other context words).state := by
  have hgas : (unguarded code data gasLimit context words).state.gas = .ofLimit gasLimit := rfl
  rw [State.rebudget, hgas, Meter.rebudget_ofLimit]
  rfl

/-- Where no instruction reads the meter, what a run spends is the threshold of its gas
limit: if a run ends for a reason other than lack of gas, then under every limit that covers
what it spent the run ends for the same reason in the same state, with the rest of the
limit remaining, and under every smaller limit it ends out of gas. -/
theorem gas_limit_threshold (code data : Array UInt8) (context : Context) (words : List Word)
    (hcode : ∀ position, InstructionStart code position → code[position]? ≠ some 0x5a)
    (gasLimit other : UInt64) {reason : ExitReason}
    (hexited : (unguarded code data gasLimit context words).run.state.status = .exited reason)
    (hreason : reason ≠ .fault .outOfGas) :
    let final := (unguarded code data gasLimit context words).run.state
    let final' := (unguarded code data other context words).run.state
    (final.gas.spent ≤ other →
        final'.status = .exited reason ∧ final'.pc = final.pc ∧ final'.stack = final.stack ∧
          final'.memory = final.memory ∧ final'.returnData = final.returnData ∧
          final'.gas.spent = final.gas.spent ∧
          final'.gas.remaining.toNat = other.toNat - final.gas.spent.toNat) ∧
      (other < final.gas.spent → final'.status = .exited (.fault .outOfGas)) := by
  intro final final'
  have hfollows : State.Follows other final final' := by
    apply related_run_unguarded
    · intro s t hs _ hst
      exact hs.follows_next (hs.currentOpcode?_ne_gas hcode) hst
    · exact .within (Nat.zero_le _) (rebudget_unguarded code data gasLimit other context words).symm
  rw [UInt64.le_iff_toNat_le, UInt64.lt_iff_toNat_lt]
  cases hfollows with
  | within hle heq =>
    refine ⟨fun _ => ?_, fun hlt => absurd hle (Nat.not_le.2 hlt)⟩
    rw [heq]
    exact ⟨hexited, rfl, rfl, rfl, rfl, rfl, Meter.toNat_remaining_rebudget hle⟩
  | beyond hlt hout => exact ⟨fun hle => absurd hle (Nat.not_le.2 hlt), fun _ => hout⟩
  | exhausted hout =>
    cases hexited.symm.trans hout
    exact absurd rfl hreason

/-- A loop that counts down from two, with the byte of the meter instruction in an immediate,
spends 55 and has this threshold. -/
theorem gas_limit_threshold_of_countdown :
    let code := #[0x5b, 0x60, 0x01, 0x90, 0x03, 0x80, 0x60, 0x00, 0x57, 0x60, 0x5a, 0x00]
    let final (gasLimit : UInt64) := (unguarded code #[] gasLimit default [2]).run.state
    (∀ position, InstructionStart code position → code[position]? ≠ some 0x5a) ∧
      (final 100).status = .exited (.success .stopped) ∧ (final 100).gas.spent = 55 ∧
      (final 55).status = .exited (.success .stopped) ∧
      (final 55).stack = (final 100).stack ∧ (final 55).gas.remaining.toNat = 0 ∧
      (final 54).status = .exited (.fault .outOfGas) := by
  intro code final
  have hcode : ∀ position, InstructionStart code position → code[position]? ≠ some 0x5a := by
    intro position hstart
    have hclosed : ∀ i ∈ [0, 1, 3, 4, 5, 6, 8, 9, 11, 12], ∀ byte ∈ code[i]?,
        i + 1 + JumpTable.immediateSize byte ∈ [0, 1, 3, 4, 5, 6, 8, 9, 11, 12] := by
      decide +kernel
    have hmem : position ∈ [0, 1, 3, 4, 5, 6, 8, 9, 11, 12] :=
      hstart.of_closed (by decide) (fun i byte hi hbyte => hclosed i hi byte hbyte)
    have hplain : ∀ i ∈ [0, 1, 3, 4, 5, 6, 8, 9, 11, 12], code[i]? ≠ some 0x5a := by
      decide +kernel
    exact hplain position hmem
  have hexited : (final 100).status = .exited (.success .stopped) := by decide +kernel
  have hspent : (final 100).gas.spent = 55 := by decide +kernel
  have hle : (final 100).gas.spent ≤ 55 := UInt64.le_of_eq hspent
  have hlt : 54 < (final 100).gas.spent := by
    rw [hspent]
    decide
  dsimp only [final] at hexited hspent hle hlt ⊢
  obtain ⟨hstatus, _, hstack, _, _, _, hremaining⟩ :=
    (gas_limit_threshold code #[] default [2] hcode 100 55 hexited (by decide)).1 hle
  have hout := (gas_limit_threshold code #[] default [2] hcode 100 54 hexited (by decide)).2 hlt
  refine ⟨hcode, hexited, hspent, hstatus, hstack, ?_, hout⟩
  rw [hremaining, hspent]
  rfl

end Machine

end MeteredMachine
