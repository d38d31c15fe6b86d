import MeteredMachine.Proofs.Run

/-!
# Frame rule of the operand stack

No instruction looks at or moves the items below its operands, and neither does the
rule that prices it.  So words put below the stack of a run ride along untouched: the
run with the longer stack goes in lockstep with the run on its own, until the one runs
into the bottom of its stack or the other into the limit.

Main results:

- Definition {lit}`State.onBase` is a state with words below its stack.
- Theorem {lit}`stepCost_congr_operands`: a price depends on the operands only.
- Theorem {lit}`State.Sound.frames_advanced`: an evaluation on a base does the same, unless
  one stack is too short or the other too full.
- Theorem {lit}`Machine.stack_frame` is the frame rule for whole runs.
-/

namespace MeteredMachine

/-! ## Stacks on a base -/

/-- The stack with words below its items, the first of them at the bottom. -/
def Stack.onBase (base : List Word) (s : Stack) : Stack :=
  ⟨base.toArray ++ s.items⟩

/-- A stack that is given as a list stays so on a base. -/
theorem Stack.onBase_ofList (base items : List Word) :
    (ofList items).onBase base = ofList (items ++ base.reverse) := by
  simp [onBase, ofList]

/-- A base comes last from the top down. -/
theorem Stack.toList_onBase (base : List Word) (s : Stack) :
    (s.onBase base).toList = s.toList ++ base.reverse := by
  simp [onBase, toList]

/-- Words that all fit on a stack can be put there in two parts, the first as a base. -/
theorem Stack.seed_append {base words : List Word}
    (h : base.length + words.length ≤ Schedule.maxStackSize) :
    empty.seed (base ++ words) = (empty.seed words).onBase base := by
  have hempty : empty.size = 0 := rfl
  apply ext_toList
  rw [toList_onBase, toList_seed (by rw [List.length_append]; omega), toList_seed (by omega)]
  simp

/-- A base adds to the size. -/
theorem Stack.size_onBase (base : List Word) (s : Stack) :
    (s.onBase base).size = base.length + s.size := by
  simp [onBase, size]

/-! ## Prices -/

/-- How many operands a length has to look at. -/
def RangeLength.reads : RangeLength → Nat
  | .fixed _ => 0
  | .operand distance => distance + 1

/-- How many operands a rule has to look at. -/
def CostRule.reads : CostRule → Nat
  | .fixed _ => 0
  | .exponent => 2
  | .memory _ offset length => max (offset + 1) length.reads

/-- A length depends on the operands that it reads. -/
theorem RangeLength.resolve_congr_operands {length : RangeLength} {operands : List Word}
    (h : length.reads ≤ operands.length) (rest rest' : List Word) :
    length.resolve (.ofList (operands ++ rest)) = length.resolve (.ofList (operands ++ rest')) := by
  cases length with
  | fixed width => rfl
  | operand distance =>
    rw [resolve, resolve, Stack.peek_ofList_append _ h, Stack.peek_ofList_append _ h]

/-- A price depends on the operands that its rule reads, and not on the stack below. -/
theorem stepCost_congr_operands {rule : CostRule} {operands : List Word}
    (h : rule.reads ≤ operands.length) (rest rest' : List Word) (m : Memory) :
    stepCost rule (.ofList (operands ++ rest)) m =
      stepCost rule (.ofList (operands ++ rest')) m := by
  cases rule with
  | fixed gas => rfl
  | exponent =>
    have hone : 1 < operands.length := h
    rw [stepCost, stepCost, Stack.peek_ofList_append _ hone, Stack.peek_ofList_append _ hone]
  | memory base offset length =>
    have hoffset : offset < operands.length := Nat.le_trans (Nat.le_max_left _ _) h
    have hlength : length.reads ≤ operands.length := Nat.le_trans (Nat.le_max_right _ _) h
    rw [stepCost, stepCost, Stack.peek_ofList_append _ hoffset,
      Stack.peek_ofList_append _ hoffset,
      RangeLength.resolve_congr_operands hlength rest rest']

/-- The catalog asks for every operand that the cost rule reads. -/
theorem Opcode.reads_le_inputs (op : Opcode) : op.entry.cost.reads ≤ op.entry.inputs := by
  cases op with
  | binary f => cases f <;> decide
  | _ => exact Nat.le_of_ble_eq_true rfl

/-- The price of an instruction that has its operands does not depend on a base. -/
theorem Opcode.stepCost_onBase {op : Opcode} {stack : Stack}
    (hinputs : op.entry.inputs ≤ stack.size) (base : List Word) (m : Memory) :
    stepCost op.entry.cost (stack.onBase base) m = stepCost op.entry.cost stack m := by
  obtain ⟨operands, rest, hstack, hlength⟩ := Stack.exists_ofList_append hinputs
  rw [hstack, Stack.onBase_ofList, List.append_assoc]
  exact stepCost_congr_operands (hlength ▸ op.reads_le_inputs) _ _ m

/-! ## Outcomes -/

/-- The state with words below its stack. -/
def State.onBase (base : List Word) (s : State) : State :=
  { s with stack := s.stack.onBase base }

/-- Control and exits do not notice a base. -/
theorem State.unnoticed_onBase (base : List Word) : Unnoticed (onBase base) where
  withStatus _ _ := rfl
  applyControl _ control := by cases control <;> rfl

namespace Opcode

/-- Results do not depend on a base. -/
theorem results_onBase (op : Opcode) (base : List Word) (s : State) (operands : List Word) :
    op.results (s.onBase base) operands = op.results s operands := by
  cases op <;> rfl

/-- Control does not depend on a base. -/
theorem control_onBase (op : Opcode) (base : List Word) (s : State) (operands : List Word) :
    op.control (s.onBase base) operands = op.control s operands := by
  cases op <;> rfl

/-- An instruction leaves a base where it is. -/
theorem completed_onBase (op : Opcode) (base : List Word) (s : State)
    (operands rest : List Word) :
    op.completed (s.onBase base) operands (rest ++ base.reverse) =
      (op.completed s operands rest).onBase base := by
  have hstack : Stack.ofList (op.results s operands ++ (rest ++ base.reverse)) =
      (Stack.ofList (op.results s operands ++ rest)).onBase base := by
    rw [Stack.onBase_ofList, List.append_assoc]
  rw [completed, results_onBase, hstack]
  cases op <;> rfl

/-- An instruction that has room on a base has the same outcome without the base. -/
theorem outcome_onBase {op : Opcode} {base rest : List Word}
    (hroom : (rest ++ base.reverse).length + op.entry.outputs ≤ Schedule.maxStackSize)
    (s : State) (operands : List Word) :
    op.outcome (s.onBase base) operands (rest ++ base.reverse) =
      (op.outcome s operands rest).map (State.onBase base) := by
  have hlength : (rest ++ base.reverse).length = rest.length + base.reverse.length :=
    List.length_append
  exact (State.unnoticed_onBase base).outcome_map (by omega) (op.control_onBase base s operands)
    (op.completed_onBase base s operands rest)

end Opcode

/-! ## Evaluations -/

namespace State

variable {code data : Array UInt8} {limit : UInt64} {base : List Word} {s t : State}

/-- The state `t` of a run on a base belongs to the state `s` of a run without it, unless
the one has run into the bottom of its stack or the other into the limit. -/
inductive Frames (base : List Word) (s t : State) : Prop where
  /-- The states agree above the base. -/
  | framed (heq : t = s.onBase base)
  /-- The stack without the base is too short. -/
  | underflow (hexited : s.status = .exited (.fault .stackUnderflow))
  /-- The stack on the base is too full. -/
  | overflow (hexited : t.status = .exited (.fault .stackOverflow))

/-- The payment for the same instruction on a base. -/
def Payment.onBase (p : Payment s) (base : List Word) : Payment (s.onBase base) where
  op := p.op
  operands := p.operands
  rest := p.rest ++ base.reverse
  cost := p.cost
  gas := p.gas
  current_eq := p.current_eq
  stack_eq := by
    rw [State.onBase, p.stack_eq, Stack.onBase_ofList, List.append_assoc]
  length_operands := p.length_operands
  price_eq := by
    rw [← p.price_eq]
    exact Opcode.stepCost_onBase p.inputs_le base s.memory
  charge_eq := p.charge_eq

/-- An instruction that was paid for does the same on a base, unless there is no room. -/
theorem Sound.frames_of_payment (h : s.Sound code data limit)
    (hbound : (s.onBase base).stack.size ≤ Schedule.maxStackSize) (p : Payment s) :
    Frames base s.advanced (s.onBase base).advanced := by
  rw [State.advanced, State.advanced, p.eval_eq h.stack_le, (p.onBase base).eval_eq hbound,
    Payment.outcome, Payment.outcome]
  by_cases hroom :
      (p.onBase base).rest.length + (p.onBase base).op.entry.outputs ≤ Schedule.maxStackSize
  · apply Frames.framed
    rw [← (unnoticed_onBase base).recorded_map]
    exact congrArg _ (Opcode.outcome_onBase hroom p.charged p.operands)
  · apply Frames.overflow
    rw [Opcode.outcome, if_pos (Nat.lt_of_not_le hroom)]
    rfl

/-- An evaluation does the same on a base, unless one stack is too short or the other too
full. -/
theorem Sound.frames_advanced (h : s.Sound code data limit)
    (hbound : (s.onBase base).stack.size ≤ Schedule.maxStackSize) :
    Frames base s.advanced (s.onBase base).advanced := by
  have hgrows : s.stack.size ≤ (s.onBase base).stack.size := by
    rw [onBase, Stack.size_onBase]
    exact Nat.le_add_left _ _
  cases s.checked with
  | undecoded hcurrent =>
    rw [advanced_of_unchanged (eval_of_none hcurrent),
      advanced_of_unchanged (eval_of_none (s := s.onBase base) hcurrent)]
    exact .framed rfl
  | missing hcurrent hinputs =>
    rw [advanced_of_unchanged (eval_of_missing hcurrent hinputs)]
    exact .underflow rfl
  | unpriced hcurrent hinputs hprice =>
    have hprice' := (Opcode.stepCost_onBase hinputs base s.memory).trans hprice
    rw [advanced_of_unchanged (eval_of_unpriced hcurrent hinputs hprice),
      advanced_of_unchanged (eval_of_unpriced (s := s.onBase base) hcurrent
        (Nat.le_trans hinputs hgrows) hprice')]
    exact .framed rfl
  | unpaid hcurrent hinputs hprice hcharge =>
    have hprice' := (Opcode.stepCost_onBase hinputs base s.memory).trans hprice
    rw [advanced_of_unchanged (eval_of_unpaid hcurrent hinputs hprice hcharge),
      advanced_of_unchanged (eval_of_unpaid (s := s.onBase base) hcurrent
        (Nat.le_trans hinputs hgrows) hprice' hcharge)]
    exact .framed rfl
  | paid p => exact h.frames_of_payment hbound p

/-- A step keeps a run on a base together with the run without it. -/
theorem Sound.frames_next (h : s.Sound code data limit) (ht : t.Sound code data limit)
    (hframes : Frames base s t) : Frames base s.next t.next := by
  cases hframes with
  | underflow hexited =>
    rw [next_of_exited hexited]
    exact .underflow hexited
  | overflow hexited =>
    rw [next_of_exited hexited]
    exact .overflow hexited
  | framed heq =>
    subst heq
    cases hstatus : s.status with
    | exited reason =>
      rw [next_of_exited hstatus, next_of_exited (s := s.onBase base) hstatus]
      exact .framed rfl
    | running =>
      rw [next_of_running hstatus, next_of_running (s := s.onBase base) hstatus]
      exact h.frames_advanced ht.stack_le

end State

/-! ## Runs -/

namespace Machine

/-- The frame rule: words below the initial stack do not matter.  Unless the run without
them runs into the bottom of its stack, or the run with them into the limit, both end for
the same reason with the same program counter, memory, meter and return data, and the words
still lie below the final stack. -/
theorem stack_frame (code data : Array UInt8) (gasLimit : UInt64) (context : Context)
    {base words : List Word} (hfit : base.length + words.length ≤ Schedule.maxStackSize) :
    let final := (unguarded code data gasLimit context words).run.state
    let final' := (unguarded code data gasLimit context (base ++ words)).run.state
    final.status ≠ .exited (.fault .stackUnderflow) →
      final'.status ≠ .exited (.fault .stackOverflow) →
      (∃ reason, final.status = .exited reason ∧ final'.status = .exited reason) ∧
        final'.pc = final.pc ∧ final'.memory = final.memory ∧ final'.gas = final.gas ∧
        final'.returnData = final.returnData ∧
        final'.stack.items.toList = base ++ final.stack.items.toList := by
  intro final final' hunderflow hoverflow
  have hframes : State.Frames base final final' := by
    apply related_run_unguarded
    · intro s t hs ht hst
      exact hs.frames_next ht hst
    · apply State.Frames.framed
      exact congrArg (fun stack => { State.initial code data gasLimit with stack })
        (Stack.seed_append hfit)
  obtain ⟨reason, hexited⟩ := exists_exit_run_unguarded code data gasLimit context words
  cases hframes with
  | underflow hshort => exact absurd hshort hunderflow
  | overflow hfull => exact absurd hfull hoverflow
  | framed heq =>
    rw [heq]
    refine ⟨⟨reason, hexited, hexited⟩, rfl, rfl, rfl, rfl, ?_⟩
    rw [State.onBase, Stack.onBase, Array.toList_append]

/-- A loop that counts down from two leaves two words below its counter alone. -/
theorem stack_frame_of_countdown :
    let code := #[0x5b, 0x60, 0x01, 0x90, 0x03, 0x80, 0x60, 0x00, 0x57]
    let final (words : List Word) := (unguarded code #[] 100 default words).run.state
    (final [2]).status = .exited (.success .stopped) ∧
      (final ([7, 8] ++ [2])).status = .exited (.success .stopped) ∧
      (final ([7, 8] ++ [2])).gas = (final [2]).gas ∧
      (final ([7, 8] ++ [2])).stack.items.toList = [7, 8] ++ (final [2]).stack.items.toList := by
  intro code final
  have hexited : (final [2]).status = .exited (.success .stopped) := by decide +kernel
  have hexited' : (final ([7, 8] ++ [2])).status = .exited (.success .stopped) := by
    decide +kernel
  have hunderflow : (final [2]).status ≠ .exited (.fault .stackUnderflow) := by
    rw [hexited]
    decide
  have hoverflow : (final ([7, 8] ++ [2])).status ≠ .exited (.fault .stackOverflow) := by
    rw [hexited']
    decide
  have hfit : ([7, 8] : List Word).length + ([2] : List Word).length ≤ Schedule.maxStackSize := by
    decide
  dsimp only [final] at hexited hexited' hunderflow hoverflow ⊢
  obtain ⟨_, _, _, hgas, _, hstack⟩ :=
    stack_frame code #[] 100 default hfit hunderflow hoverflow
  exact ⟨hexited, hexited', hgas, hstack⟩

end Machine

end MeteredMachine
