import MeteredMachine.Proofs.MemoryCharge

/-!
# What a host can rely on

Between any two calls a host finds a machine in good order, whatever it did before: the
invariant of the state holds, gas has only been used up and memory has only grown, and
return data are there only if the machine has ended by returning them.

Main results:

- Theorem {lit}`State.remaining_advanced_le`: an evaluation never adds gas.
- Theorem {lit}`State.size_memory_le_advanced`: an evaluation never shrinks memory.
- Theorem {lit}`State.returnData_advanced`: only a return leaves return data, and it ends the
  machine.
- Theorem {lit}`Machine.representation_invariant` says all this of every machine that a host
  can bring about.
-/

namespace MeteredMachine

/-- Only a return changes the return data. -/
theorem Opcode.returnData_outcome {op : Opcode} (hret : op ≠ ret) (s : State)
    (operands rest : List Word) :
    (op.outcome s operands rest).state.returnData = s.returnData := by
  rcases op.state_outcome_cases s operands rest with ⟨heq, _⟩ | ⟨_, _, heq⟩
  · rw [heq]
  · rw [heq]
    cases op with
    | ret => exact absurd rfl hret
    | _ => rfl

/-! ## One evaluation -/

namespace State

variable {s : State}

theorem remaining_advanced_le (hbound : s.stack.size ≤ Schedule.maxStackSize) :
    s.advanced.gas.remaining.toNat ≤ s.gas.remaining.toNat := by
  rcases eval_cases hbound with ⟨_, reason, heval⟩ | ⟨p, _, _⟩
  · rw [advanced_of_unchanged heval]
  · have hcharge := Meter.toNat_remaining_of_charge p.charge_eq
    rw [p.gas_advanced hbound]
    omega

theorem size_memory_le_advanced (hbound : s.stack.size ≤ Schedule.maxStackSize) :
    s.memory.size ≤ s.advanced.memory.size := by
  rcases eval_cases hbound with ⟨_, reason, heval⟩ | ⟨p, _, _⟩
  · rw [advanced_of_unchanged heval]
  · rw [p.size_memory_advanced hbound]
    exact p.op.entry.cost.size_le_size_covered s.stack s.memory

/-- Only a return leaves return data, and it ends the machine. -/
theorem returnData_advanced (hbound : s.stack.size ≤ Schedule.maxStackSize)
    (hrun : s.status = .running) (hempty : s.returnData = []) :
    s.advanced.returnData = [] ∨ s.advanced.status = .exited (.success .returned) := by
  rcases eval_cases hbound with ⟨_, reason, heval⟩ | ⟨p, _, heval⟩
  · rw [advanced_of_unchanged heval]
    exact Or.inl hempty
  · obtain ⟨status, heq⟩ := s.advanced_eq
    rw [status_advanced hbound hrun, heq, heval, Payment.outcome]
    by_cases hret : p.op = .ret
    · rcases p.op.outcome_cases p.charged p.operands p.rest with
        ⟨hout, _⟩ | ⟨_, ⟨fault, hfault, _⟩ | ⟨control, hcontrol, hout⟩⟩
      · rw [hout]
        exact Or.inl hempty
      · rw [hret] at hfault
        cases hfault
      · rw [hret] at hcontrol
        cases hcontrol
        rw [hout]
        exact Or.inr rfl
    · left
      exact (Opcode.returnData_outcome hret p.charged p.operands p.rest).trans hempty

end State

/-! ## Every history -/

namespace Machine

variable {σ : Type} {m : Machine σ} {code data : Array UInt8} {limit : UInt64}

/-- Whatever commands follow, gas is only used up and memory only grows. -/
theorem monotone_performAll (h : m.state.Sound code data limit) (commands : List Command) :
    (commands.foldl perform m).state.gas.remaining.toNat ≤ m.state.gas.remaining.toNat ∧
      m.state.memory.size ≤ (commands.foldl perform m).state.memory.size := by
  apply state_performAll_of_sound (P := fun t =>
    t.gas.remaining.toNat ≤ m.state.gas.remaining.toNat ∧ m.state.memory.size ≤ t.memory.size)
    _ _ _ h
  · exact ⟨Nat.le_refl _, Nat.le_refl _⟩
  · intro t fault _ hmono
    exact hmono
  · rintro t ht _ ⟨hgas, hmemory⟩
    exact ⟨Nat.le_trans (State.remaining_advanced_le ht.stack_le) hgas,
      Nat.le_trans hmemory (State.size_memory_le_advanced ht.stack_le)⟩
  · intro t command hmono
    exact hmono

/-- After any commands, there are return data only if the machine has returned. -/
theorem returnData_performAll (h : m.state.Sound code data limit)
    (hempty : m.state.returnData = []) (commands : List Command) :
    (commands.foldl perform m).state.returnData = [] ∨
      (commands.foldl perform m).state.status = .exited (.success .returned) := by
  apply state_performAll_of_sound (P := fun t =>
    t.returnData = [] ∨ t.status = .exited (.success .returned)) _ _ _ h
  · exact Or.inl hempty
  · rintro t fault hrun (hdata | hreturned)
    · exact Or.inl hdata
    · cases hrun.symm.trans hreturned
  · rintro t ht hrun (hdata | hreturned)
    · exact State.returnData_advanced ht.stack_le hrun hdata
    · cases hrun.symm.trans hreturned
  · intro t command hdata
    exact hdata

/-- What a host can rely on after any sequence of steps, runs and calls on the stack, under
every policy: the stack is within its limit, memory is a whole number of words and can be
addressed, remaining and spent gas add up to the limit that was given, and no refund is
booked; code, data and jump table are those of the start; there are return data only if the
machine has returned; and whatever commands follow, gas is only used up and memory only
grows. -/
theorem representation_invariant (code data : Array UInt8) (gasLimit : UInt64)
    (context : Context) (policy : Policy σ) (memo : σ) (commands later : List Command) :
    let m := commands.foldl perform (ofCode code data gasLimit context policy memo)
    let s := m.state
    let t := (later.foldl perform m).state
    s.stack.size ≤ 1024 ∧ 32 ∣ s.memory.size ∧ s.memory.size ≤ 2 ^ 32 ∧
      s.gas.remaining.toNat + s.gas.spent.toNat = s.gas.limit.toNat ∧ s.gas.limit = gasLimit ∧
      s.gas.refunded = 0 ∧ s.code = code ∧ s.data = data ∧ s.jumpTable = .ofCode code ∧
      (s.returnData = [] ∨ s.status = .exited (.success .returned)) ∧
      t.gas.remaining ≤ s.gas.remaining ∧ s.memory.size ≤ t.memory.size := by
  intro m s t
  have hstart := State.sound_initial code data gasLimit
  have hsound : s.Sound code data gasLimit := sound_performAll hstart commands
  obtain ⟨hgas, hmemory⟩ := monotone_performAll hsound later
  have hsum := hsound.balanced.sum_eq
  rw [← hsound.balanced.limit_eq] at hsum
  exact ⟨hsound.stack_le, hsound.memory_aligned, hsound.memory_le, hsum,
    hsound.balanced.limit_eq, hsound.balanced.refunded_eq, hsound.code_eq, hsound.data_eq,
    hsound.table_eq, returnData_performAll hstart rfl commands,
    UInt64.le_iff_toNat_le.2 hgas, hmemory⟩

end Machine

end MeteredMachine
