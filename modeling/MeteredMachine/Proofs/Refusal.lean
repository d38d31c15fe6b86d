import Mathlib.Data.Nat.Find
import MeteredMachine.Proofs.Run

/-!
# Refusals of a policy

A policy can only cut a run short.  It is asked once before every step, in the state that
the step starts from, and either lets the step happen as if there were no policy or ends
the machine where it stands.  So a run under a policy is compared with the run of the same
machine without it: both are in the same states up to the first refusal, and what the
policy remembers is the result of having been asked about exactly these states.

Main results:

- Definition {lit}`Machine.inquiries` lists what a policy is asked along a run without it.
- Theorem {lit}`Machine.iterate_step_of_permitted`: as long as the policy permits them, steps
  are the steps of the machine without the policy.
- Theorem {lit}`State.status_advanced_ne_custom`: no evaluation ends with the fault of a host.
- Theorem {lit}`Machine.policy_only_cuts_short` compares whole runs, and says where a limit on
  the number of steps ends them.
-/

namespace MeteredMachine

/-! ## Inquiries -/

/-- What a policy is asked before a step: the state, the instruction at the program counter if
there is a defined one, and the address of the frame. -/
structure Inquiry where
  state : State
  opcode? : Option Opcode
  address : Address

/-- What a policy is asked before a step that starts from a state. -/
def Inquiry.before (s : State) (address : Address) : Inquiry where
  state := s
  opcode? := s.code[s.pc]?.bind Opcode.ofByte?
  address := address

namespace Policy

variable {σ : Type}

/-- The verdict on an inquiry. -/
def answer (policy : Policy σ) (memo : σ) (inquiry : Inquiry) : Verdict σ :=
  policy.review memo inquiry.state inquiry.opcode? inquiry.address

/-- What a policy remembers after it has been asked about some steps, one after the other. -/
def memoAfter (policy : Policy σ) (memo : σ) (inquiries : List Inquiry) : σ :=
  inquiries.foldl (fun memo inquiry => (policy.answer memo inquiry).memo) memo

end Policy

namespace Machine

variable {σ : Type} {m : Machine σ}

/-- What a policy is asked before step `k` of a machine. -/
def inquiryAt (free : Machine Unit) (k : Nat) : Inquiry :=
  .before (step^[k] free).state free.context.address

/-- What a policy is asked before the first `k` steps of a machine. -/
def inquiries (free : Machine Unit) (k : Nat) : List Inquiry :=
  (List.range k).map free.inquiryAt

/-- The verdict of a policy on step `k` of a machine, after it has been asked about all
steps before. -/
def verdictAt (free : Machine Unit) (policy : Policy σ) (memo : σ) (k : Nat) : Verdict σ :=
  policy.answer (policy.memoAfter memo (free.inquiries k)) (free.inquiryAt k)

theorem memoAfter_inquiries_succ (free : Machine Unit) (policy : Policy σ) (memo : σ) (k : Nat) :
    policy.memoAfter memo (free.inquiries (k + 1)) = (free.verdictAt policy memo k).memo := by
  rw [inquiries, List.range_succ, List.map_append, Policy.memoAfter, List.foldl_append]
  rfl

/-! ## Steps under a policy -/

/-- The same machine under the policy that permits everything. -/
def freed (m : Machine σ) : Machine Unit where
  state := m.state
  context := m.context
  policy := .permit
  memo := ()

theorem state_iterate_freed_succ {k : Nat} (hrun : (step^[k] m.freed).isRunning = true) :
    (step^[k + 1] m.freed).state = (step^[k] m.freed).state.advanced := by
  rw [isRunning_eq_true_iff] at hrun
  rw [(iterate_step_permit rfl _).1] at hrun ⊢
  rw [(iterate_step_permit rfl _).1, Function.iterate_succ_apply', State.next_of_running hrun]

/-- The machine after `k` steps that the policy permits: the state is that of the machine
without the policy, and the policy has been asked once about each step. -/
def permittedTo (m : Machine σ) (k : Nat) : Machine σ :=
  { m with
    state := (step^[k] m.freed).state
    memo := m.policy.memoAfter m.memo (m.freed.inquiries k) }

theorem verdict_permittedTo (m : Machine σ) (k : Nat) :
    (m.permittedTo k).verdict = m.freed.verdictAt m.policy m.memo k :=
  rfl

/-- As long as the policy permits them, steps are the steps of the machine without the
policy. -/
theorem iterate_step_of_permitted {k : Nat}
    (hrun : ∀ j, j < k → (step^[j] m.freed).isRunning = true)
    (hpermit : ∀ j, j < k → (m.freed.verdictAt m.policy m.memo j).refusal? = none) :
    step^[k] m = m.permittedTo k := by
  induction k with
  | zero => rfl
  | succ k ih =>
    have hbefore := ih (fun j hj => hrun j (by omega)) (fun j hj => hpermit j (by omega))
    have hstatus : (m.permittedTo k).status = .running :=
      (isRunning_eq_true_iff _).1 (hrun k (by omega))
    have hverdict : (m.permittedTo k).verdict.refusal? = none := hpermit k (by omega)
    rw [Function.iterate_succ_apply', hbefore, step_of_permitted hstatus hverdict,
      verdict_permittedTo, permittedTo, permittedTo, memoAfter_inquiries_succ,
      state_iterate_freed_succ (hrun k (by omega))]

/-- The first step that the policy refuses ends the machine where it stands. -/
theorem iterate_step_of_refused {k : Nat} {fault : Fault}
    (hrun : ∀ j, j ≤ k → (step^[j] m.freed).isRunning = true)
    (hpermit : ∀ j, j < k → (m.freed.verdictAt m.policy m.memo j).refusal? = none)
    (hrefuse : (m.freed.verdictAt m.policy m.memo k).refusal? = some fault) :
    step^[k + 1] m =
      { m with
        state := { (step^[k] m.freed).state with status := .exited (.fault fault) }
        memo := m.policy.memoAfter m.memo (m.freed.inquiries (k + 1)) } := by
  have hstatus : (m.permittedTo k).status = .running :=
    (isRunning_eq_true_iff _).1 (hrun k (by omega))
  have hverdict : (m.permittedTo k).verdict.refusal? = some fault := hrefuse
  rw [Function.iterate_succ_apply',
    iterate_step_of_permitted (fun j hj => hrun j (by omega)) hpermit,
    step_of_refused hstatus hverdict, verdict_permittedTo, permittedTo, memoAfter_inquiries_succ]

/-- A policy is asked about no step that comes after the exit. -/
theorem memo_iterate_step_of_exited {calls : Nat}
    (hmemo : ∀ j, j ≤ calls →
      (step^[j] m).memo = m.policy.memoAfter m.memo (m.freed.inquiries j))
    (hexited : (step^[calls] m).isRunning = false) (rounds : Nat) :
    (step^[rounds] m).memo =
      m.policy.memoAfter m.memo (m.freed.inquiries (min rounds calls)) := by
  rcases Nat.le_total rounds calls with hle | hle
  · rw [Nat.min_eq_left hle]
    exact hmemo rounds hle
  · rw [Nat.min_eq_right hle, iterate_step_eq_of_exited hexited hle]
    exact hmemo calls (Nat.le_refl _)

/-! ## Runs under a policy -/

/-- The run of a machine is that of the machine without its policy up to the refusal of step
`k`, which ends it and changes nothing of the state but the status.  The policy is asked about
the permitted steps and the refused one, once about each, and about none after the exit. -/
structure CutShort (free : Machine Unit) (m : Machine σ) (k : Nat) (fault : Fault) : Prop where
  state_eq : ∀ j, j ≤ k → (step^[j] m).state = (step^[j] free).state
  runsIn : RunsIn (k + 1) m m.run
  final_eq : m.run.state = { (step^[k] free).state with status := .exited (.fault fault) }
  memo_eq : ∀ rounds, (step^[rounds] m).memo =
    m.policy.memoAfter m.memo (free.inquiries (min rounds (k + 1)))

/-- The run of a machine is that of the machine without its policy, which takes so many
steps, and the policy is asked once about each of them. -/
structure Unimpeded (free : Machine Unit) (m : Machine σ) (steps : Nat) : Prop where
  state_eq : ∀ j, (step^[j] m).state = (step^[j] free).state
  runsIn : RunsIn steps m m.run
  final_eq : m.run.state = free.run.state
  memo_eq : ∀ rounds, (step^[rounds] m).memo =
    m.policy.memoAfter m.memo (free.inquiries (min rounds steps))

theorem cutShort_of_refused (hbound : m.state.stack.size ≤ Schedule.maxStackSize) {k : Nat}
    {fault : Fault} (hrun : ∀ j, j ≤ k → (step^[j] m.freed).isRunning = true)
    (hpermit : ∀ j, j < k → (m.freed.verdictAt m.policy m.memo j).refusal? = none)
    (hrefuse : (m.freed.verdictAt m.policy m.memo k).refusal? = some fault) :
    CutShort m.freed m k fault := by
  have hpermitted (j : Nat) (hle : j ≤ k) : step^[j] m = m.permittedTo j :=
    iterate_step_of_permitted (fun i hi => hrun i (by omega)) (fun i hi => hpermit i (by omega))
  have hrefused := iterate_step_of_refused hrun hpermit hrefuse
  have hexited : (step^[k + 1] m).isRunning = false := by
    rw [hrefused]
    rfl
  have hfinal := run_eq_of_exited hbound hexited
  refine ⟨?_, ?_, ?_, ?_⟩
  · intro j hle
    rw [hpermitted j hle]
    rfl
  · rw [hfinal]
    apply runsIn_of_iterate _ hexited
    intro j hle
    rw [hpermitted j hle]
    exact hrun j hle
  · rw [hfinal, hrefused]
  · apply memo_iterate_step_of_exited _ hexited
    intro j hle
    rcases Nat.eq_or_lt_of_le hle with rfl | hlt
    · rw [hrefused]
    · rw [hpermitted j (by omega)]
      rfl

theorem unimpeded_of_permitted (hbound : m.state.stack.size ≤ Schedule.maxStackSize)
    {steps : Nat} (hruns : RunsIn steps m.freed m.freed.run)
    (hrun : ∀ j, j < steps → (step^[j] m.freed).isRunning = true)
    (hpermit : ∀ j, j < steps → (m.freed.verdictAt m.policy m.memo j).refusal? = none) :
    Unimpeded m.freed m steps := by
  have hpermitted (j : Nat) (hle : j ≤ steps) : step^[j] m = m.permittedTo j :=
    iterate_step_of_permitted (fun i hi => hrun i (by omega)) (fun i hi => hpermit i (by omega))
  have hlast := hpermitted steps (Nat.le_refl _)
  have hfree : (step^[steps] m.freed).isRunning = false := by
    rw [← hruns.eq_iterate]
    exact hruns.isRunning_final
  have hexited : (step^[steps] m).isRunning = false := by
    rw [hlast]
    exact hfree
  have hfinal := run_eq_of_exited hbound hexited
  refine ⟨?_, ?_, ?_, ?_⟩
  · intro j
    rcases Nat.le_total j steps with hle | hle
    · rw [hpermitted j hle]
      rfl
    · -- Behind the exit both machines stand still.
      rw [iterate_step_eq_of_exited hexited hle, iterate_step_eq_of_exited hfree hle, hlast]
      rfl
  · rw [hfinal]
    cases steps with
    | zero => cases hruns
    | succ rounds =>
      apply runsIn_of_iterate _ hexited
      intro j hle
      rw [hpermitted j (by omega)]
      exact hrun j (by omega)
  · rw [hfinal, hlast, hruns.eq_iterate]
    rfl
  · apply memo_iterate_step_of_exited _ hexited
    intro j hle
    rw [hpermitted j hle]
    rfl

/-- A run under a policy is cut short at the first refusal, or goes on as if there were no
policy. -/
theorem cutShort_or_unimpeded (hbound : m.state.stack.size ≤ Schedule.maxStackSize)
    (hrunning : m.isRunning = true) {steps : Nat} (hruns : RunsIn steps m.freed m.freed.run) :
    (∃ k fault, k < steps ∧
        (∀ j, j < k → (m.freed.verdictAt m.policy m.memo j).refusal? = none) ∧
        (m.freed.verdictAt m.policy m.memo k).refusal? = some fault ∧
        CutShort m.freed m k fault) ∨
      ((∀ k, k < steps → (m.freed.verdictAt m.policy m.memo k).refusal? = none) ∧
        Unimpeded m.freed m steps) := by
  classical
  have hrun : ∀ j, j < steps → (step^[j] m.freed).isRunning = true :=
    fun j hlt => hruns.isRunning_iterate hrunning hlt
  by_cases hrefused :
      ∃ k, k < steps ∧ (m.freed.verdictAt m.policy m.memo k).refusal? ≠ none
  · obtain ⟨hlt, hne⟩ := Nat.find_spec hrefused
    obtain ⟨fault, hfault⟩ := Option.ne_none_iff_exists'.1 hne
    have hfirst : ∀ j, j < Nat.find hrefused →
        (m.freed.verdictAt m.policy m.memo j).refusal? = none := by
      intro j hj
      by_contra hrefuse
      exact Nat.find_min hrefused hj ⟨by omega, hrefuse⟩
    refine Or.inl ⟨Nat.find hrefused, fault, hlt, hfirst, hfault, ?_⟩
    exact cutShort_of_refused hbound (fun j hle => hrun j (by omega)) hfirst hfault
  · have hpermit : ∀ k, k < steps →
        (m.freed.verdictAt m.policy m.memo k).refusal? = none := by
      intro k hlt
      by_contra hrefuse
      exact hrefused ⟨k, hlt, hrefuse⟩
    exact Or.inr ⟨hpermit, unimpeded_of_permitted hbound hruns hrun hpermit⟩

/-- A policy that refuses additions ends this sum before it is paid for, with the operands
still on the stack. -/
example :
    let denied := Fault.custom "ADD denied"
    let m := ofCode #[0x60, 0x01, 0x60, 0x02, 0x01] #[] 100 default StockPolicy.policy
      (.denyOpcode (some 0x01) denied)
    m.run.state.status = .exited (.fault denied) ∧ m.run.state.gas.spent = 6 ∧
      m.run.state.stack.items = #[1, 2] ∧ m.run.state.pc = 4 := by
  decide +kernel

end Machine

/-! ## Faults of a host -/

namespace State

variable {s : State}

/-- No evaluation ends with the fault of a host. -/
theorem exit?_eval_ne_custom (hbound : s.stack.size ≤ Schedule.maxStackSize) (text : String) :
    s.eval.exit? ≠ some (.fault (.custom text)) := by
  cases s.checked with
  | undecoded hcurrent =>
    rw [eval_of_none hcurrent, undecodedReason]
    cases s.currentByte? <;> simp
  | missing hcurrent hinputs =>
    rw [eval_of_missing hcurrent hinputs]
    simp
  | unpriced hcurrent hinputs hprice =>
    rw [eval_of_unpriced hcurrent hinputs hprice]
    rcases stepCost_eq_error hprice with rfl | rfl <;> simp
  | unpaid hcurrent hinputs hprice hcharge =>
    rw [eval_of_unpaid hcurrent hinputs hprice hcharge]
    simp
  | paid p =>
    rw [p.eval_eq hbound, Payment.outcome]
    rcases p.op.outcome_cases p.charged p.operands p.rest with
      ⟨heq, _⟩ | ⟨_, ⟨fault, hfault, heq⟩ | ⟨control, _, heq⟩⟩
    · rw [heq]
      simp
    · rw [heq]
      rcases p.op.control_cases p.charged p.operands with
        ⟨hok, _⟩ | ⟨_, hok, _⟩ | ⟨_, hok⟩ | ⟨_, hok⟩ | ⟨position, herror, _⟩
      · cases hfault.symm.trans hok
      · cases hfault.symm.trans hok
      · cases hfault.symm.trans hok
      · cases hfault.symm.trans hok
      · cases hfault.symm.trans herror
        simp
    · rw [heq]
      cases control <;> simp [applyControl]

theorem status_advanced_ne_custom (hbound : s.stack.size ≤ Schedule.maxStackSize)
    (hrun : s.status = .running) (text : String) :
    s.advanced.status ≠ .exited (.fault (.custom text)) := by
  rw [status_advanced hbound hrun]
  have hexit := exit?_eval_ne_custom hbound text
  cases heval : s.eval.exit? with
  | none => simp
  | some reason =>
    rw [heval] at hexit
    simpa using hexit

end State

namespace Machine

variable {σ : Type} {m : Machine σ}

/-- Without a policy, no run ends with the fault of a host. -/
theorem status_run_freed_ne_custom (hbound : m.state.stack.size ≤ Schedule.maxStackSize)
    (hrunning : m.isRunning = true) {steps : Nat} (hruns : RunsIn steps m.freed m.freed.run)
    (text : String) : m.freed.run.state.status ≠ .exited (.fault (.custom text)) := by
  cases steps with
  | zero => cases hruns
  | succ rounds =>
    have hrun := hruns.isRunning_iterate hrunning (Nat.lt_succ_self rounds)
    rw [hruns.eq_iterate, state_iterate_freed_succ hrun]
    exact State.status_advanced_ne_custom (size_stack_iterate_step_le (m := m.freed) hbound rounds)
      ((isRunning_eq_true_iff _).1 hrun) text

end Machine

/-! ## Limits on the number of steps -/

namespace StockPolicy

theorem memoAfter_stepLimit (n : Nat) (inquiries : List Inquiry) :
    policy.memoAfter (stepLimit n) inquiries = stepLimit (n - inquiries.length) := by
  induction inquiries generalizing n with
  | nil => rfl
  | cons inquiry rest ih =>
    rw [Policy.memoAfter, List.foldl_cons]
    cases n with
    | zero =>
      rw [Nat.zero_sub]
      exact (ih 0).trans (by rw [Nat.zero_sub])
    | succ n =>
      rw [List.length_cons, Nat.add_sub_add_right]
      exact ih n

/-- A limit of `n` steps refuses every step but the first `n`. -/
theorem refusal?_verdictAt_stepLimit (free : Machine Unit) (n k : Nat) :
    (free.verdictAt policy (stepLimit n) k).refusal? =
      if k < n then none else some stepLimitFault := by
  have hlength : (free.inquiries k).length = k := by simp [Machine.inquiries]
  rw [Machine.verdictAt, memoAfter_stepLimit, hlength]
  split
  next hlt =>
    obtain ⟨left, hleft⟩ : ∃ left, n - k = left + 1 := ⟨n - k - 1, by omega⟩
    rw [hleft]
    rfl
  next hle =>
    have hzero : n - k = 0 := by omega
    rw [hzero]
    rfl

end StockPolicy

namespace Machine

variable {σ : Type} {m : Machine σ}

/-- A limit of `n` steps cuts the run short before step `n`, if there is one, and otherwise
does nothing. -/
theorem cutShort_of_stepLimit {m : Machine StockPolicy} {n steps : Nat}
    (hbound : m.state.stack.size ≤ Schedule.maxStackSize) (hrunning : m.isRunning = true)
    (hpolicy : m.policy = StockPolicy.policy) (hmemo : m.memo = .stepLimit n)
    (hruns : RunsIn steps m.freed m.freed.run) :
    (n < steps ∧ CutShort m.freed m n StockPolicy.stepLimitFault) ∨
      (steps ≤ n ∧ Unimpeded m.freed m steps) := by
  have hrefusal (k : Nat) := StockPolicy.refusal?_verdictAt_stepLimit m.freed n k
  rw [← hpolicy, ← hmemo] at hrefusal
  have hlast := hrefusal n
  rw [if_neg (Nat.lt_irrefl n)] at hlast
  rcases cutShort_or_unimpeded hbound hrunning hruns with
    ⟨k, fault, hlt, hpermit, hrefuse, hcut⟩ | ⟨hpermit, hfree⟩
  · rcases Nat.lt_trichotomy k n with hless | rfl | hmore
    · rw [hrefusal k, if_pos hless] at hrefuse
      cases hrefuse
    · cases hrefuse.symm.trans hlast
      exact Or.inl ⟨hlt, hcut⟩
    · cases hlast.symm.trans (hpermit n hmore)
  · refine Or.inr ⟨?_, hfree⟩
    by_contra hlt
    cases hlast.symm.trans (hpermit n (by omega))

/-- A policy can only cut a run short.  Compared with the same machine under the policy that
permits everything, whose run takes `steps` steps, a machine under any policy goes through
the same states up to the first step that the policy refuses, and ends there with nothing but
its status changed, to the fault that the policy gave; if the policy refuses none of these
steps, the run is the same.  Along the way the policy is asked once before each step, about
the state, the instruction and the address of the frame, and never after the exit.  In
particular, a limit of `n` steps ends the run after `n` steps exactly if it would take more,
and otherwise changes nothing. -/
theorem policy_only_cuts_short (code data : Array UInt8) (gasLimit : UInt64) (context : Context)
    (words : List Word) (policy : Policy σ) (memo : σ) :
    let free := unguarded code data gasLimit context words
    let guarded := (ofCode code data gasLimit context policy memo).seed words
    ∃ steps, RunsIn steps free free.run ∧
      ((∃ k fault, k < steps ∧
          (∀ j, j < k → (free.verdictAt policy memo j).refusal? = none) ∧
          (free.verdictAt policy memo k).refusal? = some fault ∧
          CutShort free guarded k fault) ∨
        ((∀ k, k < steps → (free.verdictAt policy memo k).refusal? = none) ∧
          Unimpeded free guarded steps)) ∧
      ∀ n,
        let limited :=
          (ofCode code data gasLimit context StockPolicy.policy (.stepLimit n)).seed words
        (limited.run.status = .exited (.fault (.custom "step limit reached")) ↔ n < steps) ∧
          (n < steps → CutShort free limited n (.custom "step limit reached")) ∧
          (steps ≤ n → Unimpeded free limited steps) := by
  intro free guarded
  have hbound := (sound_unguarded code data gasLimit context words).stack_le
  obtain ⟨steps, _, hruns⟩ := exists_runsIn_run hbound
  refine ⟨steps, hruns, cutShort_or_unimpeded (m := guarded) hbound rfl hruns, ?_⟩
  intro n limited
  -- Without its policy the limited machine is the same as the guarded one without its own.
  rcases cutShort_of_stepLimit (m := limited) hbound rfl rfl rfl hruns with
    ⟨hlt, hcut⟩ | ⟨hle, hfree⟩
  · refine ⟨⟨fun _ => hlt, fun _ => ?_⟩, fun _ => hcut, fun hle => ?_⟩
    · rw [status, hcut.final_eq]
      rfl
    · exact absurd hlt (Nat.not_lt.2 hle)
  · refine ⟨⟨fun hcustom => ?_, fun hlt => ?_⟩, fun hlt => ?_, fun _ => hfree⟩
    · rw [status, hfree.final_eq] at hcustom
      exact absurd hcustom (status_run_freed_ne_custom (m := limited) hbound rfl hruns _)
    · exact absurd hlt (Nat.not_lt.2 hle)
    · exact absurd hlt (Nat.not_lt.2 hle)

end Machine

end MeteredMachine
