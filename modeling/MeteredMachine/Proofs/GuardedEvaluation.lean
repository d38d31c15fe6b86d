import MeteredMachine.Proofs.GuardedParts
import MeteredMachine.Proofs.Invariant
import MeteredMachine.Proofs.LastWriter

/-!
# Evaluation on a host

An instruction checks its operands and is paid for before its body runs.  The body then relies on
both: it takes operands without asking for their number, turns words into sizes, and reads and writes
slices of memory.  Here instructions are evaluated on a host, where each of these is guarded, where
the size of an immediate and the depths of copies and exchanges pick the body, and where a last
branch refuses an instruction that no other branch takes.  On every machine that a host can bring
about, nothing traps, the last branch is not taken, and the result is that of the plain evaluation.

Main results:

- Definition {lit}`Guarded.eval` evaluates the instruction at the program counter.
- Theorem {lit}`Guarded.agrees_body`: a body whose operands are there and whose price is known does
  not trap.
- Theorem {lit}`Guarded.eval_eq`: evaluation in a sound state does not trap.
- Theorem {lit}`State.Payment.fault_of_body`: a body that is paid for fails for want of room or for a
  jump, and for nothing else.
- Theorem {lit}`Machine.evaluation_never_traps` puts these together for every reachable machine.
-/

namespace MeteredMachine

namespace Guarded

/-! ## Bodies -/

/-- An effect on the state that may fail or trap. -/
abbrev Body := OptionT Effect

/-- The step of a body that has a result in a state or traps there. -/
def step {α : Type} (f : State → Option (EStateM.Result Fault State α)) : Body α :=
  OptionT.mk fun s =>
    match f s with
    | some (.ok a s') => .ok (some a) s'
    | some (.error fault s') => .error fault s'
    | none => .ok none s

/-- Replaces the stack by the result of an operation. -/
def updateStack (f : Stack → Attempt Stack) : Body Unit := step fun s => do
  let result ← (f s.stack).run
  some (Effect.updateStack (fun _ => result) s)

/-- Replaces the memory. -/
def updateMemory (f : Memory → Option Memory) : Body Unit := step fun s => do
  let memory ← f s.memory
  some (.ok () { s with memory })

/-- Reads a word of memory. -/
def loadWordAt (offset : Nat) : Body Word := step fun s => do
  let loaded ← loadWord s.memory offset
  some (.ok loaded.value { s with memory := loaded.memory })

/-- Reads a range of memory into the return data. -/
def returnRange (offset length : Nat) : Body Unit := step fun s => do
  let loaded ← load s.memory offset length
  some (.ok () { s with memory := loaded.memory, returnData := loaded.value })

/-- Copies bytes over a slice of a buffer, which has to be inside and of their length. -/
def copyOver (buffer : Array UInt8) (start stop : Nat) (source : List UInt8) :
    Option (Array UInt8) := do
  let slice ← slice? buffer start stop
  if slice.length = source.length then some (Memory.overwrite buffer start source) else none

/-- The immediate of `size` bytes behind the instruction, which is copied to the end of a word of
zeros as far as the code goes. -/
def immediate (size : Nat) : Body Word := step fun s => do
  let start ← add? Word.sizeLimit s.pc 1
  let available := s.code.extract start s.code.size
  let count := min available.size size
  let first ← sub? Word.byteCount size
  let last ← add? Word.sizeLimit first count
  let source ← slice? available 0 count
  let bytes ← copyOver (Array.replicate Word.byteCount 0) first last source
  some (.ok (Word.ofBytes bytes.toList) s)

/-- Makes a range of memory the return data. -/
def returnBytes (offset length : Word) : Body Unit :=
  if length.isZero then modify fun s => { s with returnData := [] }
  else do
    let length ← Effect.size length
    let offset ← Effect.size offset
    returnRange offset length

/-- The effect of an instruction. -/
def body : Opcode → Body Control
  | .mload => do
    let offset ← Effect.size (← Effect.pop)
    Effect.push (← loadWordAt offset)
    pure (.advance 1)
  | .mstore => do
    let offset ← Effect.size (← Effect.pop)
    let value ← Effect.pop
    updateMemory (store · offset value.toBytes)
    pure (.advance 1)
  | .mstore8 => do
    let offset ← Effect.size (← Effect.pop)
    let value ← Effect.pop
    updateMemory (store · offset [value.lowUInt64.toUInt8])
    pure (.advance 1)
  | .ret => do
    let offset ← Effect.pop
    let length ← Effect.pop
    returnBytes offset length
    pure (.exit .returned)
  | op =>
    if op ∈ Opcode.plain then Effect.ofOpcode op
    else if op.immediateSize > 0 then do
      Effect.push (← immediate op.immediateSize)
      pure (.advance (1 + op.immediateSize))
    else if op.dupDepth > 0 then do
      updateStack (dup · op.dupDepth)
      pure (.advance 1)
    else if op.swapDepth > 0 then do
      updateStack (swap · op.swapDepth)
      pure (.advance 1)
    else (throw (.invalidOpcode op.toByte) : Effect Control)

/-! ## Evaluation -/

/-- Control takes effect on the program counter or ends the machine. -/
def applyControl (s : State) : Control → Option State.Evaluated
  | .advance bytes => do
    let pc ← add? Word.sizeLimit s.pc bytes
    some { state := { s with pc }, exit? := none }
  | control => some (s.applyControl control)

/-- Evaluates an instruction: operands, price, charge, effect, program counter. -/
def evalOpcode (s : State) (op : Opcode) : Option State.Evaluated :=
  if s.stack.size < op.entry.inputs then
    some { state := s, exit? := some (.fault .stackUnderflow) }
  else do
    match ← (stepCost op.entry.cost s.stack s.memory).run with
    | .error fault => some { state := s, exit? := some (.fault fault) }
    | .ok cost =>
      match ← (charge s.gas cost).run with
      | .error fault => some { state := s, exit? := some (.fault fault) }
      | .ok gas =>
        match EStateM.run (body op).run { s with gas } with
        | .ok none _ => none
        | .ok (some control) s' => applyControl s' control
        | .error fault s' => some { state := s', exit? := some (.fault fault) }

/-- Evaluates the instruction at the program counter. -/
def eval (s : State) : Option State.Evaluated :=
  match s.currentByte? with
  | none => some { state := s, exit? := some (.success .stopped) }
  | some byte =>
    match Opcode.ofByte? byte with
    | none => some { state := s, exit? := some (.fault (.invalidOpcode byte)) }
    | some op => evalOpcode s op

/-! ## Agreement -/

/-- A body does not trap in a state and has the result of an effect there. -/
def Agrees {α : Type} (b : Body α) (e : Effect α) (s : State) : Prop :=
  EStateM.run b.run s =
    match e s with
    | .ok a s' => .ok (some a) s'
    | .error fault s' => .error fault s'

section

variable {α β : Type} {b : Body α} {e : Effect α} {k : α → Body β} {s s' : State}

/-- A value of a body is handed on to the rest. -/
theorem run_bind_of_some {a : α} (h : EStateM.run b.run s = .ok (some a) s') :
    EStateM.run (b >>= k).run s = EStateM.run (k a).run s' := by
  rw [OptionT.run_bind, Option.elimM, EStateM.run_bind, h]
  rfl

/-- A body that fails ends all that follows. -/
theorem run_bind_of_fault {fault : Fault} (h : EStateM.run b.run s = .error fault s') :
    EStateM.run (b >>= k).run s = .error fault s' := by
  rw [OptionT.run_bind, Option.elimM, EStateM.run_bind, h]

/-- An effect without guards agrees with itself. -/
theorem agrees_lift (e : Effect α) (s : State) : Agrees (liftM e) e s := by
  have hlift : (liftM e : Body α).run = e >>= fun a => pure (some a) := rfl
  rw [Agrees, hlift, EStateM.run_bind, EStateM.run]
  cases e s <;> rfl

theorem agrees_pure (a : α) (s : State) : Agrees (pure a) (pure a) s :=
  rfl

/-- Agreement is a matter of one state. -/
theorem Agrees.congr {e' : Effect α} (h : Agrees b e s) (he : e' s = e s) : Agrees b e' s := by
  rw [Agrees, he]
  exact h

theorem Agrees.run_of_ok {a : α} (h : Agrees b e s) (he : e s = .ok a s') :
    EStateM.run b.run s = .ok (some a) s' := by
  rwa [Agrees, he] at h

theorem Agrees.run_of_error {fault : Fault} (h : Agrees b e s) (he : e s = .error fault s') :
    EStateM.run b.run s = .error fault s' := by
  rwa [Agrees, he] at h

/-- Bodies agree if they agree one step after the other. -/
theorem Agrees.bind {k' : α → Effect β} (h : Agrees b e s)
    (hk : ∀ a s', e s = .ok a s' → Agrees (k a) (k' a) s') : Agrees (b >>= k) (e >>= k') s := by
  cases he : e s with
  | ok a s' =>
    rw [Agrees, run_bind_of_some (h.run_of_ok he), Effect.bind_of_ok he]
    exact hk a s' he
  | error fault s' =>
    rw [Agrees, run_bind_of_fault (h.run_of_error he), Effect.bind_of_error he]

/-- The same where the value of the first step is known. -/
theorem Agrees.bind_of_ok {k' : α → Effect β} {a : α} (h : Agrees b e s) (he : e s = .ok a s')
    (hk : Agrees (k a) (k' a) s') : Agrees (b >>= k) (e >>= k') s := by
  apply h.bind
  intro a' t ht
  cases he.symm.trans ht
  exact hk

end

/-! ## Steps of bodies -/

variable {s : State}

/-- A step that does not trap has its result. -/
theorem agrees_step {α : Type} {f : State → Option (EStateM.Result Fault State α)} {e : Effect α}
    (h : f s = some (e s)) : Agrees (step f) e s := by
  have hstep : EStateM.run (step f).run s =
      match f s with
      | some (.ok a s') => .ok (some a) s'
      | some (.error fault s') => .error fault s'
      | none => .ok none s := rfl
  rw [Agrees, hstep, h]
  cases e s <;> rfl

theorem agrees_updateStack {f : Stack → Attempt Stack} {g : Stack → Except Fault Stack}
    (h : (f s.stack).run = some (g s.stack)) : Agrees (updateStack f) (Effect.updateStack g) s := by
  apply agrees_step
  rw [h]
  rfl

theorem agrees_updateMemory {f : Memory → Option Memory} {g : Memory → Memory}
    (h : f s.memory = some (g s.memory)) : Agrees (updateMemory f) (Effect.updateMemory g) s := by
  apply agrees_step
  rw [h]
  rfl

theorem agrees_loadWordAt {offset : Nat} (h : offset + 32 ≤ Schedule.maxMemorySize) :
    Agrees (loadWordAt offset) (Effect.loadWord offset) s := by
  apply agrees_step
  rw [loadWord_eq h]
  rfl

theorem agrees_returnRange {offset length : Nat}
    (h : length ≠ 0 → offset + length ≤ Schedule.maxMemorySize) :
    Agrees (returnRange offset length) (Effect.returnRange offset length) s := by
  apply agrees_step
  rw [load_eq h]
  rfl

/-- Copying over a slice that is inside and of the right length does not trap. -/
theorem copyOver_eq {buffer : Array UInt8} {start stop : Nat} {source : List UInt8}
    (hstop : stop = start + source.length) (hinside : stop ≤ buffer.size) :
    copyOver buffer start stop source = some (Memory.overwrite buffer start source) := by
  have hslice : slice? buffer start stop = some (buffer.extract start stop).toList :=
    slice?_of_le (by omega) hinside
  have hlength : (buffer.extract start stop).toList.length = source.length := by
    rw [Array.length_toList, Array.size_extract]
    omega
  rw [copyOver, hslice]
  exact if_pos hlength

/-- The first bytes of what is left from a position on, as far as there are any. -/
theorem slice?_rest (bytes : Array UInt8) (start size : Nat) :
    let rest := bytes.extract start bytes.size
    slice? rest 0 (min rest.size size) = some (bytes.extract start (start + size)).toList := by
  intro rest
  rw [slice?_of_le (Nat.zero_le _) (Nat.min_le_left _ _), Array.extract_extract,
    Array.size_extract]
  congr 2
  apply Array.ext_getElem?
  intro i
  rw [Array.getElem?_extract, Array.getElem?_extract]
  congr 1
  rw [eq_iff_iff]
  omega

theorem agrees_immediate {size : Nat} (hpc : s.pc + 1 < Word.sizeLimit)
    (hsize : size ≤ Word.byteCount) : Agrees (immediate size) (pure (s.immediate size)) s := by
  have hlength : (s.code.extract (s.pc + 1) (s.pc + 1 + size)).toList.length =
      min (s.code.extract (s.pc + 1) s.code.size).size size := by
    rw [Array.length_toList, Array.size_extract, Array.size_extract]
    omega
  have hlast : Word.byteCount - size +
      min (s.code.extract (s.pc + 1) s.code.size).size size ≤ Word.byteCount := by
    omega
  have hlimit : Word.byteCount < Word.sizeLimit := by decide
  have hsum := add?_of_lt (Nat.lt_of_le_of_lt hlast hlimit)
  have hinside : Word.byteCount - size + min (s.code.extract (s.pc + 1) s.code.size).size size ≤
      (Array.replicate Word.byteCount (0 : UInt8)).size := by
    rwa [Array.size_replicate]
  have hcopy := copyOver_eq (congrArg (Word.byteCount - size + ·) hlength.symm) hinside
  apply agrees_step
  simp only [add?_of_lt hpc, sub?_of_le hsize, hsum, slice?_rest, hcopy, Option.bind_eq_bind,
    Option.bind_some]
  rfl

/-- A range that can be addressed becomes the return data without a trap. -/
theorem agrees_returnBytes {offset length : Word}
    (h : length.toNat ≠ 0 → offset.toNat + length.toNat ≤ Schedule.maxMemorySize) :
    Agrees (returnBytes offset length) (Effect.returnBytes offset length) s := by
  rw [returnBytes, Effect.returnBytes]
  split
  next => exact agrees_lift _ s
  next hne =>
    have hlength : length.toNat ≠ 0 := fun hzero => hne ((Word.isZero_iff length).2 hzero)
    have haddress := h hlength
    have hlimit : Schedule.maxMemorySize < Word.sizeLimit := by decide
    apply (agrees_lift _ s).bind_of_ok (Effect.size_of_lt (by omega))
    apply (agrees_lift _ s).bind_of_ok (Effect.size_of_lt (by omega))
    exact agrees_returnRange h

/-! ## Bodies that are paid for -/

/-- The range that an instruction touches can be addressed once the instruction has a price. -/
theorem addressable {op : Opcode} {offset length : Nat} {cost : UInt64}
    (hcost : MeteredMachine.stepCost op.entry.cost s.stack s.memory = .ok cost)
    (hrange : op.range? s.stack.toList = some (offset, length)) (hne : length ≠ 0) :
    offset + length ≤ Schedule.maxMemorySize := by
  cases op with
  | mload | mstore | mstore8 =>
    cases hitems : s.stack.toList with
    | nil =>
      rw [hitems] at hrange
      cases hrange
    | cons a rest =>
      rw [hitems] at hrange
      cases hrange
      simpa [hitems, RangeLength.word] using stepCost_addressable hcost
  | ret =>
    rcases hitems : s.stack.toList with _ | ⟨a, _ | ⟨b, rest⟩⟩
    · rw [hitems] at hrange
      cases hrange
    · rw [hitems] at hrange
      cases hrange
    · rw [hitems] at hrange
      cases hrange
      have haddress := stepCost_addressable hcost
      simp only [hitems, RangeLength.word, List.getD_cons_zero, List.getD_cons_succ] at haddress
      exact haddress hne
  | _ => cases hrange

/-- A body whose operands are there and whose price is known does not trap. -/
theorem agrees_body {op : Opcode} {operands rest : List Word} {cost : UInt64}
    (hpc : s.pc + 1 < Word.sizeLimit) (hstack : s.stack = .ofList (operands ++ rest))
    (hlength : operands.length = op.entry.inputs)
    (hcost : MeteredMachine.stepCost op.entry.cost s.stack s.memory = .ok cost) :
    Agrees (body op) (Effect.ofOpcode op) s := by
  have hlimit : Schedule.maxMemorySize < Word.sizeLimit := by decide
  have hrange (offset length : Nat) (hrange : op.range? (operands ++ rest) = some (offset, length)) :
      length ≠ 0 → offset + length ≤ Schedule.maxMemorySize := by
    rw [← Stack.toList_ofList (operands ++ rest), ← hstack] at hrange
    exact addressable hcost hrange
  cases op with
  | mload =>
    obtain ⟨a, rfl⟩ := List.length_eq_one_iff.1 hlength
    have haddress := hrange a.toNat 32 rfl (by decide)
    apply (agrees_lift _ s).bind_of_ok (Effect.pop_of_cons hstack)
    apply (agrees_lift _ _).bind_of_ok (Effect.size_of_lt (by omega))
    apply (agrees_loadWordAt haddress).bind
    intro value s' _
    exact (agrees_lift _ s').bind fun _ s' _ => agrees_pure _ s'
  | mstore =>
    obtain ⟨a, b, rfl⟩ := List.length_eq_two.1 hlength
    have haddress := hrange a.toNat 32 rfl (by decide)
    apply (agrees_lift _ s).bind_of_ok (Effect.pop_of_cons hstack)
    apply (agrees_lift _ _).bind_of_ok (Effect.size_of_lt (by omega))
    apply (agrees_lift _ _).bind_of_ok (Effect.pop_of_cons rfl)
    apply (agrees_updateMemory (store_eq (by rwa [Word.length_toBytes]))).bind
    exact fun _ s' _ => agrees_pure _ s'
  | mstore8 =>
    obtain ⟨a, b, rfl⟩ := List.length_eq_two.1 hlength
    have haddress := hrange a.toNat 1 rfl (by decide)
    apply (agrees_lift _ s).bind_of_ok (Effect.pop_of_cons hstack)
    apply (agrees_lift _ _).bind_of_ok (Effect.size_of_lt (by omega))
    apply (agrees_lift _ _).bind_of_ok (Effect.pop_of_cons rfl)
    apply (agrees_updateMemory (store_eq haddress)).bind
    exact fun _ s' _ => agrees_pure _ s'
  | ret =>
    obtain ⟨a, b, rfl⟩ := List.length_eq_two.1 hlength
    apply (agrees_lift _ s).bind_of_ok (Effect.pop_of_cons hstack)
    apply (agrees_lift _ _).bind_of_ok (Effect.pop_of_cons rfl)
    apply (agrees_returnBytes (hrange a.toNat b.toNat rfl)).bind
    exact fun _ s' _ => agrees_pure _ s'
  | push index =>
    have hsize : index.val + 1 ≤ Word.byteCount := index.isLt
    have hagrees : Agrees (body (.push index))
        (pure (s.immediate (index.val + 1)) >>= fun value =>
          Effect.push value >>= fun _ => pure (.advance (1 + (index.val + 1)))) s := by
      apply (agrees_immediate hpc hsize).bind
      intro value s' _
      exact (agrees_lift _ s').bind fun _ s' _ => agrees_pure _ s'
    -- The plain body looks the immediate up in the state, and nothing comes in between.
    exact hagrees.congr rfl
  | dup index =>
    exact (agrees_updateStack (dup_eq _ _)).bind fun _ s' _ => agrees_pure _ s'
  | swap index =>
    exact (agrees_updateStack (swap_eq _ _)).bind fun _ s' _ => agrees_pure _ s'
  | binary f => cases f <;> exact agrees_lift _ s
  | unary f => cases f <;> exact agrees_lift _ s
  | _ => exact agrees_lift _ s

theorem applyControl_eq {control : Control}
    (h : (s.applyControl control).state.pc < Word.sizeLimit) :
    applyControl s control = some (s.applyControl control) := by
  cases control with
  | advance bytes =>
    rw [applyControl, add?_of_lt h]
    rfl
  | jump | exit => rfl

/-! ## Evaluations that do not trap -/

variable {code data : Array UInt8} {limit : UInt64}

/-- The position behind a sound program counter is a host size. -/
theorem pc_succ_lt_of_sound (h : s.Sound code data limit) (hcode : code.size < 2 ^ 63) :
    s.pc + 1 < Word.sizeLimit := by
  have hle := h.pc_start.le_size_add
  rw [Word.sizeLimit, UInt64.size]
  omega

theorem size_memory_lt_of_sound (h : s.Sound code data limit) : s.memory.size < 2 ^ 64 :=
  Nat.lt_of_le_of_lt h.memory_le (by decide)

/-- The body of an instruction that is paid for does not trap. -/
theorem agrees_body_of_payment (h : s.Sound code data limit) (hcode : code.size < 2 ^ 63)
    (p : s.Payment) : Agrees (body p.op) (Effect.ofOpcode p.op) p.charged :=
  agrees_body (pc_succ_lt_of_sound (h.charged p) hcode) p.stack_eq p.length_operands p.price_eq

/-- Evaluating an instruction that is paid for does not trap. -/
theorem evalOpcode_of_payment (h : s.Sound code data limit) (hcode : code.size < 2 ^ 63)
    (p : s.Payment) : evalOpcode s p.op = some s.eval := by
  have hoperands : ¬s.stack.size < p.op.entry.inputs := Nat.not_lt.2 p.inputs_le
  have hsize := size_memory_lt_of_sound h
  have hbody := agrees_body_of_payment h hcode p
  have heval : s.eval = .ofResult (Effect.ofOpcode p.op p.charged) := by
    rw [State.eval_of_some p.current_eq, State.evalOpcode, if_neg hoperands, p.price_eq]
    simp only [p.charge_eq]
    rfl
  -- The program counter is moved last, and where it goes the state is sound again.
  have hpc : s.eval.state.pc < Word.sizeLimit := by
    rw [p.eval_eq h.stack_le]
    exact Nat.lt_of_succ_lt (pc_succ_lt_of_sound (h.outcome p) hcode)
  rw [evalOpcode, if_neg hoperands, stepCost_eq hsize, p.price_eq]
  simp only [Option.bind_eq_bind, Option.bind_some, charge_eq h.balanced, p.charge_eq]
  rw [heval] at hpc ⊢
  cases hresult : Effect.ofOpcode p.op p.charged with
  | ok control s' =>
    have hrun : EStateM.run (body p.op).run { s with gas := p.gas } = _ := hbody.run_of_ok hresult
    rw [hresult] at hpc
    rw [hrun]
    exact applyControl_eq hpc
  | error fault s' =>
    have hrun : EStateM.run (body p.op).run { s with gas := p.gas } = _ :=
      hbody.run_of_error hresult
    rw [hrun]
    rfl

theorem eval_of_some {op : Opcode} (hcurrent : s.currentOpcode? = some op) :
    eval s = evalOpcode s op := by
  obtain ⟨byte, hbyte, hop⟩ := Option.bind_eq_some_iff.1 hcurrent
  rw [eval, hbyte]
  simp only [hop]

/-- Evaluating the instruction at the program counter of a sound state does not trap. -/
theorem eval_eq (h : s.Sound code data limit) (hcode : code.size < 2 ^ 63) :
    eval s = some s.eval := by
  have hsize := size_memory_lt_of_sound h
  cases s.checked with
  | undecoded hcurrent =>
    rw [State.currentOpcode?] at hcurrent
    rw [eval, State.eval]
    cases hbyte : s.currentByte? with
    | none => rfl
    | some byte =>
      rw [hbyte, Option.bind_some] at hcurrent
      simp only [hcurrent]
  | missing hcurrent hinputs =>
    rw [eval_of_some hcurrent, State.eval_of_missing hcurrent hinputs, evalOpcode, if_pos hinputs]
  | unpriced hcurrent hinputs hprice =>
    rw [eval_of_some hcurrent, State.eval_of_unpriced hcurrent hinputs hprice, evalOpcode,
      if_neg (Nat.not_lt.2 hinputs), stepCost_eq hsize, hprice]
    rfl
  | unpaid hcurrent hinputs hprice hcharge =>
    rw [eval_of_some hcurrent, State.eval_of_unpaid hcurrent hinputs hprice hcharge, evalOpcode,
      if_neg (Nat.not_lt.2 hinputs), stepCost_eq hsize, hprice]
    simp only [Option.bind_eq_bind, Option.bind_some, charge_eq h.balanced, hcharge]
  | paid p =>
    rw [eval_of_some p.current_eq]
    exact evalOpcode_of_payment h hcode p

end Guarded

/-! ## Faults of bodies -/

/-- An outcome is a fault for want of room, or because control cannot be handed on. -/
theorem Opcode.fault_of_outcome {op : Opcode} {s : State} {operands rest : List Word}
    {fault : Fault} (h : (op.outcome s operands rest).exit? = some (.fault fault)) :
    (fault = .stackOverflow ∧ Schedule.maxStackSize < rest.length + op.entry.outputs) ∨
      op.control s operands = .error fault := by
  rcases op.outcome_cases s operands rest with
    ⟨heq, hfull⟩ | ⟨_, ⟨other, hcontrol, heq⟩ | ⟨control, _, heq⟩⟩
  · rw [heq] at h
    cases h
    exact Or.inl ⟨rfl, hfull⟩
  · rw [heq] at h
    cases h
    exact Or.inr hcontrol
  · rw [heq] at h
    cases control <;> cases h

namespace State.Payment

variable {s : State}

/-- A body that is paid for fails for want of room, or because control cannot be handed on. -/
theorem fault_of_body (p : s.Payment) (hbound : s.stack.size ≤ Schedule.maxStackSize)
    {fault : Fault} {t : State} (h : Effect.ofOpcode p.op p.charged = .error fault t) :
    (fault = .stackOverflow ∧ Schedule.maxStackSize < p.rest.length + p.op.entry.outputs) ∨
      p.op.control p.charged p.operands = .error fault := by
  rw [p.size_stack] at hbound
  have houtcome :=
    Effect.ofResult_ofOpcode (s := p.charged) p.stack_eq p.length_operands hbound p.price_eq
  rw [h] at houtcome
  have hexit : (p.op.outcome p.charged p.operands p.rest).exit? = some (.fault fault) := by
    rw [← houtcome]
    rfl
  exact Opcode.fault_of_outcome hexit

/-- It is never a missing operand, a price that was not asked for, or an undefined instruction. -/
theorem fault_ne_of_body (p : s.Payment) (hbound : s.stack.size ≤ Schedule.maxStackSize)
    {fault : Fault} {t : State} (h : Effect.ofOpcode p.op p.charged = .error fault t) :
    fault ≠ .stackUnderflow ∧ fault ≠ .outOfGas ∧ ∀ byte, fault ≠ .invalidOpcode byte := by
  rcases p.fault_of_body hbound h with ⟨rfl, _⟩ | hcontrol
  · simp
  · rcases p.op.control_cases p.charged p.operands with
      ⟨hok, _⟩ | ⟨_, hok, _⟩ | ⟨_, hok⟩ | ⟨_, hok⟩ | ⟨position, hjump, _⟩
    · cases hcontrol.symm.trans hok
    · cases hcontrol.symm.trans hok
    · cases hcontrol.symm.trans hok
    · cases hcontrol.symm.trans hok
    · cases hcontrol.symm.trans hjump
      simp

/-- The body of an instruction that leaves no more words than it takes has room for them. -/
theorem ok_of_body (p : s.Payment) (hbound : s.stack.size ≤ Schedule.maxStackSize)
    (hle : p.op.entry.outputs ≤ p.op.entry.inputs)
    (hcontrol : p.op.control p.charged p.operands = .ok (.advance 1)) :
    ∃ control t, Effect.ofOpcode p.op p.charged = .ok control t := by
  cases hresult : Effect.ofOpcode p.op p.charged with
  | ok control t => exact ⟨control, t, rfl⟩
  | error fault t =>
    rcases p.fault_of_body hbound hresult with ⟨_, hfull⟩ | hfault
    · have hlength := p.length_operands
      rw [p.size_stack] at hbound
      omega
    · cases hcontrol.symm.trans hfault

/-- What an instruction that is paid for can rely on. -/
structure Safe (p : s.Payment) : Prop where
  /-- The body does not trap, and no last branch refuses it. -/
  agrees : Guarded.Agrees (Guarded.body p.op) (Effect.ofOpcode p.op) p.charged
  /-- A failure has other reasons than operands that are missing or too large. -/
  fault_ne : ∀ fault t, Effect.ofOpcode p.op p.charged = .error fault t →
    fault ≠ .stackUnderflow ∧ fault ≠ .outOfGas ∧ ∀ byte, fault ≠ .invalidOpcode byte
  /-- Operators and reads of memory have room for their result. -/
  room : ((∃ f, p.op = .binary f) ∨ (∃ f, p.op = .unary f) ∨ p.op = .mload) →
    ∃ control t, Effect.ofOpcode p.op p.charged = .ok control t
  /-- The range that is touched ends at a host size, also when it is rounded up to whole words, and
  is inside the memory that covers it. -/
  range : ∀ offset length, p.op.range? s.stack.toList = some (offset, length) → length ≠ 0 →
    offset + length < 2 ^ 64 ∧ 32 * ((offset + length + 31) / 32) < 2 ^ 64 ∧
      offset + length ≤ (s.memory.cover offset length).size
  /-- The position behind the instruction and its immediate is a host size. -/
  next : s.pc + 1 + p.op.immediateSize < 2 ^ 64

/-- An instruction that is paid for is safe in every sound state. -/
theorem safe_of_sound {code data : Array UInt8} {limit : UInt64} (h : s.Sound code data limit)
    (hcode : code.size < 2 ^ 63) (p : s.Payment) : p.Safe where
  agrees := Guarded.agrees_body_of_payment h hcode p
  fault_ne _ _ hfault := p.fault_ne_of_body h.stack_le hfault
  room hop := by
    rcases hop with ⟨f, hop⟩ | ⟨f, hop⟩ | hop <;>
      exact p.ok_of_body h.stack_le (by simp [hop, Opcode.entry]) (by rw [hop]; rfl)
  range offset length hrange hne := by
    have haddress := Guarded.addressable p.price_eq hrange hne
    rw [Schedule.maxMemorySize] at haddress
    exact ⟨by omega, by omega, s.memory.le_size_cover offset hne⟩
  next := by
    have hle := (h.next_start p).le_size_add
    omega

end State.Payment

namespace Machine

variable {σ : Type}

/-- After any commands of a host, evaluation does not trap, whatever the cost that is charged and
whatever the size that memory is to grow to, and every instruction that is paid for is safe. -/
theorem evaluation_never_traps (code data : Array UInt8) (gasLimit : UInt64) (context : Context)
    (policy : Policy σ) (memo : σ) (hcode : code.size ≤ 2 ^ 63 - 1) (commands : List Command) :
    let s := (commands.foldl perform (ofCode code data gasLimit context policy memo)).state
    Guarded.eval s = some s.eval ∧
      (∀ cost, (Guarded.charge s.gas cost).run = some (s.gas.charge cost)) ∧
      (∀ size < 2 ^ 64,
        Guarded.memoryGas s.memory.size size = some (memoryGas s.memory.size size)) ∧
      ∀ p : s.Payment, p.Safe := by
  intro s
  have hsound : s.Sound code data gasLimit :=
    sound_performAll (State.sound_initial code data gasLimit) commands
  have hsize := Guarded.size_memory_lt_of_sound hsound
  have hlt : code.size < 2 ^ 63 := Nat.lt_of_le_of_lt hcode (by decide)
  exact ⟨Guarded.eval_eq hsound hlt, Guarded.charge_eq hsound.balanced,
    fun _ => Guarded.memoryGas_eq hsize, State.Payment.safe_of_sound hsound hlt⟩

/-- The return of an empty range at an offset that cannot be addressed is paid for and ends well. -/
theorem evaluation_never_traps_of_empty_return :
    let commands := [.stack (.push 0), .stack (.push (Word.ofNat (2 ^ 200)))]
    let s := (commands.foldl perform (ofCode #[0xf3] #[] 100 default Policy.permit ())).state
    (∃ p : s.Payment, p.op = .ret ∧ p.Safe) ∧
      (Guarded.eval s).map (·.exit?) = some (some (.success .returned)) := by
  intro commands s
  obtain ⟨heval, -, -, hsafe⟩ :=
    evaluation_never_traps #[0xf3] #[] 100 default Policy.permit () (by decide) commands
  have hpaid : s.paidOpcode? = some .ret := by decide +kernel
  have hexit : s.eval.exit? = some (.success .returned) := by decide +kernel
  refine ⟨?_, by rw [heval, Option.map_some, hexit]⟩
  rcases State.eval_cases (s := s) (by decide +kernel) with ⟨hnone, _⟩ | ⟨p, hop, _⟩
  · cases hpaid.symm.trans hnone
  · exact ⟨p, Option.some.inj (hop.symm.trans hpaid), hsafe p⟩

end Machine

end MeteredMachine
