import MeteredMachine.Proofs.ByteMap
import MeteredMachine.Proofs.CompletedStep
import MeteredMachine.Proofs.Invariant

/-!
# The last writer

What a machine reads from memory is what was last written there.  The writes of a history are those
of its completed instructions, words and single bytes at any offsets; each write covers some
addresses, and what an address holds is decided by the last write that covers it.  Memory itself
does not occur in this description: it is a run of bytes that grows, by reading as well as by
writing, and both kinds of growth have to agree with bytes that nobody has written.

Main results:

- Definition {lit}`Machine.lastByte` is the byte that a list of writes leaves at an address.
- Structure {lit}`Machine.Chronicle` is a machine with the writes that it has completed.
- Theorem {lit}`Machine.byteAt_step`: a step changes the bytes of memory by its write and in no
  other way.
- Theorem {lit}`Machine.reads_last_written` says that after any commands of a host, loads and
  returns give the bytes that were last written, and memory grows to the ranges that are touched.
-/

namespace MeteredMachine

/-! ## Writes and ranges of instructions -/

/-- A write to memory. -/
inductive Write where
  /-- A word, most significant byte first. -/
  | word (offset : Nat) (value : Word)
  /-- The lowest byte of a word. -/
  | byte (offset : Nat) (value : Word)
deriving DecidableEq

/-- The byte that a write puts at an address, if it covers the address. -/
def Write.byteAt? (w : Write) (address : Nat) : Option UInt8 :=
  match w with
  | word offset value =>
    if offset ≤ address ∧ address < offset + 32 then
      some (UInt8.ofNat (value.toNat / 256 ^ (31 - (address - offset))))
    else none
  | byte offset value => if address = offset then some (UInt8.ofNat (value.toNat % 256)) else none

namespace Opcode

/-- The write of an instruction, given the items of the stack from the top down. -/
def write? (op : Opcode) (items : List Word) : Option Write :=
  match op, items with
  | mstore, offset :: value :: _ => some (.word offset.toNat value)
  | mstore8, offset :: value :: _ => some (.byte offset.toNat value)
  | _, _ => none

/-- The range of memory that an instruction touches, as offset and length, given the items of the
stack from the top down. -/
def range? (op : Opcode) (items : List Word) : Option (Nat × Nat) :=
  match op, items with
  | mload, offset :: _ => some (offset.toNat, 32)
  | mstore, offset :: _ => some (offset.toNat, 32)
  | mstore8, offset :: _ => some (offset.toNat, 1)
  | ret, offset :: length :: _ => some (offset.toNat, length.toNat)
  | _, _ => none

variable {op : Opcode} {operands : List Word}

theorem byteAt_memoryAfter (hlength : operands.length = op.entry.inputs) (rest : List Word)
    (m : Memory) (address : Nat) :
    (op.memoryAfter m operands).byteAt address =
      ((op.write? (operands ++ rest)).bind (·.byteAt? address)).getD (m.byteAt address) := by
  cases op with
  | mload =>
    obtain ⟨offset, rfl⟩ := List.length_eq_one_iff.1 hlength
    simp [memoryAfter, write?]
  | mstore =>
    obtain ⟨offset, value, rfl⟩ := List.length_eq_two.1 hlength
    simp only [memoryAfter, write?, List.getD_cons_zero, List.getD_cons_succ, List.cons_append,
      Memory.byteAt_storeWord, Option.bind_some, Write.byteAt?]
    split <;> rfl
  | mstore8 =>
    obtain ⟨offset, value, rfl⟩ := List.length_eq_two.1 hlength
    simp only [memoryAfter, write?, List.getD_cons_zero, List.getD_cons_succ, List.cons_append,
      Memory.byteAt_storeByte, Word.toUInt8_lowUInt64, Option.bind_some, Write.byteAt?]
    split <;> rfl
  | ret =>
    obtain ⟨offset, length, rfl⟩ := List.length_eq_two.1 hlength
    simp [memoryAfter, write?]
  | _ => rfl

theorem size_memoryAfter_of_range {m : Memory} (haligned : 32 ∣ m.size)
    (hlength : operands.length = op.entry.inputs) {rest : List Word} {offset length : Nat}
    (hrange : op.range? (operands ++ rest) = some (offset, length)) (hne : length ≠ 0) :
    (op.memoryAfter m operands).size = max m.size (32 * ((offset + length + 31) / 32)) := by
  cases op with
  | mload =>
    obtain ⟨first, rfl⟩ := List.length_eq_one_iff.1 hlength
    cases hrange
    exact Memory.size_cover_eq_max _ haligned hne
  | mstore =>
    obtain ⟨first, second, rfl⟩ := List.length_eq_two.1 hlength
    cases hrange
    rw [memoryAfter, Memory.storeWord, Memory.size_store, Word.length_toBytes]
    exact Memory.size_cover_eq_max _ haligned hne
  | mstore8 =>
    obtain ⟨first, second, rfl⟩ := List.length_eq_two.1 hlength
    cases hrange
    rw [memoryAfter, Memory.storeByte, Memory.size_store, List.length_singleton]
    exact Memory.size_cover_eq_max _ haligned hne
  | ret =>
    obtain ⟨first, second, rfl⟩ := List.length_eq_two.1 hlength
    cases hrange
    exact Memory.size_cover_eq_max _ haligned hne
  | _ => cases hrange

/-- An instruction that touches no range leaves memory alone. -/
theorem memoryAfter_of_range?_eq_none {rest : List Word}
    (hlength : operands.length = op.entry.inputs)
    (hrange : op.range? (operands ++ rest) = none) (m : Memory) :
    op.memoryAfter m operands = m := by
  cases op with
  | mload =>
    obtain ⟨first, rfl⟩ := List.length_eq_one_iff.1 hlength
    cases hrange
  | mstore | mstore8 | ret =>
    obtain ⟨first, second, rfl⟩ := List.length_eq_two.1 hlength
    cases hrange
  | _ => rfl

end Opcode

/-! ## Memory of a step -/

/-- An evaluation that ends in a fault leaves memory alone. -/
theorem State.memory_advanced_of_fault {s : State} {fault : Fault}
    (hbound : s.stack.size ≤ Schedule.maxStackSize) (hrun : s.status = .running)
    (hfault : s.advanced.status = .exited (.fault fault)) : s.advanced.memory = s.memory := by
  rw [status_advanced hbound hrun] at hfault
  obtain ⟨status, heq⟩ := s.advanced_eq
  rw [heq]
  rcases eval_cases hbound with ⟨_, reason, heval⟩ | ⟨p, _, heval⟩
  · rw [heval]
  · rw [heval, Payment.outcome] at hfault ⊢
    rcases p.op.outcome_cases p.charged p.operands p.rest with
      ⟨hout, _⟩ | ⟨_, ⟨_, hcontrol, hout⟩ | ⟨control, _, hout⟩⟩
    · rw [hout]
      rfl
    · rw [hout]
      rw [Opcode.completed_of_control_error hcontrol]
      rfl
    · rw [hout] at hfault
      cases control <;> cases hfault

namespace Machine

variable {σ : Type} {m : Machine σ} {op : Opcode}

/-- The write that the next step completes, if it completes one. -/
def write? (m : Machine σ) : Option Write :=
  m.completedOpcode?.bind (·.write? m.state.stack.toList)

/-- The range of memory that the next step touches, if it completes an instruction that touches
one. -/
def range? (m : Machine σ) : Option (Nat × Nat) :=
  m.completedOpcode?.bind (·.range? m.state.stack.toList)

/-- A step that completes no instruction leaves memory alone. -/
theorem memory_step_of_incomplete (hbound : m.state.stack.size ≤ Schedule.maxStackSize)
    (h : m.completedOpcode? = none) : m.step.state.memory = m.state.memory := by
  rcases step_cases m with ⟨_, _, hstep⟩ | ⟨_, _, _, hstep⟩ | ⟨hrun, _, hstep⟩
  · rw [hstep]
  · rw [hstep]
  · unfold completedOpcode? at h
    rw [hrun] at h
    split at h
    next hexited => cases hexited
    next hfault =>
      rw [status, hstep] at hfault
      rw [hstep]
      exact State.memory_advanced_of_fault hbound hrun hfault
    next =>
      rw [hstep, State.advanced_of_unchanged (State.eval_of_none h)]

/-- A completed step has taken its operands and left what its instruction leaves, with a charge that
does not matter to memory. -/
theorem exists_operands_of_completed (hbound : m.state.stack.size ≤ Schedule.maxStackSize)
    (h : m.completedOpcode? = some op) :
    ∃ operands rest, ∃ charged : State, charged.memory = m.state.memory ∧
      m.state.stack.toList = operands ++ rest ∧ operands.length = op.entry.inputs ∧
      m.step.state.stack.toList = op.results charged operands ++ rest ∧
      m.step.state.memory = op.memoryAfter m.state.memory operands ∧
      m.step.state.returnData = op.returnDataAfter charged operands := by
  obtain ⟨p, pc, status, rfl, hstep⟩ := exists_payment_of_completed hbound h
  refine ⟨p.operands, p.rest, p.charged, rfl, ?_, p.length_operands, ?_⟩
  · rw [p.stack_eq, Stack.toList_ofList]
  · rw [hstep]
    exact ⟨Stack.toList_ofList _, rfl, rfl⟩

/-- A step changes the bytes of memory by the write that it completes, and in no other way. -/
theorem byteAt_step (hbound : m.state.stack.size ≤ Schedule.maxStackSize) (address : Nat) :
    m.step.state.memory.byteAt address =
      (m.write?.bind (·.byteAt? address)).getD (m.state.memory.byteAt address) := by
  unfold write?
  cases hcompleted : m.completedOpcode? with
  | none =>
    rw [memory_step_of_incomplete hbound hcompleted]
    rfl
  | some op =>
    obtain ⟨operands, rest, _, _, hitems, hlength, _, hmemory, _⟩ :=
      exists_operands_of_completed hbound hcompleted
    rw [hmemory, hitems]
    exact Opcode.byteAt_memoryAfter hlength rest _ address

/-! ## Histories -/

/-- The byte that was last written at an address, and zero if none was; the last write comes
first. -/
def lastByte (writes : List Write) (address : Nat) : UInt8 :=
  (writes.findSome? (·.byteAt? address)).getD 0

/-- A machine and the writes that its steps have completed, the last one first. -/
structure Chronicle (σ : Type) where
  /-- The machine. -/
  machine : Machine σ
  /-- The writes so far. -/
  writes : List Write

namespace Chronicle

/-- One step, which may add a write. -/
def step (c : Chronicle σ) : Chronicle σ :=
  { machine := c.machine.step, writes := c.machine.write?.toList ++ c.writes }

/-- Carries out a command; a run is as many steps as its bound says. -/
def perform (c : Chronicle σ) : Command → Chronicle σ
  | .step => c.step
  | .run => step^[c.machine.stepBound] c
  | .stack command => { c with machine := (c.machine.touchStack command).machine }

theorem machine_iterate_step (c : Chronicle σ) (rounds : Nat) :
    (step^[rounds] c).machine = Machine.step^[rounds] c.machine := by
  induction rounds generalizing c with
  | zero => rfl
  | succ rounds ih => exact ih c.step

theorem machine_performAll (c : Chronicle σ) (commands : List Command) :
    (commands.foldl perform c).machine = commands.foldl Machine.perform c.machine := by
  induction commands generalizing c with
  | nil => rfl
  | cons command commands ih =>
    rw [List.foldl_cons, List.foldl_cons, ih]
    cases command with
    | step => rfl
    | run => rw [perform, machine_iterate_step, Machine.perform, run_eq_iterate]
    | stack command => rfl

variable {code data : Array UInt8} {limit : UInt64} {c : Chronicle σ}

/-- The machine is sound, and its memory holds at every address what was last written there. -/
structure Faithful (code data : Array UInt8) (limit : UInt64) (c : Chronicle σ) : Prop where
  sound : c.machine.state.Sound code data limit
  byteAt_eq : ∀ address, c.machine.state.memory.byteAt address = lastByte c.writes address

namespace Faithful

theorem step (h : c.Faithful code data limit) : c.step.Faithful code data limit where
  sound := sound_iterate_step h.sound 1
  byteAt_eq := by
    intro address
    rw [Chronicle.step, byteAt_step h.sound.stack_le, h.byteAt_eq]
    -- The new write is the last one, and either covers the address or leaves it to the others.
    cases hwrite : c.machine.write? with
    | none => rfl
    | some w => cases hbyte : w.byteAt? address <;> simp [lastByte, hbyte]

theorem iterate_step (h : c.Faithful code data limit) (rounds : Nat) :
    (Chronicle.step^[rounds] c).Faithful code data limit := by
  induction rounds generalizing c with
  | zero => exact h
  | succ rounds ih => exact ih h.step

theorem performAll (h : c.Faithful code data limit) (commands : List Command) :
    (commands.foldl perform c).Faithful code data limit := by
  induction commands generalizing c with
  | nil => exact h
  | cons command commands ih =>
    apply ih
    cases command with
    | step => exact h.step
    | run => exact h.iterate_step _
    | stack command =>
      exact ⟨h.sound.withStack (Stack.size_perform_le h.sound.stack_le command), h.byteAt_eq⟩

end Faithful

end Chronicle

/-- The next step of a machine treats memory as the bytes of a map.  A completed load pushes the
word of 32 bytes from its offset on; a completed return gives the bytes of its range, and an empty
range leaves memory alone wherever it lies; touching a range that is not empty grows memory to
whole words behind it; and steps that touch no range do not change memory. -/
structure ServesBytes (m : Machine σ) (byte : Nat → UInt8) : Prop where
  load : m.completedOpcode? = some .mload →
    ∃ offset rest word, m.state.stack.toList = offset :: rest ∧
      m.step.state.stack.toList = word :: rest ∧
      word.toNat = ∑ i ∈ Finset.range 32, (byte (offset.toNat + i)).toNat * 256 ^ (31 - i)
  ret : m.completedOpcode? = some .ret →
    ∃ offset length rest, m.state.stack.toList = offset :: length :: rest ∧
      m.step.state.returnData =
        (List.range length.toNat).map (fun i => byte (offset.toNat + i)) ∧
      (length.toNat = 0 → m.step.state.memory = m.state.memory)
  size : ∀ offset length, m.range? = some (offset, length) → length ≠ 0 →
    m.step.state.memory.size = max m.state.memory.size (32 * ((offset + length + 31) / 32))
  unchanged : m.range? = none → m.step.state.memory = m.state.memory

variable {code data : Array UInt8} {limit : UInt64}

/-- The machine serves the bytes of its own memory. -/
theorem servesBytes_of_sound (hsound : m.state.Sound code data limit) :
    m.ServesBytes m.state.memory.byteAt where
  load := by
    intro hcompleted
    obtain ⟨operands, rest, charged, hcharged, hitems, hlength, hstack, _, _⟩ :=
      exists_operands_of_completed hsound.stack_le hcompleted
    obtain ⟨offset, rfl⟩ := List.length_eq_one_iff.1 hlength
    refine ⟨offset, rest, (charged.memory.loadWord offset.toNat).value, hitems, hstack, ?_⟩
    rw [hcharged, Memory.loadWord, Word.byteCount, Memory.value_load, Word.toNat_ofBytes (by simp),
      BigEndian.value_map_range]
  ret := by
    intro hcompleted
    obtain ⟨operands, rest, charged, hcharged, hitems, hlength, _, hmemory, hreturn⟩ :=
      exists_operands_of_completed hsound.stack_le hcompleted
    obtain ⟨offset, length, rfl⟩ := List.length_eq_two.1 hlength
    refine ⟨offset, length, rest, hitems, ?_, ?_⟩
    · rw [hreturn, ← hcharged]
      exact Memory.value_load _ _ _
    · intro hzero
      simp only [hmemory, Opcode.memoryAfter, List.getD_cons_succ, List.getD_cons_zero, hzero,
        Memory.cover_zero]
  size := by
    intro offset length hrange hne
    obtain ⟨op, hcompleted, hop⟩ := Option.bind_eq_some_iff.1 hrange
    obtain ⟨operands, rest, _, _, hitems, hlength, _, hmemory, _⟩ :=
      exists_operands_of_completed hsound.stack_le hcompleted
    rw [hitems] at hop
    rw [hmemory]
    exact Opcode.size_memoryAfter_of_range hsound.memory_aligned hlength hop hne
  unchanged := by
    intro hrange
    cases hcompleted : m.completedOpcode? with
    | none => exact memory_step_of_incomplete hsound.stack_le hcompleted
    | some op =>
      obtain ⟨operands, rest, _, _, hitems, hlength, _, hmemory, _⟩ :=
        exists_operands_of_completed hsound.stack_le hcompleted
      rw [range?, hcompleted, hitems] at hrange
      rw [hmemory]
      exact Opcode.memoryAfter_of_range?_eq_none hlength hrange _

/-- Memory obeys the last writer.  After any steps, runs and calls on the stack, under every policy,
the next step treats memory as the map that holds at every address the byte that was last written
there by a completed instruction, and zero where there was none. -/
theorem reads_last_written (code data : Array UInt8) (gasLimit : UInt64) (context : Context)
    (policy : Policy σ) (memo : σ) (commands : List Command) :
    let start := ofCode code data gasLimit context policy memo
    let c := commands.foldl Chronicle.perform { machine := start, writes := [] }
    c.machine = commands.foldl perform start ∧ c.machine.ServesBytes (lastByte c.writes) := by
  intro start c
  refine ⟨Chronicle.machine_performAll _ commands, ?_⟩
  have hstart : Chronicle.Faithful code data gasLimit { machine := start, writes := [] } :=
    ⟨State.sound_initial code data gasLimit, fun _ => rfl⟩
  have hfaithful : c.Faithful code data gasLimit := hstart.performAll commands
  have hbytes : c.machine.state.memory.byteAt = lastByte c.writes := funext hfaithful.byteAt_eq
  rw [← hbytes]
  exact servesBytes_of_sound hfaithful.sound

-- A word is stored at the start of memory and the next load reads across its end.
example :
    let c := (List.replicate 4 Command.step).foldl Chronicle.perform
      { writes := []
        machine :=
          ofCode #[0x60, 0x05, 0x5f, 0x52, 0x60, 0x01, 0x51] #[] 100 default Policy.permit () }
    c.writes = [.word 0 5] ∧ c.machine.range? = some (1, 32) ∧ lastByte c.writes 31 = 5 ∧
      lastByte c.writes 32 = 0 := by
  decide +kernel

end Machine

end MeteredMachine
