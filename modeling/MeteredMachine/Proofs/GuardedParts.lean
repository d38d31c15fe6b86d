import MeteredMachine.Proofs.ByteMap
import MeteredMachine.Proofs.MemoryGrowth
import MeteredMachine.Proofs.Metering

/-!
# Parts of a machine on a host

A host computes sizes and gas with 64 bits and total prices of memory with 128 bits, and it reads
and writes memory through slices.  Here the parts of a machine are computed with every such operation
guarded: a sum, product or difference that does not fit is a trap, and so is a slice or an index
outside its bounds.  A trap is no value at all, as opposed to a fault, which is an answer.

Main results:

- Definitions {lit}`Guarded.charge`, {lit}`Guarded.stepCost`, {lit}`Guarded.load` and
  {lit}`Guarded.store` are the guarded parts, with what they are made of.
- Theorem {lit}`Guarded.charge_eq`: a charge on a meter in balance does not trap.
- Theorem {lit}`Guarded.stepCost_eq`: finding a price does not trap, whatever the operands.
- Theorems {lit}`Guarded.load_eq`, {lit}`Guarded.loadWord_eq` and {lit}`Guarded.store_eq`: reading
  and writing a range that can be addressed does not trap.
- Theorem {lit}`Guarded.mapM_refines`: calls that agree with a specification one by one agree with it
  in any sequence.
-/

namespace MeteredMachine

namespace Guarded

/-! ## Numbers and slices -/

/-- A sum that has to stay below a limit. -/
def add? (limit a b : Nat) : Option Nat :=
  if a + b < limit then some (a + b) else none

/-- A product that has to stay below a limit. -/
def mul? (limit a b : Nat) : Option Nat :=
  if a * b < limit then some (a * b) else none

/-- A difference that must not be negative. -/
def sub? (a b : Nat) : Option Nat :=
  if b ≤ a then some (a - b) else none

/-- The bytes from one position up to another, both of which have to be inside. -/
def slice? (bytes : Array UInt8) (start stop : Nat) : Option (List UInt8) :=
  if start ≤ stop ∧ stop ≤ bytes.size then some (bytes.extract start stop).toList else none

/-- The limit of numbers of 128 bits. -/
def wideLimit : Nat :=
  2 ^ 128

theorem add?_of_lt {limit a b : Nat} (h : a + b < limit) : add? limit a b = some (a + b) :=
  if_pos h

theorem mul?_of_lt {limit a b : Nat} (h : a * b < limit) : mul? limit a b = some (a * b) :=
  if_pos h

theorem sub?_of_le {a b : Nat} (h : b ≤ a) : sub? a b = some (a - b) :=
  if_pos h

theorem slice?_of_le {bytes : Array UInt8} {start stop : Nat} (h : start ≤ stop)
    (hstop : stop ≤ bytes.size) :
    slice? bytes start stop = some (bytes.extract start stop).toList :=
  if_pos ⟨h, hstop⟩

/-! ## Gas -/

/-- A value or a fault, unless there is a trap. -/
abbrev Attempt := ExceptT Fault Option

section

variable {α β : Type} {x : Attempt α} {k : α → Attempt β}

/-- A value is handed on to the rest. -/
theorem run_bind_of_ok {a : α} (h : x.run = some (.ok a)) : (x >>= k).run = (k a).run := by
  rw [ExceptT.run_bind, h]
  rfl

/-- A fault ends an attempt. -/
theorem run_bind_of_error {fault : Fault} (h : x.run = some (.error fault)) :
    (x >>= k).run = some (.error fault) := by
  rw [ExceptT.run_bind, h]
  rfl

/-- What does not trap is handed on to the rest. -/
theorem run_lift_bind {value? : Option α} {a : α} (h : value? = some a) :
    ((liftM value? : Attempt α) >>= k).run = (k a).run := by
  rw [h]
  rfl

end

/-- Takes a cost out of the remaining gas. -/
def charge (meter : Meter) (cost : UInt64) : Attempt Meter :=
  if cost > meter.remaining then throw .outOfGas
  else do
    let remaining ← sub? meter.remaining.toNat cost.toNat
    let spent ← add? UInt64.size meter.spent.toNat cost.toNat
    pure { meter with remaining := .ofNat remaining, spent := .ofNat spent }

/-- The price of an exponentiation. -/
def expGas (exponent : Word) : Option UInt64 := do
  let bytes ← mul? UInt64.size Schedule.expByte.toNat exponent.byteLength
  let gas ← add? UInt64.size Schedule.exp.toNat bytes
  pure (.ofNat gas)

/-- The total price of memory of so many words, computed with 128 bits. -/
def memoryWordCost (words : Nat) : Option (Option UInt64) := do
  let linear ← mul? wideLimit Schedule.memory.toNat words
  let square ← mul? wideLimit words words
  let total ← add? wideLimit linear (square / Schedule.memoryQuadDivisor.toNat)
  pure (if total < UInt64.size then some (.ofNat total) else none)

/-- The price of growing memory from one size in bytes to another. -/
def memoryGas (current next : Nat) : Option (Option UInt64) :=
  if next ≤ current then pure (some 0)
  else do
    let some newCost ← memoryWordCost (Memory.wordsFor next) | pure none
    let some oldCost ← memoryWordCost (Memory.wordsFor current) | pure none
    let gas ← sub? newCost.toNat oldCost.toNat
    pure (some (.ofNat gas))

/-- The price of touching a range. -/
def expansionGas (memory : Memory) (offset length : Word) : Attempt UInt64 :=
  if length.isZero then pure 0
  else
    match rangeEnd? offset length with
    | none => throw .outOfGas
    | some stop => do
      let some gas ← (memoryGas memory.size stop : Attempt (Option UInt64)) | throw .outOfGas
      pure gas

/-- The word at a distance from the top. -/
def peek (s : Stack) (distance : Nat) : Attempt Word :=
  if distance ≥ s.size then throw .stackUnderflow
  else do
    let top ← sub? s.size 1
    let index ← sub? top distance
    (s.items[index]? : Option Word)

/-- The length operand of a memory rule. -/
def resolve (length : RangeLength) (stack : Stack) : Attempt Word :=
  match length with
  | .fixed width => pure (Word.ofNat width)
  | .operand distance => peek stack distance

/-- The price of a memory rule once its operands are known. -/
def memoryStepCost (memory : Memory) (base : UInt64) (offset length : Word) : Attempt UInt64 := do
  let expansion ← expansionGas memory offset length
  if base.toNat + expansion.toNat < UInt64.size then pure (base + expansion) else throw .outOfGas

/-- The price of a step under a rule. -/
def stepCost (rule : CostRule) (stack : Stack) (memory : Memory) : Attempt UInt64 :=
  match rule with
  | .fixed gas => pure gas
  | .exponent => do expGas (← peek stack 1)
  | .memory base offset length => do
    let offset ← peek stack offset
    let length ← resolve length stack
    memoryStepCost memory base offset length

/-- A difference of gas that is not negative is the difference as numbers. -/
theorem ofNat_sub_toNat {a b : UInt64} (h : b.toNat ≤ a.toNat) :
    UInt64.ofNat (a.toNat - b.toNat) = a - b := by
  rw [UInt64.ofNat_sub h, UInt64.ofNat_toNat, UInt64.ofNat_toNat]

/-- A charge on a meter in balance does not trap. -/
theorem charge_eq {meter : Meter} {limit : UInt64} (h : meter.Balanced limit) (cost : UInt64) :
    (charge meter cost).run = some (meter.charge cost) := by
  rw [charge, Meter.charge]
  split
  next => rfl
  next hle =>
    have hcost : cost.toNat ≤ meter.remaining.toNat :=
      UInt64.le_iff_toNat_le.1 (UInt64.not_lt.1 hle)
    have hspent : meter.spent.toNat + cost.toNat < UInt64.size := by
      have hsum := h.sum_eq
      have hlimit := limit.toNat_lt
      rw [UInt64.size]
      omega
    rw [sub?_of_le hcost, add?_of_lt hspent, ← ofNat_sub_toNat hcost,
      ← UInt64.ofNat_toNat (x := meter.spent + cost), UInt64.toNat_add, Nat.mod_eq_of_lt hspent]
    rfl

theorem expGas_eq (exponent : Word) : expGas exponent = some (MeteredMachine.expGas exponent) := by
  have hbytes := exponent.byteLength_le
  have hten : Schedule.exp.toNat = 10 := rfl
  have hfifty : Schedule.expByte.toNat = 50 := rfl
  have hproduct : Schedule.expByte.toNat * exponent.byteLength < UInt64.size := by
    rw [hfifty, UInt64.size]
    omega
  have hsum : Schedule.exp.toNat + Schedule.expByte.toNat * exponent.byteLength < UInt64.size := by
    rw [hten, hfifty, UInt64.size]
    omega
  have hgas : UInt64.ofNat (Schedule.exp.toNat + Schedule.expByte.toNat * exponent.byteLength) =
      MeteredMachine.expGas exponent := by
    rw [← UInt64.ofNat_toNat (x := MeteredMachine.expGas exponent), toNat_expGas, hten, hfifty]
  rw [expGas, mul?_of_lt hproduct, Option.bind_eq_bind, Option.bind_some, add?_of_lt hsum, ← hgas]
  rfl

/-- The total price of memory never exceeds 128 bits, for any number of words that is a host size. -/
theorem memoryWordCost_eq {words : Nat} (h : words < 2 ^ 64) :
    memoryWordCost words = some (MeteredMachine.memoryWordCost words) := by
  have hthree : Schedule.memory.toNat = 3 := rfl
  have hdivisor : Schedule.memoryQuadDivisor.toNat = 512 := rfl
  have hsquare : words * words ≤ (2 ^ 64 - 1) * (2 ^ 64 - 1) :=
    Nat.mul_le_mul (Nat.le_pred_of_lt h) (Nat.le_pred_of_lt h)
  have hlinear : Schedule.memory.toNat * words < wideLimit := by
    rw [hthree, wideLimit]
    omega
  have hquadratic : words * words < wideLimit := by
    rw [wideLimit]
    omega
  have htotal : Schedule.memory.toNat * words +
      words * words / Schedule.memoryQuadDivisor.toNat < wideLimit := by
    rw [hthree, hdivisor, wideLimit]
    omega
  rw [memoryWordCost, mul?_of_lt hlinear, mul?_of_lt hquadratic]
  simp only [Option.bind_eq_bind, Option.bind_some, add?_of_lt htotal]
  rfl

/-- The price of growth between two sizes does not trap: the difference of the totals is not
negative. -/
theorem memoryGas_eq {current next : Nat} (hcurrent : current < 2 ^ 64) (hnext : next < 2 ^ 64) :
    memoryGas current next = some (MeteredMachine.memoryGas current next) := by
  have hwords {n : Nat} (hn : n < 2 ^ 64) : Memory.wordsFor n < 2 ^ 64 := by
    rw [Memory.wordsFor]
    omega
  rw [memoryGas, MeteredMachine.memoryGas]
  split
  next => rfl
  next hgrows =>
    rw [memoryWordCost_eq (hwords hnext), memoryWordCost_eq (hwords hcurrent)]
    cases hnew : MeteredMachine.memoryWordCost (Memory.wordsFor next) with
    | none => rfl
    | some newCost =>
      cases hold : MeteredMachine.memoryWordCost (Memory.wordsFor current) with
      | none => rfl
      | some oldCost =>
        have hle := UInt64.le_iff_toNat_le.1
          (memoryWordCost_le (Nat.le_of_not_le hgrows) hnew hold)
        simp only [Option.bind_eq_bind, Option.bind_some, sub?_of_le hle, ofNat_sub_toNat hle]
        rfl

theorem expansionGas_eq {m : Memory} (hsize : m.size < 2 ^ 64) (offset length : Word) :
    (expansionGas m offset length).run = some (MeteredMachine.expansionGas m offset length) := by
  rw [expansionGas, MeteredMachine.expansionGas]
  split
  next => rfl
  next =>
    cases hstop : rangeEnd? offset length with
    | none => rfl
    | some stop =>
      have haddress : stop ≤ Schedule.maxMemorySize := by
        obtain ⟨rfl, hle⟩ := rangeEnd?_eq_some hstop
        exact hle
      have hnext : stop < 2 ^ 64 := Nat.lt_of_le_of_lt haddress (by decide)
      simp only [memoryGas_eq hsize hnext]
      cases MeteredMachine.memoryGas m.size stop <;> rfl

theorem memoryStepCost_eq {m : Memory} (hsize : m.size < 2 ^ 64) (base : UInt64)
    (offset length : Word) :
    (memoryStepCost m base offset length).run =
      some (MeteredMachine.memoryStepCost m base offset length) := by
  have hexpansion := expansionGas_eq hsize offset length
  rw [memoryStepCost, MeteredMachine.memoryStepCost]
  cases h : MeteredMachine.expansionGas m offset length with
  | error fault => exact run_bind_of_error (hexpansion.trans (congrArg some h))
  | ok expansion =>
    rw [run_bind_of_ok (hexpansion.trans (congrArg some h))]
    dsimp only
    split <;> rfl

theorem peek_eq (s : Stack) (distance : Nat) : (peek s distance).run = some (s.peek distance) := by
  rw [peek, Stack.peek, Stack.size]
  by_cases hlt : distance < s.items.size
  · have hone : 1 ≤ s.items.size := by omega
    have hdistance : distance ≤ s.items.size - 1 := by omega
    have hindex : s.items.size - 1 - distance < s.items.size := by omega
    rw [if_neg (Nat.not_le.2 hlt), dif_pos hlt, run_lift_bind (sub?_of_le hone),
      run_lift_bind (sub?_of_le hdistance), Array.getElem?_eq_getElem hindex]
    rfl
  · rw [if_pos (Nat.le_of_not_lt hlt), dif_neg hlt]
    rfl

theorem resolve_eq (length : RangeLength) (stack : Stack) :
    (resolve length stack).run = some (length.resolve stack) := by
  cases length with
  | fixed width => rfl
  | operand distance => exact peek_eq stack distance

/-- Finding a price does not trap, whatever the operands are, on memory whose size is a host size. -/
theorem stepCost_eq {m : Memory} (hsize : m.size < 2 ^ 64) (rule : CostRule) (stack : Stack) :
    (stepCost rule stack m).run = some (MeteredMachine.stepCost rule stack m) := by
  cases rule with
  | fixed gas => rfl
  | exponent =>
    rw [stepCost, MeteredMachine.stepCost]
    have hpeek := peek_eq stack 1
    cases h : stack.peek 1 with
    | error fault => exact run_bind_of_error (hpeek.trans (congrArg some h))
    | ok exponent =>
      rw [run_bind_of_ok (hpeek.trans (congrArg some h)), expGas_eq]
      rfl
  | memory base offset length =>
    rw [stepCost, MeteredMachine.stepCost]
    have hpeek := peek_eq stack offset
    have hresolve := resolve_eq length stack
    cases h : stack.peek offset with
    | error fault => exact run_bind_of_error (hpeek.trans (congrArg some h))
    | ok offset =>
      rw [run_bind_of_ok (hpeek.trans (congrArg some h))]
      cases h : length.resolve stack with
      | error fault => exact run_bind_of_error (hresolve.trans (congrArg some h))
      | ok length =>
        rw [run_bind_of_ok (hresolve.trans (congrArg some h))]
        exact memoryStepCost_eq hsize base offset length

/-! ## Memory -/

/-- Memory that covers a range.  The end of the range is not guarded: it stops at the largest
size. -/
def cover (m : Memory) (offset length : Nat) : Option Memory :=
  if length = 0 then some m
  else
    let stop := min (offset + length) (Word.sizeLimit - 1)
    if stop > m.size then do
      let size ← mul? Word.sizeLimit (Memory.wordsFor stop) 32
      some ⟨m.bytes ++ Array.replicate (size - m.size) 0⟩
    else some m

/-- Memory that covers a range, and the bytes of the range as a slice of it. -/
def coveredSlice (m : Memory) (offset length : Nat) : Option (Memory.Loaded (List UInt8)) := do
  let memory ← cover m offset length
  let stop ← add? Word.sizeLimit offset length
  let value ← slice? memory.bytes offset stop
  some { value, memory }

/-- Reads a range. -/
def load (m : Memory) (offset length : Nat) : Option (Memory.Loaded (List UInt8)) :=
  if length = 0 then some { value := [], memory := m } else coveredSlice m offset length

/-- Reads a big-endian word. -/
def loadWord (m : Memory) (offset : Nat) : Option (Memory.Loaded Word) := do
  let loaded ← coveredSlice m offset Word.byteCount
  some { value := Word.ofBytes loaded.value, memory := loaded.memory }

/-- Writes bytes over the slice that they go to. -/
def store (m : Memory) (offset : Nat) (source : List UInt8) : Option Memory :=
  if source.length = 0 then some m
  else do
    let slice ← coveredSlice m offset source.length
    some ⟨Memory.overwrite slice.memory.bytes offset source⟩

section

variable {m : Memory} {offset length : Nat}

/-- Covering a range that can be addressed does not trap. -/
theorem cover_eq (h : offset + length ≤ Schedule.maxMemorySize) :
    cover m offset length = some (m.cover offset length) := by
  rw [Schedule.maxMemorySize] at h
  have hstop : min (offset + length) (Word.sizeLimit - 1) = offset + length := by
    rw [Word.sizeLimit, UInt64.size]
    omega
  have hsize : Memory.wordsFor (offset + length) * 32 < Word.sizeLimit := by
    rw [Memory.wordsFor, Word.sizeLimit, UInt64.size]
    omega
  rw [cover, Memory.cover]
  by_cases hzero : length = 0
  · simp [hzero]
  · simp only [hstop, mul?_of_lt hsize, hzero, if_false, ne_eq, not_false_iff, true_and]
    split <;> rfl

/-- The slice of a range that can be addressed is inside the memory that covers it. -/
theorem coveredSlice_eq (hlength : length ≠ 0) (h : offset + length ≤ Schedule.maxMemorySize) :
    coveredSlice m offset length = some (m.load offset length) := by
  have hend : offset + length < Word.sizeLimit := Nat.lt_of_le_of_lt h (by decide)
  have hslice := slice?_of_le (Nat.le_add_right offset length) (m.le_size_cover offset hlength)
  simp only [coveredSlice, cover_eq h, add?_of_lt hend, hslice, Option.bind_eq_bind,
    Option.bind_some]
  rfl

theorem load_eq (h : length ≠ 0 → offset + length ≤ Schedule.maxMemorySize) :
    load m offset length = some (m.load offset length) := by
  rw [load]
  split
  next hzero => simp [hzero, Memory.load, Memory.cover_zero]
  next hlength => exact coveredSlice_eq hlength (h hlength)

theorem loadWord_eq (h : offset + 32 ≤ Schedule.maxMemorySize) :
    loadWord m offset = some (m.loadWord offset) := by
  have hslice : coveredSlice m offset Word.byteCount = some (m.load offset Word.byteCount) :=
    coveredSlice_eq (by decide) h
  rw [loadWord, hslice]
  rfl

theorem store_eq {source : List UInt8} (h : offset + source.length ≤ Schedule.maxMemorySize) :
    store m offset source = some (m.store offset source) := by
  rw [store, Memory.store]
  split
  next hzero =>
    rw [hzero, Memory.cover_zero, List.length_eq_zero_iff.1 hzero]
    rfl
  next hlength =>
    rw [coveredSlice_eq hlength h]
    rfl

end

/-! ## Stack -/

/-- Copies the `k`-th item to the top. -/
def dup (s : Stack) (k : Nat) : Attempt Stack :=
  if k = 0 ∨ k > s.size then throw .stackUnderflow
  else if s.size ≥ Schedule.maxStackSize then throw .stackOverflow
  else do
    let index ← sub? s.size k
    let item ← (s.items[index]? : Option Word)
    pure ⟨s.items.push item⟩

/-- Exchanges the top with the item at distance `k`. -/
def swap (s : Stack) (k : Nat) : Attempt Stack :=
  if k = 0 ∨ k ≥ s.size then throw .stackUnderflow
  else do
    let top ← sub? s.size 1
    let index ← sub? top k
    let first ← (s.items[top]? : Option Word)
    let second ← (s.items[index]? : Option Word)
    pure ⟨(s.items.setIfInBounds top second).setIfInBounds index first⟩

theorem dup_eq (s : Stack) (k : Nat) : (dup s k).run = some (s.dup k) := by
  rw [dup, Stack.dup, Stack.size]
  by_cases hin : 0 < k ∧ k ≤ s.items.size
  · have hindex : s.items.size - k < s.items.size := by omega
    rw [dif_pos hin, if_neg (by omega)]
    split
    next => rfl
    next =>
      rw [run_lift_bind (sub?_of_le hin.2), run_lift_bind (Array.getElem?_eq_getElem hindex)]
      rfl
  · rw [dif_neg hin, if_pos (by omega)]
    rfl

theorem swap_eq (s : Stack) (k : Nat) : (swap s k).run = some (s.swap k) := by
  rw [swap, Stack.swap, Stack.size]
  by_cases hin : 0 < k ∧ k < s.items.size
  · have hone : 1 ≤ s.items.size := by omega
    have hdistance : k ≤ s.items.size - 1 := by omega
    have htop : s.items.size - 1 < s.items.size := by omega
    have hindex : s.items.size - 1 - k < s.items.size := by omega
    rw [dif_pos hin, if_neg (by omega), run_lift_bind (sub?_of_le hone),
      run_lift_bind (sub?_of_le hdistance), run_lift_bind (Array.getElem?_eq_getElem htop),
      run_lift_bind (Array.getElem?_eq_getElem hindex)]
    simp [Array.swap, Array.setIfInBounds, htop, hindex]
  · rw [dif_neg hin, if_pos (by omega)]
    rfl

/-! ## Sequences of calls -/

section

variable {σ τ γ α : Type}

/-- A sequence of calls does not trap if none of them does in a state of a kind that all of them
keep. -/
theorem mapM_eq_some_of_keeps {call : γ → StateT σ Option α} {plain : γ → StateM σ α}
    {commands : List γ} {I : σ → Prop}
    (hcall : ∀ c ∈ commands, ∀ s, I s →
      (call c).run s = some ((plain c).run s) ∧ I ((plain c).run s).2)
    {s : σ} (hs : I s) : (commands.mapM call).run s = some ((commands.mapM plain).run s) := by
  induction commands generalizing s with
  | nil => rfl
  | cons c rest ih =>
    obtain ⟨hfirst, hnext⟩ := hcall c List.mem_cons_self s hs
    have hrest := ih (fun d hd => hcall d (List.mem_cons_of_mem c hd)) hnext
    rw [List.mapM_cons, List.mapM_cons, StateT.run_bind, hfirst, Option.bind_eq_bind,
      Option.bind_some, StateT.run_bind, hrest]
    rfl

/-- A sequence of calls does not trap if none of them does. -/
theorem mapM_eq_some {call : γ → StateT σ Option α} {plain : γ → StateM σ α} {commands : List γ}
    (hcall : ∀ c ∈ commands, ∀ s, (call c).run s = some ((plain c).run s)) (s : σ) :
    (commands.mapM call).run s = some ((commands.mapM plain).run s) :=
  mapM_eq_some_of_keeps (I := fun _ => True) (fun c hc s _ => ⟨hcall c hc s, trivial⟩) trivial

/-- Calls that agree with a specification one by one agree with it in any sequence: the answers are
the same in order, and the states correspond at the end. -/
theorem mapM_refines {plain : γ → StateM σ α} {spec : γ → StateM τ α} {R : σ → τ → Prop}
    (hcall : ∀ c s t, R s t →
      ((plain c).run s).1 = ((spec c).run t).1 ∧ R ((plain c).run s).2 ((spec c).run t).2)
    (commands : List γ) {s : σ} {t : τ} (h : R s t) :
    ((commands.mapM plain).run s).1 = ((commands.mapM spec).run t).1 ∧
      R ((commands.mapM plain).run s).2 ((commands.mapM spec).run t).2 := by
  induction commands generalizing s t with
  | nil => exact ⟨rfl, h⟩
  | cons c rest ih =>
    obtain ⟨hanswer, hnext⟩ := hcall c s t h
    obtain ⟨hanswers, hlast⟩ := ih hnext
    rw [List.mapM_cons, List.mapM_cons]
    exact ⟨congrArg₂ List.cons hanswer hanswers, hlast⟩

/-- The state after a sequence of calls. -/
theorem snd_run_mapM (spec : γ → StateM τ α) (commands : List γ) (t : τ) :
    ((commands.mapM spec).run t).2 = commands.foldl (fun t c => ((spec c).run t).2) t := by
  induction commands generalizing t with
  | nil => rfl
  | cons c rest ih =>
    rw [List.mapM_cons, List.foldl_cons, ← ih]
    rfl

end

end Guarded

end MeteredMachine
