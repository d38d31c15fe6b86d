import MeteredMachine.Gas.Cost
import MeteredMachine.Proofs.WordMeasure
import MeteredMachine.Stack.View

/-!
# Prices and memory growth

A price is found before an instruction takes effect, from the range that the
instruction is going to touch; memory grows later, by a rounding of its own.  This
module brings the two together: a price is the flat part of its rule and the
difference between the total prices of memory after and before the growth, as a
statement about natural numbers without any wrapping.

Main results:

- Definition {lit}`memoryTotal` is the total price of so many words of memory.
- Theorem {lit}`stepCost_add_memoryTotal`: a price pays for exactly the memory that
  its rule covers.
- Theorem {lit}`stepCost_addressable`: a range with a price can be addressed.
-/

namespace MeteredMachine

/-! ## Sizes of memory -/

namespace Memory

/-- Growth ends at the first whole word behind the range. -/
theorem size_cover (m : Memory) (offset length : Nat) :
    (m.cover offset length).size =
      if length ≠ 0 ∧ offset + length > m.size then wordsFor (offset + length) * 32
      else m.size := by
  rw [cover]
  split
  next h =>
    have hwords : offset + length ≤ wordsFor (offset + length) * 32 := by
      rw [wordsFor]
      omega
    simp only [size, Array.size_append, Array.size_replicate] at h ⊢
    omega
  next => rfl

/-- An empty range touches nothing. -/
theorem cover_zero (m : Memory) (offset : Nat) : m.cover offset 0 = m := by
  simp [cover]

/-- Overwriting bytes does not change how many there are. -/
@[simp] theorem size_overwrite (bytes : Array UInt8) (position : Nat) (source : List UInt8) :
    (overwrite bytes position source).size = bytes.size := by
  induction source generalizing bytes position with
  | nil => rfl
  | cons byte rest ih => rw [overwrite, ih, Array.size_setIfInBounds]

/-- Writing grows memory to the range that is written. -/
theorem size_store (m : Memory) (offset : Nat) (source : List UInt8) :
    (m.store offset source).size = (m.cover offset source.length).size := by
  simp [store, size]

/-- Memory that covers a range is still a whole number of words. -/
theorem aligned_cover {m : Memory} (haligned : 32 ∣ m.size) (offset length : Nat) :
    32 ∣ (m.cover offset length).size := by
  rw [size_cover]
  split
  next => exact Nat.dvd_mul_left 32 _
  next => exact haligned

/-- Memory never shrinks. -/
theorem size_le_size_cover (m : Memory) (offset length : Nat) :
    m.size ≤ (m.cover offset length).size := by
  rw [size_cover, wordsFor]
  split <;> omega

end Memory

/-! ## Total price of memory -/

/-- The total price of memory of so many words. -/
def memoryTotal (words : Nat) : Nat :=
  3 * words + words * words / 512

/-- More memory has a larger price. -/
theorem memoryTotal_mono {a b : Nat} (h : a ≤ b) : memoryTotal a ≤ memoryTotal b := by
  have hquad : a * a / 512 ≤ b * b / 512 := Nat.div_le_div_right (Nat.mul_le_mul h h)
  rw [memoryTotal, memoryTotal]
  omega

/-- The price of so many words is their total price, as far as it fits 64 bits. -/
theorem toNat_of_memoryWordCost {words : Nat} {gas : UInt64}
    (h : memoryWordCost words = some gas) : gas.toNat = memoryTotal words := by
  simp only [memoryWordCost] at h
  split at h
  next hlt =>
    cases h
    exact UInt64.toNat_ofNat_of_lt' hlt
  next => cases h

/-- The price of growth is the difference of the total prices. -/
theorem memoryGas_add_memoryTotal {current next : Nat} {gas : UInt64} (haligned : 32 ∣ current)
    (h : memoryGas current next = some gas) :
    gas.toNat + memoryTotal (current / 32) =
      memoryTotal (if next > current then Memory.wordsFor next else current / 32) := by
  rw [memoryGas] at h
  split at h
  next hle =>
    cases h
    rw [if_neg (by omega)]
    exact Nat.zero_add _
  next hlt =>
    have hwords : Memory.wordsFor current = current / 32 := by
      rw [Memory.wordsFor]
      omega
    have hle : current / 32 ≤ Memory.wordsFor next := by
      rw [Memory.wordsFor]
      omega
    split at h
    next newCost oldCost hnew hold =>
      cases h
      have hnewNat := toNat_of_memoryWordCost hnew
      have holdNat := toNat_of_memoryWordCost hold
      rw [hwords] at holdNat
      have hmono := memoryTotal_mono hle
      have hcost : oldCost ≤ newCost := UInt64.le_iff_toNat_le.2 (by omega)
      rw [if_pos (by omega), UInt64.toNat_sub_of_le _ _ hcost, hnewNat, holdNat]
      omega
    next => cases h

/-! ## Prices of ranges -/

/-- A range that ends within the limit has bounds that are host sizes. -/
theorem rangeEnd?_eq (offset length : Word) :
    rangeEnd? offset length =
      if offset.toNat + length.toNat ≤ Schedule.maxMemorySize then
        some (offset.toNat + length.toNat)
      else none := by
  have hlimit : Schedule.maxMemorySize < Word.sizeLimit := by decide
  rw [rangeEnd?, Word.toSize?_eq, Word.toSize?_eq]
  by_cases hoffset : offset.toNat < Word.sizeLimit
  · by_cases hlength : length.toNat < Word.sizeLimit
    · simp only [if_pos hoffset, if_pos hlength]
    · have hend : ¬ offset.toNat + length.toNat ≤ Schedule.maxMemorySize := by omega
      simp only [if_pos hoffset, if_neg hlength, if_neg hend]
  · have hend : ¬ offset.toNat + length.toNat ≤ Schedule.maxMemorySize := by omega
    simp only [if_neg hoffset, if_neg hend]

/-- The bounds of a range that can be addressed are host sizes, and its end is within
the limit. -/
theorem rangeEnd?_eq_some {offset length : Word} {stop : Nat}
    (h : rangeEnd? offset length = some stop) :
    stop = offset.toNat + length.toNat ∧
      offset.toNat + length.toNat ≤ Schedule.maxMemorySize := by
  rw [rangeEnd?_eq] at h
  split at h
  next hle =>
    cases h
    exact ⟨rfl, hle⟩
  next => cases h

/-- What a price for a range says: either the range is empty and free, or it can be
addressed and its growth has a price. -/
theorem expansionGas_eq_ok {memory : Memory} {offset length : Word} {gas : UInt64}
    (h : expansionGas memory offset length = .ok gas) :
    (length.toNat = 0 ∧ gas = 0) ∨
      (length.toNat ≠ 0 ∧ offset.toNat + length.toNat ≤ Schedule.maxMemorySize ∧
        memoryGas memory.size (offset.toNat + length.toNat) = some gas) := by
  rw [expansionGas] at h
  split at h
  next hzero =>
    cases h
    exact Or.inl ⟨(Word.isZero_iff length).1 hzero, rfl⟩
  next hne =>
    have hlength : length.toNat ≠ 0 := fun hzero => hne ((Word.isZero_iff length).2 hzero)
    split at h
    next => cases h
    next stop hstop =>
      obtain ⟨rfl, hle⟩ := rangeEnd?_eq_some hstop
      split at h
      next hgas =>
        cases h
        exact Or.inr ⟨hlength, hle, hgas⟩
      next => cases h

/-- The price of a range is what covering it adds to the total price. -/
theorem expansionGas_add_memoryTotal {memory : Memory} {offset length : Word} {gas : UInt64}
    (haligned : 32 ∣ memory.size) (h : expansionGas memory offset length = .ok gas) :
    gas.toNat + memoryTotal (memory.size / 32) =
      memoryTotal ((memory.cover offset.toNat length.toNat).size / 32) := by
  rcases expansionGas_eq_ok h with ⟨hzero, rfl⟩ | ⟨hne, _, hgas⟩
  · rw [Memory.size_cover, if_neg (fun hcover => hcover.1 hzero)]
    exact Nat.zero_add _
  · rw [memoryGas_add_memoryTotal haligned hgas, Memory.size_cover]
    by_cases hgrow : offset.toNat + length.toNat > memory.size
    · rw [if_pos hgrow, if_pos ⟨hne, hgrow⟩, Nat.mul_div_cancel _ (by decide)]
    · rw [if_neg hgrow, if_neg (fun hcover => hgrow hcover.2)]

/-- A memory rule charges its base and the price of its range, without wrapping. -/
theorem memoryStepCost_eq_ok {memory : Memory} {base cost : UInt64} {offset length : Word}
    (h : memoryStepCost memory base offset length = .ok cost) :
    ∃ gas, expansionGas memory offset length = .ok gas ∧
      cost.toNat = base.toNat + gas.toNat := by
  rw [memoryStepCost] at h
  split at h
  next => cases h
  next gas hgas =>
    split at h
    next hlt =>
      cases h
      exact ⟨gas, hgas, by rw [UInt64.toNat_add, Nat.mod_eq_of_lt hlt]⟩
    next => cases h

/-- A range has no price where no gas pays for it. -/
theorem eq_outOfGas_of_memoryStepCost {memory : Memory} {base : UInt64} {offset length : Word}
    {fault : Fault} (h : memoryStepCost memory base offset length = .error fault) :
    fault = .outOfGas := by
  rw [memoryStepCost] at h
  split at h
  next hfault =>
    cases h
    rw [expansionGas] at hfault
    split at hfault
    next => cases hfault
    next =>
      split at hfault
      next =>
        cases hfault
        rfl
      next =>
        split at hfault <;> cases hfault
        rfl
  next =>
    split at h <;> cases h
    rfl

/-! ## Prices of rules -/

/-- The length operand of a memory rule on a stack that has it. -/
def RangeLength.word (length : RangeLength) (stack : Stack) : Word :=
  match length with
  | .fixed width => Word.ofNat width
  | .operand distance => stack.toList.getD distance 0

namespace CostRule

/-- The part of a price that does not pay for memory: all of it for a rule without
memory, and the base of a memory rule. -/
def flatPart (rule : CostRule) (stack : Stack) : Nat :=
  match rule with
  | fixed gas => gas.toNat
  | exponent => 10 + 50 * (stack.toList.getD 1 0).byteLength
  | memory base _ _ => base.toNat

/-- Memory that covers the range that a rule prices. -/
def covered (rule : CostRule) (stack : Stack) (m : Memory) : Memory :=
  match rule with
  | fixed _ | exponent => m
  | memory _ offset length =>
    m.cover (stack.toList.getD offset 0).toNat (length.word stack).toNat

/-- Covering a range never shrinks memory. -/
theorem size_le_size_covered (rule : CostRule) (stack : Stack) (m : Memory) :
    m.size ≤ (rule.covered stack m).size := by
  cases rule with
  | fixed | exponent => exact Nat.le_refl _
  | memory base offset length => exact Memory.size_le_size_cover m _ _

end CostRule

/-- A look that succeeds gives the item of the view. -/
theorem Stack.eq_getD_of_peek {s : Stack} {distance : Nat} {w : Word}
    (h : s.peek distance = .ok w) : w = s.toList.getD distance 0 := by
  rw [peek_toList] at h
  split at h
  next hget =>
    cases h
    rw [List.getD_eq_getElem?_getD, hget]
    rfl
  next => cases h

/-- The length that a rule resolves is its length operand. -/
theorem RangeLength.eq_word_of_resolve {length : RangeLength} {stack : Stack} {w : Word}
    (h : length.resolve stack = .ok w) : w = length.word stack := by
  cases length with
  | fixed width =>
    cases h
    rfl
  | operand distance => exact Stack.eq_getD_of_peek h

/-- A memory rule prices the range that its operands bound. -/
theorem stepCost_memory_eq_ok {base cost : UInt64} {offset : Nat} {length : RangeLength}
    {stack : Stack} {m : Memory} (h : stepCost (.memory base offset length) stack m = .ok cost) :
    memoryStepCost m base (stack.toList.getD offset 0) (length.word stack) = .ok cost := by
  simp only [stepCost] at h
  split at h
  next => cases h
  next offsetWord hoffset =>
    split at h
    next => cases h
    next lengthWord hlength =>
      rwa [← Stack.eq_getD_of_peek hoffset, ← RangeLength.eq_word_of_resolve hlength]

/-- A range that has a price is empty or can be addressed. -/
theorem stepCost_addressable {base cost : UInt64} {offset : Nat} {length : RangeLength}
    {stack : Stack} {m : Memory} (h : stepCost (.memory base offset length) stack m = .ok cost)
    (hne : (length.word stack).toNat ≠ 0) :
    (stack.toList.getD offset 0).toNat + (length.word stack).toNat ≤
      Schedule.maxMemorySize := by
  obtain ⟨gas, hgas, _⟩ := memoryStepCost_eq_ok (stepCost_memory_eq_ok h)
  rcases expansionGas_eq_ok hgas with ⟨hzero, _⟩ | ⟨_, hle, _⟩
  · exact absurd hzero hne
  · exact hle

/-- The price of an exponentiation does not wrap. -/
theorem toNat_expGas (exponent : Word) :
    (expGas exponent).toNat = 10 + 50 * exponent.byteLength := by
  have hle := exponent.byteLength_le
  have hlength : (UInt64.ofNat exponent.byteLength).toNat = exponent.byteLength := by
    rw [UInt64.toNat_ofNat']
    omega
  have hten : Schedule.exp.toNat = 10 := rfl
  have hfifty : Schedule.expByte.toNat = 50 := rfl
  rw [expGas, UInt64.toNat_add, UInt64.toNat_mul, hlength, hten, hfifty]
  omega

/-- A price is the flat part of its rule and a part for memory, which is what the growth of
aligned memory adds to the total price. -/
theorem stepCost_eq_flatPart_add {rule : CostRule} {stack : Stack} {m : Memory}
    {cost : UInt64} (h : stepCost rule stack m = .ok cost) :
    ∃ growth, cost.toNat = rule.flatPart stack + growth ∧
      (32 ∣ m.size →
        growth + memoryTotal (m.size / 32) =
          memoryTotal ((rule.covered stack m).size / 32)) := by
  cases rule with
  | fixed gas =>
    cases h
    exact ⟨0, rfl, fun _ => Nat.zero_add _⟩
  | exponent =>
    simp only [stepCost] at h
    split at h
    next => cases h
    next exponent hpeek =>
      cases h
      refine ⟨0, ?_, fun _ => Nat.zero_add _⟩
      rw [toNat_expGas, Stack.eq_getD_of_peek hpeek]
      rfl
  | memory base offset length =>
    obtain ⟨gas, hgas, hcost⟩ := memoryStepCost_eq_ok (stepCost_memory_eq_ok h)
    exact ⟨gas.toNat, hcost, fun haligned => expansionGas_add_memoryTotal haligned hgas⟩

/-- The price of a step is its flat part and what the growth of memory adds to the
total price. -/
theorem stepCost_add_memoryTotal {rule : CostRule} {stack : Stack} {m : Memory}
    {cost : UInt64} (haligned : 32 ∣ m.size) (h : stepCost rule stack m = .ok cost) :
    cost.toNat + memoryTotal (m.size / 32) =
      rule.flatPart stack + memoryTotal ((rule.covered stack m).size / 32) := by
  obtain ⟨growth, hcost, htotal⟩ := stepCost_eq_flatPart_add h
  have hgrowth := htotal haligned
  omega

/-- A price is at least the flat part of its rule. -/
theorem flatPart_le_of_stepCost {rule : CostRule} {stack : Stack} {m : Memory} {cost : UInt64}
    (h : stepCost rule stack m = .ok cost) : rule.flatPart stack ≤ cost.toNat := by
  obtain ⟨growth, hcost, _⟩ := stepCost_eq_flatPart_add h
  omega

/-- A price is not found for want of an operand, or because no gas pays for it. -/
theorem stepCost_eq_error {rule : CostRule} {stack : Stack} {m : Memory} {fault : Fault}
    (h : stepCost rule stack m = .error fault) :
    fault = .stackUnderflow ∨ fault = .outOfGas := by
  have hpeek {distance : Nat} {fault : Fault} (hfault : stack.peek distance = .error fault) :
      fault = .stackUnderflow := by
    rw [Stack.peek] at hfault
    split at hfault <;> cases hfault
    rfl
  cases rule with
  | fixed gas => cases h
  | exponent =>
    simp only [stepCost] at h
    split at h <;> cases h
    next hfault => exact Or.inl (hpeek hfault)
  | memory base offset length =>
    simp only [stepCost] at h
    split at h
    next hfault =>
      cases h
      exact Or.inl (hpeek hfault)
    next =>
      split at h
      next hfault =>
        cases h
        cases length with
        | fixed width => cases hfault
        | operand distance => exact Or.inl (hpeek hfault)
      next => exact Or.inr (eq_outOfGas_of_memoryStepCost h)

end MeteredMachine
