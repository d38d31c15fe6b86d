import MeteredMachine.Proofs.StackFrame

/-!
# Exact prices

A price is found with checks for words that are no host sizes, for ranges that end too far out, and
for sums that do not fit 64 bits.  All of them together compute one formula over natural numbers,
in which only a range that cannot be addressed has no price.

Main results:

- Definition {lit}`CostRule.price?` is the formula.
- Theorem {lit}`stepCost_eq_gasOfPrice`: a rule that finds its operands charges that price, and runs
  out of gas where the price does not fit 64 bits.
- Theorem {lit}`stepCost_exact` spells the price out, with all the ways in which there is none.
-/

namespace MeteredMachine

/-- The price of growing memory from one size in bytes to another; memory that does not grow is
free. -/
def growthPrice (current next : Nat) : Nat :=
  memoryTotal (Memory.wordsFor next) - memoryTotal (Memory.wordsFor current)

/-- The price of touching a range, on top of a base.  A range that cannot be addressed has none,
since no gas is enough for it. -/
def rangePrice? (base : Nat) (m : Memory) (offset length : Nat) : Option Nat :=
  if length = 0 then some base
  else if offset + length ≤ Schedule.maxMemorySize then
    some (base + growthPrice m.size (offset + length))
  else none

/-- The price of a step as a natural number, if it has one. -/
def CostRule.price? (rule : CostRule) (stack : Stack) (m : Memory) : Option Nat :=
  match rule with
  | fixed gas => some gas.toNat
  | exponent => some (10 + 50 * (stack.toList.getD 1 0).byteLength)
  | memory base offset length =>
    rangePrice? base.toNat m (stack.toList.getD offset 0).toNat (length.word stack).toNat

/-- A price in gas, which runs out where there is no price or none that fits 64 bits. -/
def gasOfPrice : Option Nat → Except Fault UInt64
  | none => .error .outOfGas
  | some price => if price < UInt64.size then .ok (UInt64.ofNat price) else .error .outOfGas

theorem gasOfPrice_toNat (gas : UInt64) : gasOfPrice (some gas.toNat) = .ok gas := by
  rw [gasOfPrice, if_pos gas.toNat_lt, UInt64.ofNat_toNat]

/-- A price is charged as it is. -/
theorem eq_of_gasOfPrice {price? : Option Nat} {cost : UInt64} (h : gasOfPrice price? = .ok cost) :
    price? = some cost.toNat := by
  cases price? with
  | none => cases h
  | some price =>
    rw [gasOfPrice] at h
    split at h
    next hlt =>
      cases h
      rw [UInt64.toNat_ofNat_of_lt' hlt]
    next => cases h

/-- What is not charged is beyond all gas. -/
theorem lt_of_gasOfPrice {price? : Option Nat} {fault : Fault}
    (h : gasOfPrice price? = .error fault) :
    fault = .outOfGas ∧ ∀ price ∈ price?, UInt64.size ≤ price := by
  cases price? with
  | none =>
    cases h
    exact ⟨rfl, by simp⟩
  | some price =>
    rw [gasOfPrice] at h
    split at h
    next => cases h
    next hlt =>
      cases h
      exact ⟨rfl, by simpa using hlt⟩

/-! ## Ranges -/

theorem Memory.wordsFor_le {size : Nat} (h : size ≤ 2 ^ 32) : wordsFor size ≤ 2 ^ 27 := by
  rw [wordsFor]
  omega

theorem memoryTotal_lt {words : Nat} (h : words ≤ 2 ^ 27) : memoryTotal words < UInt64.size := by
  have hlargest : memoryTotal (2 ^ 27) < UInt64.size := by decide
  exact Nat.lt_of_le_of_lt (memoryTotal_mono h) hlargest

theorem growthPrice_lt {next : Nat} (h : next ≤ 2 ^ 32) (current : Nat) :
    growthPrice current next < UInt64.size :=
  Nat.lt_of_le_of_lt (Nat.sub_le _ _) (memoryTotal_lt (Memory.wordsFor_le h))

theorem memoryWordCost_eq (words : Nat) :
    memoryWordCost words =
      if memoryTotal words < UInt64.size then some (UInt64.ofNat (memoryTotal words)) else none :=
  rfl

theorem Memory.wordsFor_mono {a b : Nat} (h : a ≤ b) : wordsFor a ≤ wordsFor b :=
  Nat.div_le_div_right (Nat.add_le_add_right h 31)

/-- Growth to a size whose total price fits 64 bits always has a price. -/
theorem memoryGas_of_lt {next : Nat} (h : memoryTotal (Memory.wordsFor next) < UInt64.size)
    (current : Nat) : memoryGas current next = some (UInt64.ofNat (growthPrice current next)) := by
  rw [memoryGas, growthPrice]
  split
  next hle =>
    rw [Nat.sub_eq_zero_of_le (memoryTotal_mono (Memory.wordsFor_mono hle))]
    rfl
  next hlt =>
    have hmono := memoryTotal_mono (Memory.wordsFor_mono (Nat.le_of_not_le hlt))
    rw [memoryWordCost_eq, memoryWordCost_eq, if_pos h, if_pos (Nat.lt_of_le_of_lt hmono h)]
    simp only [UInt64.ofNat_sub hmono]

theorem expansionGas_eq (m : Memory) (offset length : Word) :
    expansionGas m offset length =
      if length.toNat = 0 then .ok 0
      else if offset.toNat + length.toNat ≤ Schedule.maxMemorySize then
        .ok (UInt64.ofNat (growthPrice m.size (offset.toNat + length.toNat)))
      else .error .outOfGas := by
  rw [expansionGas, rangeEnd?_eq]
  by_cases hzero : length.toNat = 0
  · rw [if_pos ((Word.isZero_iff length).2 hzero), if_pos hzero]
  · rw [if_neg (fun h => hzero ((Word.isZero_iff length).1 h)), if_neg hzero]
    by_cases hend : offset.toNat + length.toNat ≤ Schedule.maxMemorySize
    · have htotal := memoryTotal_lt (Memory.wordsFor_le (Nat.le_trans hend (by decide)))
      simp only [if_pos hend, memoryGas_of_lt htotal]
    · simp only [if_neg hend]

/-- A base and a growth that fits 64 bits make up a price. -/
theorem gasOfPrice_add (base : UInt64) {growth : Nat} (h : growth < UInt64.size) :
    gasOfPrice (some (base.toNat + growth)) =
      if base.toNat + (UInt64.ofNat growth).toNat < UInt64.size then
        .ok (base + UInt64.ofNat growth)
      else .error .outOfGas := by
  rw [gasOfPrice, UInt64.toNat_ofNat_of_lt' h, UInt64.ofNat_add, UInt64.ofNat_toNat]

theorem memoryStepCost_eq_gasOfPrice (m : Memory) (base : UInt64) (offset length : Word) :
    memoryStepCost m base offset length =
      gasOfPrice (rangePrice? base.toNat m offset.toNat length.toNat) := by
  rw [memoryStepCost, expansionGas_eq, rangePrice?]
  by_cases hzero : length.toNat = 0
  · simp only [if_pos hzero]
    have hnothing : 0 < UInt64.size := by decide
    exact (gasOfPrice_add base hnothing).symm
  · by_cases hend : offset.toNat + length.toNat ≤ Schedule.maxMemorySize
    · have hgrowth := growthPrice_lt (Nat.le_trans hend (by decide)) m.size
      rw [if_neg hzero, if_neg hzero, if_pos hend, if_pos hend, gasOfPrice_add base hgrowth]
    · rw [if_neg hzero, if_neg hzero, if_neg hend, if_neg hend]
      rfl

/-! ## Rules -/

theorem Stack.peek_of_lt {stack : Stack} {distance : Nat} (h : distance < stack.size) :
    stack.peek distance = .ok (stack.toList.getD distance 0) := by
  rw [peek_toList, List.getD_eq_getElem?_getD,
    List.getElem?_eq_getElem (by rwa [length_toList])]
  rfl

theorem RangeLength.resolve_of_le {length : RangeLength} {stack : Stack}
    (h : length.reads ≤ stack.size) : length.resolve stack = .ok (length.word stack) := by
  cases length with
  | fixed width => rfl
  | operand distance => exact Stack.peek_of_lt h

/-- A rule that finds its operands charges its price. -/
theorem stepCost_eq_gasOfPrice {rule : CostRule} {stack : Stack} (hreads : rule.reads ≤ stack.size)
    (m : Memory) : stepCost rule stack m = gasOfPrice (rule.price? stack m) := by
  cases rule with
  | fixed gas => exact (gasOfPrice_toNat gas).symm
  | exponent =>
    rw [stepCost, Stack.peek_of_lt hreads, CostRule.price?, ← toNat_expGas, gasOfPrice_toNat]
  | memory base offset length =>
    have hoffset : offset < stack.size := Nat.le_trans (Nat.le_max_left _ _) hreads
    have hlength : length.reads ≤ stack.size := Nat.le_trans (Nat.le_max_right _ _) hreads
    rw [stepCost, Stack.peek_of_lt hoffset, RangeLength.resolve_of_le hlength]
    exact memoryStepCost_eq_gasOfPrice m base _ _

/-- The price of a range in gas, spelled out. -/
theorem gasOfPrice_rangePrice? (base : UInt64) (m : Memory) (offset length : Nat) :
    gasOfPrice (rangePrice? base.toNat m offset length) =
      if length = 0 then .ok base
      else if offset + length > 2 ^ 32 - 1 then .error .outOfGas
      else
        let price := base.toNat +
          (memoryTotal ((offset + length + 31) / 32) - memoryTotal ((m.size + 31) / 32))
        if price < 2 ^ 64 then .ok (UInt64.ofNat price) else .error .outOfGas := by
  rw [rangePrice?]
  split
  next => exact gasOfPrice_toNat base
  next =>
    have hlimit : Schedule.maxMemorySize = 2 ^ 32 - 1 := rfl
    by_cases hend : offset + length ≤ Schedule.maxMemorySize
    · rw [if_pos hend, if_neg (by omega)]
      rfl
    · rw [if_neg hend, if_pos (by omega)]
      rfl

/-- The value of a length, if the stack has the operand that it looks at. -/
def RangeLength.value? (length : RangeLength) (stack : Stack) : Option Nat :=
  match length with
  | .fixed width => some width
  | .operand distance => stack.toList[distance]?.map Word.toNat

/-- Resolving a length gives a word of its value, for widths that are host sizes. -/
theorem RangeLength.resolve_of_value? {length : RangeLength}
    (hwidth : ∀ width, length = .fixed width → width < 2 ^ 64) (stack : Stack) :
    (∃ w, length.resolve stack = .ok w ∧ length.value? stack = some w.toNat) ∨
      (length.resolve stack = .error .stackUnderflow ∧ length.value? stack = none) := by
  cases length with
  | fixed width =>
    have hfits : width < Word.modulus := Nat.lt_trans (hwidth width rfl) (by decide)
    exact Or.inl ⟨_, rfl, by rw [value?, Word.toNat_ofNat, Nat.mod_eq_of_lt hfits]⟩
  | operand distance =>
    rw [resolve, value?, Stack.peek_toList]
    cases stack.toList[distance]? with
    | none => exact Or.inr ⟨rfl, rfl⟩
    | some w => exact Or.inl ⟨w, rfl, rfl⟩

/-- The price of a step is the mathematical one.  A memory rule that does not find its operands is an
underflow.  With the values of its operands an empty range costs the base; a range that ends behind
the largest addressable size is out of gas; and for any other range the price is the base and the
difference of the total prices of memory, and is out of gas where this number does not fit 64 bits.
An exponentiation costs 10 and 50 for each of the least number of bytes that hold the exponent. -/
theorem stepCost_exact (stack : Stack) (m : Memory) :
    (∀ (base : UInt64) (offset : Nat) (length : RangeLength),
      (∀ width, length = .fixed width → width < 2 ^ 64) →
        stepCost (.memory base offset length) stack m =
          match stack.toList[offset]?, length.value? stack with
          | some o, some l =>
            if l = 0 then .ok base
            else if o.toNat + l > 2 ^ 32 - 1 then .error .outOfGas
            else
              let price := base.toNat +
                (memoryTotal ((o.toNat + l + 31) / 32) - memoryTotal ((m.size + 31) / 32))
              if price < 2 ^ 64 then .ok (UInt64.ofNat price) else .error .outOfGas
          | _, _ => .error .stackUnderflow) ∧
      (stack.size ≤ 1 → stepCost .exponent stack m = .error .stackUnderflow) ∧
      ∀ exponent, stack.toList[1]? = some exponent →
        ∃ (bytes : Nat) (gas : UInt64), IsLeast {count | exponent.toNat < 256 ^ count} bytes ∧
          stepCost .exponent stack m = .ok gas ∧ gas.toNat = 10 + 50 * bytes := by
  refine ⟨?_, ?_, ?_⟩
  · intro base offset length hwidth
    rw [stepCost, Stack.peek_toList]
    cases stack.toList[offset]? with
    | none => rfl
    | some o =>
      rcases RangeLength.resolve_of_value? hwidth stack with
        ⟨l, hresolve, hvalue⟩ | ⟨hresolve, hvalue⟩
      · simp only [hresolve, hvalue]
        rw [memoryStepCost_eq_gasOfPrice, gasOfPrice_rangePrice?]
      · simp only [hresolve, hvalue]
  · intro hshort
    have hnone : stack.toList[1]? = none := by
      rw [List.getElem?_eq_none_iff, Stack.length_toList]
      exact hshort
    rw [stepCost, Stack.peek_toList, hnone]
  · intro exponent hexponent
    refine ⟨exponent.byteLength, expGas exponent, exponent.isLeast_byteLength, ?_,
      toNat_expGas exponent⟩
    rw [stepCost, Stack.peek_toList, hexponent]

/-- A return of a byte behind one word of memory grows memory to two words, and a return at an offset
of 256 bits is out of gas unless it is empty. -/
theorem stepCost_exact_of_return :
    let rule := CostRule.memory 7 0 (.operand 1)
    let word := Memory.empty.cover 0 1
    let far := Word.ofNat (2 ^ 255)
    stepCost rule (.ofList [32, 1]) word = .ok 10 ∧
      stepCost rule (.ofList [far, 1]) word = .error .outOfGas ∧
      stepCost rule (.ofList [far, 0]) word = .ok 7 ∧
      stepCost rule (.ofList [far]) word = .error .stackUnderflow := by
  intro rule word far
  have hexact (items : List Word) :=
    (stepCost_exact (.ofList items) word).1 7 0 (.operand 1) (by simp)
  refine ⟨(hexact [32, 1]).trans ?_, (hexact [far, 1]).trans ?_, (hexact [far, 0]).trans ?_,
    (hexact [far]).trans ?_⟩ <;> decide +kernel

end MeteredMachine
