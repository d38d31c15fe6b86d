import Mathlib.Data.ENat.Basic
import MeteredMachine.Proofs.ExactPrice

/-!
# Growth in several steps

Memory that grows in several steps costs as much as memory that grows to the last size at once.  The
total price has a quadratic part that is rounded down, and sizes are rounded up to words, but both
happen in the total price of a size and cancel in the differences.  Growth without a price counts as
infinitely expensive here, so that the law has no exceptions at the far end either.

Main results:

- Definition {lit}`memoryPrice` is the price of growth, where no price is infinity.
- Theorem {lit}`memoryGas_eq_none_iff` says when growth has no price.
- Theorem {lit}`memoryPrice_add`: prices of growth add up.
- Theorem {lit}`memoryGas_path_independent` collects the laws of growth.
-/

namespace MeteredMachine

/-- The price of growing memory from one size in bytes to another, infinite if there is none. -/
def memoryPrice (current next : Nat) : ℕ∞ :=
  (memoryGas current next).elim ⊤ fun gas => gas.toNat

variable {a b c : Nat}

theorem memoryGas_of_le (h : c ≤ a) : memoryGas a c = some 0 :=
  if_pos h

/-- Growth has no price exactly when the total price of the larger size does not fit 64 bits. -/
theorem memoryGas_eq_none_iff (a c : Nat) :
    memoryGas a c = none ↔ a < c ∧ UInt64.size ≤ memoryTotal (Memory.wordsFor c) := by
  by_cases hgrows : a < c
  · by_cases hfits : memoryTotal (Memory.wordsFor c) < UInt64.size
    · simp [memoryGas_of_lt hfits, Nat.not_le.2 hfits]
    · have hnone : memoryGas a c = none := by
        rw [memoryGas, if_neg (Nat.not_le.2 hgrows), memoryWordCost_eq, if_neg hfits]
      simp [hnone, hgrows, Nat.le_of_not_lt hfits]
  · simp [memoryGas_of_le (Nat.le_of_not_lt hgrows), hgrows]

theorem memoryPrice_of_le (h : c ≤ a) : memoryPrice a c = 0 := by
  rw [memoryPrice, memoryGas_of_le h]
  rfl

theorem memoryPrice_of_lt (h : memoryTotal (Memory.wordsFor c) < UInt64.size) (a : Nat) :
    memoryPrice a c = growthPrice a c := by
  have hgrowth : growthPrice a c < UInt64.size := Nat.lt_of_le_of_lt (Nat.sub_le _ _) h
  rw [memoryPrice, memoryGas_of_lt h, Option.elim_some, UInt64.toNat_ofNat_of_lt' hgrowth]

theorem memoryPrice_eq_top (hgrows : a < c)
    (h : UInt64.size ≤ memoryTotal (Memory.wordsFor c)) : memoryPrice a c = ⊤ := by
  rw [memoryPrice, (memoryGas_eq_none_iff a c).2 ⟨hgrows, h⟩]
  rfl

/-- Growing in two steps costs as much as growing at once. -/
theorem memoryPrice_add (hab : a ≤ b) (hbc : b ≤ c) :
    memoryPrice a c = memoryPrice a b + memoryPrice b c := by
  have htotalab := memoryTotal_mono (Memory.wordsFor_mono hab)
  have htotalbc := memoryTotal_mono (Memory.wordsFor_mono hbc)
  by_cases hfits : memoryTotal (Memory.wordsFor c) < UInt64.size
  · have hsum : growthPrice a c = growthPrice a b + growthPrice b c := by
      rw [growthPrice, growthPrice, growthPrice]
      omega
    rw [memoryPrice_of_lt hfits, memoryPrice_of_lt hfits,
      memoryPrice_of_lt (Nat.lt_of_le_of_lt htotalbc hfits), hsum, Nat.cast_add]
  · -- The last size is out of reach, so whichever step leads there has no price.
    rw [Nat.not_lt] at hfits
    rcases Nat.lt_or_eq_of_le hbc with hlt | rfl
    · rw [memoryPrice_eq_top hlt hfits, memoryPrice_eq_top (Nat.lt_of_le_of_lt hab hlt) hfits,
        add_top]
    · rw [memoryPrice_of_le (Nat.le_refl b), add_zero]

/-- Growing further costs more. -/
theorem memoryPrice_mono (a : Nat) : Monotone (memoryPrice a) := by
  intro b c hbc
  rcases Nat.le_total a b with hab | hba
  · rw [memoryPrice_add hab hbc]
    exact le_self_add
  · rw [memoryPrice_of_le hba]
    exact zero_le

/-- Growing from a larger size costs less. -/
theorem memoryPrice_anti (c : Nat) : Antitone fun a => memoryPrice a c := by
  intro a b hab
  rcases Nat.le_total b c with hbc | hcb
  · simp only [memoryPrice_add hab hbc]
    exact le_add_self
  · simp only [memoryPrice_of_le hcb]
    exact zero_le

/-- The larger of two sizes has the larger total price, so that their difference does not wrap. -/
theorem memoryWordCost_le {oldCost newCost : UInt64} (h : a ≤ c)
    (hnew : memoryWordCost (Memory.wordsFor c) = some newCost)
    (hold : memoryWordCost (Memory.wordsFor a) = some oldCost) : oldCost ≤ newCost := by
  rw [UInt64.le_iff_toNat_le, toNat_of_memoryWordCost hnew, toNat_of_memoryWordCost hold]
  exact memoryTotal_mono (Memory.wordsFor_mono h)

/-- The price of growth does not depend on the path.  Growing in two steps costs as much as growing at
once, where a step without a price makes the whole growth one without a price.  The price grows with
the size that is reached and falls with the size that is left, and memory that does not grow is free.
The difference of totals that it is computed from never wraps.  There is no price exactly where memory
grows and the total price of its new size does not fit 64 bits.  Sizes need not be whole words. -/
theorem memoryGas_path_independent :
    (∀ a b c, a ≤ b → b ≤ c → memoryPrice a c = memoryPrice a b + memoryPrice b c) ∧
      (∀ a, Monotone (memoryPrice a)) ∧ (∀ c, Antitone fun a => memoryPrice a c) ∧
      (∀ a c, c ≤ a → memoryGas a c = some 0) ∧
      (∀ a c oldCost newCost, a < c → memoryWordCost (Memory.wordsFor a) = some oldCost →
        memoryWordCost (Memory.wordsFor c) = some newCost →
          oldCost ≤ newCost ∧ memoryGas a c = some (newCost - oldCost)) ∧
      ∀ a c, memoryGas a c = none ↔
        a < c ∧ 2 ^ 64 ≤ 3 * ((c + 31) / 32) + (c + 31) / 32 * ((c + 31) / 32) / 512 := by
  refine ⟨fun a b c => memoryPrice_add, memoryPrice_mono, memoryPrice_anti,
    fun a c => memoryGas_of_le, ?_, memoryGas_eq_none_iff⟩
  intro a c oldCost newCost hgrows hold hnew
  refine ⟨memoryWordCost_le (Nat.le_of_lt hgrows) hnew hold, ?_⟩
  rw [memoryGas, if_neg (Nat.not_le.2 hgrows), hnew, hold]

/-- Two steps through a size inside a word, and growth that is out of reach. -/
theorem memoryGas_path_independent_of_unaligned :
    memoryGas 1 1000 = some 95 ∧ memoryPrice 1 1000 = memoryPrice 1 33 + memoryPrice 33 1000 ∧
      memoryGas 33 (2 ^ 42) = none ∧
      memoryPrice 1 (2 ^ 42) = memoryPrice 1 33 + memoryPrice 33 (2 ^ 42) := by
  obtain ⟨hadd, _, _, _, _, hnone⟩ := memoryGas_path_independent
  exact ⟨by decide, hadd 1 33 1000 (by decide) (by decide), (hnone 33 (2 ^ 42)).2 (by decide),
    hadd 1 33 (2 ^ 42) (by decide) (by decide)⟩

end MeteredMachine
