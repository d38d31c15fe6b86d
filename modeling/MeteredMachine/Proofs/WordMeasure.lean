import Mathlib.Algebra.Group.Nat.Defs
import Mathlib.Order.Bounds.Defs
import MeteredMachine.Word.Limbs

/-!
# Measures of a word

The measures of a word are read off its limbs.  This module says what they are in
terms of the value of the word.

Main results:

- Theorem {lit}`Word.toSize?_eq`: a word is a host size exactly when its value fits 64
  bits, and then it is that value.
- Theorem {lit}`Word.highestSetBit_eq_log2`: the highest set bit is the logarithm of the value.
- Theorem {lit}`Word.isLeast_byteLength`: a value takes the least number of bytes that hold it.
-/

namespace MeteredMachine

namespace Word

/-- A limb is a digit of the value in base `2 ^ 64`. -/
theorem toNat_limb (w : Word) (i : Nat) :
    (w.limb i).toNat = w.toNat / 2 ^ (64 * i) % 2 ^ 64 := by
  rw [limb, UInt64.toNat_ofNat', Nat.shiftRight_eq_div_pow]

/-- A limb is zero exactly when its digit is. -/
theorem limb_eq_zero_iff (w : Word) (i : Nat) :
    w.limb i = 0 ↔ w.toNat / 2 ^ (64 * i) % 2 ^ 64 = 0 := by
  rw [← UInt64.toNat_inj, toNat_limb]
  rfl

/-- The lowest byte is the value modulo 256. -/
theorem toUInt8_lowUInt64 (w : Word) : w.lowUInt64.toUInt8 = UInt8.ofNat (w.toNat % 256) := by
  have hlow := w.toNat_limb 0
  apply UInt8.toNat.inj
  rw [lowUInt64, UInt64.toNat_toUInt8, hlow, UInt8.toNat_ofNat']
  omega

/-- A word is a host size exactly when its value is below the limit. -/
theorem toSize?_eq (w : Word) :
    w.toSize? = if w.toNat < sizeLimit then some w.toNat else none := by
  have hlt := w.toNat_lt
  rw [modulus] at hlt
  have hupper : (w.limb 1 = 0 ∧ w.limb 2 = 0 ∧ w.limb 3 = 0) ↔ w.toNat < sizeLimit := by
    simp only [limb_eq_zero_iff, sizeLimit, UInt64.size]
    omega
  rw [toSize?]
  simp only [hupper]
  split
  next hsmall =>
    have hlow : w.toNat / 2 ^ (64 * 0) % 2 ^ 64 = w.toNat := by
      rw [sizeLimit, UInt64.size] at hsmall
      omega
    rw [toNat_limb, hlow]
  next => rfl

/-- A digit that is not zero decides the logarithm of all that it stands in front of. -/
theorem log2_add_mul {low digit bits : Nat} (hlow : low < 2 ^ bits) (hdigit : digit ≠ 0) :
    (low + 2 ^ bits * digit).log2 = bits + digit.log2 := by
  have hpos : 0 < 2 ^ bits * digit := Nat.mul_pos (Nat.two_pow_pos bits) (Nat.pos_of_ne_zero hdigit)
  rw [Nat.log2_eq_iff (by omega)]
  have hle : 2 ^ bits * 2 ^ digit.log2 ≤ 2 ^ bits * digit :=
    Nat.mul_le_mul_left _ (Nat.log2_self_le hdigit)
  have hlt : 2 ^ bits * (digit + 1) ≤ 2 ^ bits * 2 ^ (digit.log2 + 1) :=
    Nat.mul_le_mul_left _ Nat.lt_log2_self
  rw [Nat.add_assoc, Nat.pow_add, Nat.pow_add]
  rw [Nat.mul_succ] at hlt
  constructor <;> omega

/-- The highest set bit among the lowest limbs is the logarithm of what they stand for. -/
theorem highestSetBitBelow_eq_log2 (w : Word) (count : Nat) :
    w.highestSetBitBelow count = (w.toNat % 2 ^ (64 * count)).log2 := by
  induction count with
  | zero => simp [highestSetBitBelow, Nat.mod_one]
  | succ i ih =>
    have hsplit : w.toNat % 2 ^ (64 * (i + 1)) =
        w.toNat % 2 ^ (64 * i) + 2 ^ (64 * i) * (w.limb i).toNat := by
      rw [toNat_limb, Nat.mul_succ, Nat.pow_add, Nat.mod_mul]
    rw [highestSetBitBelow, hsplit]
    split
    next hzero => rw [ih, hzero, UInt64.toNat_zero, Nat.mul_zero, Nat.add_zero]
    next hne =>
      have hdigit : (w.limb i).toNat ≠ 0 := fun h => hne (UInt64.toNat_inj.1 h)
      rw [log2_add_mul (Nat.mod_lt _ (Nat.two_pow_pos _)) hdigit]

theorem highestSetBit_eq_log2 (w : Word) : w.highestSetBit = w.toNat.log2 := by
  have hlt : w.toNat < 2 ^ (64 * 4) := w.toNat_lt
  rw [highestSetBit, highestSetBitBelow_eq_log2, Nat.mod_eq_of_lt hlt]

/-- A value fits so many bytes exactly when they are at least as many as it takes. -/
theorem toNat_lt_pow_iff (w : Word) (count : Nat) :
    w.toNat < 256 ^ count ↔ w.byteLength ≤ count := by
  have hbase : 256 ^ count = 2 ^ (8 * count) := by rw [Nat.pow_mul]
  rw [hbase, byteLength]
  split
  next hzero =>
    rw [(isZero_iff w).1 hzero]
    exact ⟨fun _ => Nat.zero_le _, fun _ => Nat.two_pow_pos _⟩
  next hne =>
    have hvalue : w.toNat ≠ 0 := fun h => hne ((isZero_iff w).2 h)
    rw [← Nat.log2_lt hvalue, highestSetBit_eq_log2]
    omega

/-- The number of bytes that a value takes is the least number of bytes that hold it. -/
theorem isLeast_byteLength (w : Word) : IsLeast {count | w.toNat < 256 ^ count} w.byteLength :=
  ⟨(w.toNat_lt_pow_iff _).2 (Nat.le_refl _), fun _ h => (w.toNat_lt_pow_iff _).1 h⟩

/-- A value takes at most 32 bytes. -/
theorem byteLength_le (w : Word) : w.byteLength ≤ 32 :=
  (w.toNat_lt_pow_iff 32).1 w.toNat_lt

end Word

end MeteredMachine
