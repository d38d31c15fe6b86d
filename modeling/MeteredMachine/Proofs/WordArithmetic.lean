import Mathlib.Data.Int.ModEq
import MeteredMachine.Opcode.Basic

/-!
# Values of word functions

The functions of one and two operands in terms of the values of their operands.  Words have 256
bits, so sums, products, differences and powers count modulo {lit}`2 ^ 256`; everything else is the
function of the same name on natural numbers, with zero for a quotient or remainder by zero.

Main results:

- Theorem {lit}`Word.toNat_powLoop`: squaring and multiplying keeps the product of the result so
  far and the power that is left.
- Theorem {lit}`Word.toNat_pow`: exponentiation by squaring is the power modulo {lit}`2 ^ 256`.
- Theorems {lit}`BinaryOp.toNat_apply` and {lit}`UnaryOp.toNat_apply` give the value of every
  function.
-/

namespace MeteredMachine

namespace Word

theorem toNat_ofBool (b : Bool) : (ofBool b).toNat = if b then 1 else 0 := by
  cases b <;> rfl

theorem toNat_and (a b : Word) : (a &&& b).toNat = a.toNat &&& b.toNat :=
  BitVec.toNat_and ..

theorem toNat_or (a b : Word) : (a ||| b).toNat = a.toNat ||| b.toNat :=
  BitVec.toNat_or ..

theorem toNat_xor (a b : Word) : (a ^^^ b).toNat = a.toNat ^^^ b.toNat :=
  BitVec.toNat_xor ..

theorem toNat_not (a : Word) : (~~~a).toNat = 2 ^ 256 - 1 - a.toNat :=
  BitVec.toNat_not

/-- A difference wraps to the remainder of the difference of integers. -/
theorem toNat_sub_eq_emod (a b : Word) :
    (a - b).toNat = (((a.toNat : Int) - b.toNat) % 2 ^ 256).toNat := by
  have ha := a.toNat_lt
  have hb := b.toNat_lt
  rw [toNat_sub]
  simp only [modulus] at ha hb ⊢
  omega

/-! ## Exponentiation -/

/-- Squaring the base halves an exponent, up to a factor for an odd one. -/
theorem pow_half (base exponent : Nat) :
    (if exponent % 2 = 1 then base else 1) * (base * base) ^ (exponent / 2) = base ^ exponent := by
  have hsquare : (base * base) ^ (exponent / 2) = base ^ (2 * (exponent / 2)) := by
    rw [← pow_two, ← pow_mul]
  rw [hsquare]
  split
  next hodd =>
    rw [← pow_succ']
    congr 1
    omega
  next heven =>
    rw [one_mul]
    congr 1
    omega

/-- The product of the result so far and the power that is left stays the same modulo
`2 ^ 256`, round by round. -/
theorem toNat_powLoop {rounds exponent : Nat} (hlt : exponent < 2 ^ rounds) (result base : Word) :
    (powLoop rounds result base exponent).toNat =
      result.toNat * base.toNat ^ exponent % modulus := by
  induction rounds generalizing exponent result base with
  | zero =>
    obtain rfl : exponent = 0 := by omega
    rw [powLoop, pow_zero, mul_one, Nat.mod_eq_of_lt result.toNat_lt]
  | succ rounds ih =>
    rw [powLoop]
    split
    next hzero =>
      rw [hzero, pow_zero, mul_one, Nat.mod_eq_of_lt result.toNat_lt]
    next =>
      have hfactor : (if exponent % 2 = 1 then result * base else result).toNat ≡
          result.toNat * (if exponent % 2 = 1 then base.toNat else 1) [MOD modulus] := by
        split
        next =>
          rw [toNat_mul]
          exact Nat.mod_modEq _ _
        next => rw [mul_one]
      have hbase : (base * base).toNat ≡ base.toNat * base.toNat [MOD modulus] := by
        rw [toNat_mul]
        exact Nat.mod_modEq _ _
      rw [ih (by rw [pow_succ] at hlt; omega)]
      have hround := hfactor.mul (hbase.pow (exponent / 2))
      rwa [mul_assoc, pow_half] at hround

theorem toNat_pow (base exponent : Word) :
    (base.pow exponent).toNat = base.toNat ^ exponent.toNat % 2 ^ 256 := by
  rw [pow, toNat_powLoop exponent.toNat_lt, toNat_one, one_mul]
  rfl

end Word

/-! ## Functions of instructions -/

/-- The function of two operands on values. -/
def BinaryOp.value (op : BinaryOp) (a b : Nat) : Nat :=
  match op with
  | .add => (a + b) % 2 ^ 256
  | .mul => a * b % 2 ^ 256
  | .sub => (((a : Int) - b) % 2 ^ 256).toNat
  | .div => if b = 0 then 0 else a / b
  | .mod => if b = 0 then 0 else a % b
  | .exp => a ^ b % 2 ^ 256
  | .lt => if a < b then 1 else 0
  | .gt => if a > b then 1 else 0
  | .eq => if a = b then 1 else 0
  | .and => a &&& b
  | .or => a ||| b
  | .xor => a ^^^ b

/-- The function of one operand on values. -/
def UnaryOp.value (op : UnaryOp) (a : Nat) : Nat :=
  match op with
  | .isZero => if a = 0 then 1 else 0
  | .not => 2 ^ 256 - 1 - a

theorem BinaryOp.toNat_apply (op : BinaryOp) (a b : Word) :
    (op.apply a b).toNat = op.value a.toNat b.toNat := by
  cases op with
  | add => exact Word.toNat_add a b
  | mul => exact Word.toNat_mul a b
  | sub => exact Word.toNat_sub_eq_emod a b
  | div =>
    rw [apply, Word.toNat_div, value]
    by_cases hzero : b.toNat = 0 <;> simp [hzero]
  | mod => exact Word.toNat_mod a b
  | exp => exact Word.toNat_pow a b
  | lt => simp [apply, value, Word.toNat_ofBool, Word.lt_iff]
  | gt => simp [apply, value, Word.toNat_ofBool, Word.lt_iff]
  | eq => simp [apply, value, Word.toNat_ofBool, Word.toNat_inj]
  | and => exact Word.toNat_and a b
  | or => exact Word.toNat_or a b
  | xor => exact Word.toNat_xor a b

theorem UnaryOp.toNat_apply (op : UnaryOp) (a : Word) :
    (op.apply a).toNat = op.value a.toNat := by
  cases op with
  | isZero => simp [apply, value, Word.toNat_ofBool, Word.isZero_iff]
  | not => exact Word.toNat_not a

end MeteredMachine
