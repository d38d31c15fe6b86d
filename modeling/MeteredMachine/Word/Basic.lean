/-!
# Machine words

A word is an unsigned number of 256 bits.  Arithmetic wraps modulo {lit}`2 ^ 256`,
and a division or a remainder by zero is zero.  The order of words is the order of
their values.

Main results:

- Theorems {lit}`toNat_add`, {lit}`toNat_sub`, {lit}`toNat_mul`, {lit}`toNat_div` and
  {lit}`toNat_mod` give the value of every arithmetic result.
- Theorem {lit}`ext_toNat`: a word is determined by its value.
-/

namespace MeteredMachine

/-- An unsigned number of 256 bits. -/
structure Word where
  /-- The bits of the word. -/
  toBitVec : BitVec 256
deriving DecidableEq

namespace Word

/-! ## Values -/

/-- The value of a word. -/
def toNat (w : Word) : Nat :=
  w.toBitVec.toNat

/-- The number of words, two to the power of 256. -/
@[simp] def modulus : Nat :=
  0x10000000000000000000000000000000000000000000000000000000000000000

/-- The word whose value is `n` modulo the number of words. -/
def ofNat (n : Nat) : Word :=
  ⟨BitVec.ofNat 256 n⟩

instance (n : Nat) : OfNat Word n := ⟨ofNat n⟩

instance : Inhabited Word := ⟨0⟩

/-- The largest word. -/
def max : Word :=
  ofNat (modulus - 1)

/-- The word of a truth value: one or zero. -/
def ofBool (b : Bool) : Word :=
  if b then 1 else 0

/-- The word of a 64-bit number. -/
def ofUInt64 (n : UInt64) : Word :=
  ofNat n.toNat

/-- Whether a word is zero. -/
def isZero (w : Word) : Bool :=
  w == 0

/-! ## Arithmetic and bits -/

instance : Add Word := ⟨fun a b => ⟨a.toBitVec + b.toBitVec⟩⟩

instance : Sub Word := ⟨fun a b => ⟨a.toBitVec - b.toBitVec⟩⟩

instance : Mul Word := ⟨fun a b => ⟨a.toBitVec * b.toBitVec⟩⟩

/-- Division rounds down; a zero divisor gives zero. -/
instance : Div Word := ⟨fun a b => ⟨a.toBitVec / b.toBitVec⟩⟩

/-- A zero modulus gives zero. -/
instance : Mod Word := ⟨fun a b => if b = 0 then 0 else ⟨a.toBitVec % b.toBitVec⟩⟩

instance : AndOp Word := ⟨fun a b => ⟨a.toBitVec &&& b.toBitVec⟩⟩

instance : OrOp Word := ⟨fun a b => ⟨a.toBitVec ||| b.toBitVec⟩⟩

instance : XorOp Word := ⟨fun a b => ⟨a.toBitVec ^^^ b.toBitVec⟩⟩

instance : Complement Word := ⟨fun a => ⟨~~~a.toBitVec⟩⟩

/-- Multiplies `result` by the powers of `base` that the low `rounds` bits of the
exponent select, squaring the base from bit to bit. -/
def powLoop : Nat → Word → Word → Nat → Word
  | 0, result, _, _ => result
  | rounds + 1, result, base, exponent =>
    if exponent = 0 then result
    else
      powLoop rounds (if exponent % 2 = 1 then result * base else result) (base * base)
        (exponent / 2)

/-- Exponentiation by squaring, one round per bit of the exponent. -/
def pow (base exponent : Word) : Word :=
  powLoop 256 1 base exponent.toNat

/-! ## Order -/

instance : LT Word := ⟨fun a b => a.toNat < b.toNat⟩

instance : LE Word := ⟨fun a b => a.toNat ≤ b.toNat⟩

instance : DecidableLT Word := fun a b => inferInstanceAs (Decidable (a.toNat < b.toNat))

instance : DecidableLE Word := fun a b => inferInstanceAs (Decidable (a.toNat ≤ b.toNat))

instance : Ord Word := ⟨fun a b => compare a.toNat b.toNat⟩

/-! ## Interface lemmas -/

/-- A value fits 256 bits. -/
theorem toNat_lt (w : Word) : w.toNat < modulus :=
  w.toBitVec.isLt

/-- A word is determined by its value. -/
theorem ext_toNat {a b : Word} (h : a.toNat = b.toNat) : a = b := by
  cases a
  cases b
  exact congrArg Word.mk (BitVec.eq_of_toNat_eq h)

/-- Equal words and equal values are the same thing. -/
theorem toNat_inj {a b : Word} : a.toNat = b.toNat ↔ a = b :=
  ⟨ext_toNat, congrArg toNat⟩

/-- Making a word reduces the number modulo the number of words. -/
@[simp] theorem toNat_ofNat (n : Nat) : (ofNat n).toNat = n % modulus := by
  simp [toNat, ofNat]

/-- A word is the word of its value. -/
@[simp] theorem ofNat_toNat (w : Word) : ofNat w.toNat = w := by
  apply ext_toNat
  rw [toNat_ofNat, Nat.mod_eq_of_lt w.toNat_lt]

/-- The value of zero. -/
@[simp] theorem toNat_zero : (0 : Word).toNat = 0 := rfl

/-- The value of one. -/
@[simp] theorem toNat_one : (1 : Word).toNat = 1 := by decide

/-- A word is zero exactly when its value is. -/
theorem eq_zero_iff (w : Word) : w = 0 ↔ w.toNat = 0 := by
  rw [← toNat_inj, toNat_zero]

/-- The zero test is the test on the value. -/
theorem isZero_iff (w : Word) : w.isZero = true ↔ w.toNat = 0 := by
  simp [isZero, eq_zero_iff]

/-- Addition wraps. -/
theorem toNat_add (a b : Word) : (a + b).toNat = (a.toNat + b.toNat) % modulus :=
  BitVec.toNat_add ..

/-- Subtraction wraps. -/
theorem toNat_sub (a b : Word) :
    (a - b).toNat = (modulus - b.toNat + a.toNat) % modulus :=
  BitVec.toNat_sub ..

/-- Multiplication wraps. -/
theorem toNat_mul (a b : Word) : (a * b).toNat = a.toNat * b.toNat % modulus :=
  BitVec.toNat_mul ..

/-- Division is the division of values, where a quotient by zero is zero. -/
theorem toNat_div (a b : Word) : (a / b).toNat = a.toNat / b.toNat :=
  BitVec.toNat_udiv ..

/-- The remainder is that of the values, and zero for a zero modulus. -/
theorem toNat_mod (a b : Word) :
    (a % b).toNat = if b.toNat = 0 then 0 else a.toNat % b.toNat := by
  show (if b = 0 then (0 : Word) else ⟨a.toBitVec % b.toBitVec⟩).toNat = _
  by_cases h : b = 0
  · rw [if_pos h, if_pos ((eq_zero_iff b).1 h), toNat_zero]
  · rw [if_neg h, if_neg (fun h' => h ((eq_zero_iff b).2 h'))]
    exact BitVec.toNat_umod

/-- One word is below another exactly when its value is. -/
theorem lt_iff (a b : Word) : a < b ↔ a.toNat < b.toNat := Iff.rfl

/-- Comparing words compares their values. -/
theorem compare_eq (a b : Word) : compare a b = compare a.toNat b.toNat := rfl

instance : Std.TransOrd Word where
  eq_swap := Std.OrientedOrd.eq_swap (α := Nat)
  isLE_trans := Std.TransOrd.isLE_trans (α := Nat)

instance : Std.LawfulEqOrd Word where
  compare_self := Std.ReflOrd.compare_self (α := Nat)
  eq_of_compare h := ext_toNat (Std.LawfulEqOrd.eq_of_compare (α := Nat) h)

end Word

end MeteredMachine
