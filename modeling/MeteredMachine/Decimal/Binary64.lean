/-!
# Binary floating-point numbers of 64 bits

A finite number that is not negative is a mantissa of at most 53 bits times a power
of two.  A quotient of natural numbers is rounded to the nearest such number, and
to the even mantissa when two are equally near; a quotient that is too large has no
such number.  Products and quotients are rounded from their exact values.

Main definitions:

- Definition {lit}`Binary64.ofQuotient?` rounds a quotient.
- Definitions {lit}`Binary64.mul?` and {lit}`Binary64.div?` compute with rounded numbers.
- Definition {lit}`Binary64.ofScientific?` reads a significand and a decimal exponent.
-/

namespace MeteredMachine

/-- The number `mantissa * 2 ^ exponent`. -/
structure Binary64 where
  /-- A natural number below `2 ^ 53`. -/
  mantissa : Nat
  /-- The power of two, at least -1074. -/
  exponent : Int
deriving DecidableEq, Repr

namespace Binary64

/-- The smallest exponent. -/
def minExponent : Int :=
  -1074

/-- The largest exponent. -/
def maxExponent : Int :=
  971

/-- The number zero. -/
def zero : Binary64 :=
  ⟨0, minExponent⟩

/-- Whether the number is zero. -/
def isZero (x : Binary64) : Bool :=
  x.mantissa == 0

/-! ## Rounding -/

/-- A natural number times a power of two with an exponent of either sign, as the
numerator and the denominator of a quotient. -/
def scale (n : Nat) (exponent : Int) : Nat × Nat :=
  if exponent ≥ 0 then (n <<< exponent.toNat, 1) else (n, 1 <<< (-exponent).toNat)

/-- The nearest natural number to a quotient; of two the even one. -/
def roundQuotient (num den : Nat) : Nat :=
  let quotient := num / den
  let twice := 2 * (num % den)
  if twice > den ∨ (twice = den ∧ quotient % 2 = 1) then quotient + 1 else quotient

/-- The exponent at which a positive quotient has a mantissa of 53 bits, or the
smallest exponent for a quotient that is too small for that. -/
def exponentFor (num den : Nat) : Int :=
  let guess : Int := (num.log2 : Int) - (den.log2 : Int)
  let (upper, lower) := scale 1 guess
  let exact := if num * lower ≥ den * upper then guess else guess - 1
  max minExponent (exact - 52)

/-- The nearest number to a quotient with a positive denominator, unless the
quotient is too large. -/
def ofQuotient? (num den : Nat) : Option Binary64 :=
  if num = 0 then some zero
  else
    let exponent := exponentFor num den
    let (upper, lower) := scale 1 exponent
    let mantissa := roundQuotient (num * lower) (den * upper)
    let rounded : Binary64 :=
      if mantissa = 1 <<< 53 then ⟨1 <<< 52, exponent + 1⟩ else ⟨mantissa, exponent⟩
    if rounded.exponent > maxExponent then none else some rounded

/-- The exact value as the numerator and the denominator of a quotient. -/
def toQuotient (x : Binary64) : Nat × Nat :=
  scale x.mantissa x.exponent

/-! ## Arithmetic -/

/-- The rounded product, unless it is too large. -/
def mul? (x y : Binary64) : Option Binary64 :=
  let (a, b) := x.toQuotient
  let (c, d) := y.toQuotient
  ofQuotient? (a * c) (b * d)

/-- The rounded quotient by a positive number, unless it is too large. -/
def div? (x y : Binary64) : Option Binary64 :=
  let (a, b) := x.toQuotient
  let (c, d) := y.toQuotient
  ofQuotient? (a * d) (b * c)

/-- The largest power of ten that is multiplied or divided by at once. -/
def maxPower : Nat :=
  308

/-- The rounded power of ten. -/
def powerOfTen? (n : Nat) : Option Binary64 :=
  ofQuotient? (Nat.pow 10 n) 1

/-- Divides by `10 ^ n`, the largest power at a time; a zero stays zero.  Four
rounds take every 64-bit number to zero, so the last of them is never cut short. -/
def divPower? : Nat → Binary64 → Nat → Option Binary64
  | 0, x, _ => some x
  | rounds + 1, x, n =>
    if n ≤ maxPower then do x.div? (← powerOfTen? n)
    else if x.isZero then some x
    else do divPower? rounds (← x.div? (← powerOfTen? maxPower)) (n - maxPower)

/-- A significand times a power of ten: both are rounded, then their product or
quotient is.  There is no number if the result is too large. -/
def ofScientific? (significand : Nat) (exponent : Int) : Option Binary64 := do
  let x ← ofQuotient? significand 1
  if exponent ≥ 0 then
    if exponent.toNat ≤ maxPower then x.mul? (← powerOfTen? exponent.toNat)
    else if x.isZero then some x
    else none
  else divPower? 4 x (-exponent).toNat

end Binary64

end MeteredMachine
