import MeteredMachine.Decimal.Binary64

/-!
# Shortest decimal text

The text of a binary number has the fewest digits that round back to it; of several
such decimals it is the nearest.  It is written with a point while the point falls
among or near the digits, and with a signed power of ten otherwise.

Main definitions:

- Definition {lit}`Decimal.shortest` finds the digits.
- Definition {lit}`Decimal.text` writes them.
-/

namespace MeteredMachine

/-- The number `digits * 10 ^ exponent`. -/
structure Decimal where
  /-- All digits, read as one natural number. -/
  digits : Nat
  /-- The power of ten. -/
  exponent : Int
deriving DecidableEq, Repr

namespace Decimal

/-! ## Digits -/

/-- A quotient divided by a power of ten with an exponent of either sign. -/
def divPowerOfTen (num den : Nat) (exponent : Int) : Nat × Nat :=
  if exponent ≥ 0 then (num, den * Nat.pow 10 exponent.toNat)
  else (num * Nat.pow 10 (-exponent).toNat, den)

/-- The power of ten of the leading digit of a positive quotient. -/
def leadingPower (num den : Nat) : Int :=
  if num ≥ den then ((Nat.toDigits 10 (num / den)).length : Int) - 1
  else -((Nat.toDigits 10 ((den - 1) / num)).length : Int)

/-- The numbers that round to a binary number, in quarters of its last place. -/
structure Interval where
  /-- The lower end. -/
  low : Nat
  /-- The number itself. -/
  middle : Nat
  /-- The upper end. -/
  high : Nat
  /-- The power of two of a quarter of the last place. -/
  exponent : Int
  /-- Whether the ends round to the number too. -/
  closed : Bool

/-- The numbers that round to a positive binary number.  Below a power of two the
neighbour is only half as far away. -/
def interval (x : Binary64) : Interval :=
  let narrow := x.mantissa = 1 <<< 52 ∧ x.exponent > Binary64.minExponent
  { low := 4 * x.mantissa - (if narrow then 1 else 2)
    middle := 4 * x.mantissa
    high := 4 * x.mantissa + 2
    exponent := x.exponent - 2
    closed := x.mantissa % 2 == 0 }

/-- Whether `candidate * 10 ^ power` rounds to the number of the interval. -/
def Interval.holds (i : Interval) (candidate : Nat) (power : Int) : Bool :=
  let (upper, lower) := Binary64.scale 1 i.exponent
  let (num, den) := divPowerOfTen upper lower power
  let value := candidate * den
  if i.closed then i.low * num ≤ value && value ≤ i.high * num
  else i.low * num < value && value < i.high * num

/-- The decimal on the grid of `10 ^ power` that rounds to the number and is nearest
to it, if there is one. -/
def onGrid? (i : Interval) (power : Int) : Option Decimal :=
  let (upper, lower) := Binary64.scale 1 i.exponent
  let (num, den) := divPowerOfTen (i.middle * upper) lower power
  let below := num / den
  let twice := 2 * (num % den)
  let nearBelow := twice < den || (twice == den && below % 2 == 0)
  match i.holds below power, i.holds (below + 1) power with
  | true, true => some ⟨if nearBelow then below else below + 1, power⟩
  | true, false => some ⟨below, power⟩
  | false, true => some ⟨below + 1, power⟩
  | false, false => none

/-- Tries grids of more and more digits. -/
def search (i : Interval) (power : Int) : Nat → Decimal
  | 0 => (onGrid? i power).getD ⟨0, power⟩
  | more + 1 =>
    match onGrid? i power with
    | some d => d
    | none => search i (power - 1) more

/-- The shortest decimal that rounds to a positive number; seventeen digits always
do.  The first grid is that of the next power of ten. -/
def shortest (x : Binary64) : Decimal :=
  let (num, den) := x.toQuotient
  search (interval x) (leadingPower num den + 1) 17

/-! ## Text -/

/-- Digits up to this place in front of the point are written out. -/
def maxPlaces : Int :=
  16

/-- Up to this many zeros between the point and the digits are written out. -/
def maxLeadingZeros : Int :=
  4

/-- The text of a power of ten behind its mark: the sign is always written, and the
digits are not padded. -/
def powerText (power : Int) : List Char :=
  ['e', if power < 0 then '-' else '+'] ++ Nat.toDigits 10 power.natAbs

/-- The text of a decimal. -/
def text (d : Decimal) : String :=
  let digits := Nat.toDigits 10 d.digits
  let places : Int := digits.length + d.exponent
  String.ofList <|
    if 0 ≤ d.exponent ∧ places ≤ maxPlaces then
      digits ++ List.replicate d.exponent.toNat '0' ++ ['.', '0']
    else if 0 < places ∧ places ≤ maxPlaces then
      digits.take places.toNat ++ ['.'] ++ digits.drop places.toNat
    else if places ≤ 0 ∧ -places ≤ maxLeadingZeros then
      ['0', '.'] ++ List.replicate (-places).toNat '0' ++ digits
    else
      let mantissa := if digits.length = 1 then digits else digits.take 1 ++ ['.'] ++ digits.drop 1
      mantissa ++ powerText (places - 1)

end Decimal

/-- The text of a binary number with its sign. -/
def Binary64.text (negative : Bool) (x : Binary64) : String :=
  (if negative then "-" else "") ++ if x.isZero then "0.0" else (Decimal.shortest x).text

end MeteredMachine
