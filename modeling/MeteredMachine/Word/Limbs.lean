import MeteredMachine.Word.Basic

/-!
# Limbs of a word

A word splits into four limbs of 64 bits, lowest first.  The measures that a cost
or an address needs are read off the limbs: the highest set bit, the number of
bytes a value takes, and the value as a host size of 64 bits.

Main definitions:

- Definitions {lit}`limb`, {lit}`limbs` and {lit}`ofLimbs` convert in both directions.
- Definitions {lit}`highestSetBit` and {lit}`byteLength` measure a word.
- Definition {lit}`toSize?` gives the value if it fits a host size.
-/

namespace MeteredMachine

namespace Word

/-- Limb `i` of a word: bits `64 * i` up to `64 * i + 63`. -/
def limb (w : Word) (i : Nat) : UInt64 :=
  UInt64.ofNat (w.toNat >>> (64 * i))

/-- The four limbs of a word, lowest first. -/
def limbs (w : Word) : Vector UInt64 4 :=
  #v[w.limb 0, w.limb 1, w.limb 2, w.limb 3]

/-- The word with the given limbs, lowest first. -/
def ofLimbs (limbs : Vector UInt64 4) : Word :=
  ofNat (limbs.toList.foldr (fun limb rest => limb.toNat + UInt64.size * rest) 0)

/-- The lowest 64 bits of a word. -/
def lowUInt64 (w : Word) : UInt64 :=
  w.limb 0

/-- The number of host sizes: sizes and code positions are below it. -/
def sizeLimit : Nat :=
  UInt64.size

/-- The value of a word as a host size, if the upper limbs are all zero. -/
def toSize? (w : Word) : Option Nat :=
  if w.limb 1 = 0 ∧ w.limb 2 = 0 ∧ w.limb 3 = 0 then some (w.limb 0).toNat else none

/-- The index of the highest set bit among the lowest `count` limbs, or zero. -/
def highestSetBitBelow (w : Word) : Nat → Nat
  | 0 => 0
  | i + 1 => if w.limb i = 0 then highestSetBitBelow w i else 64 * i + (w.limb i).toNat.log2

/-- The index of the highest set bit, and zero for the zero word. -/
def highestSetBit (w : Word) : Nat :=
  w.highestSetBitBelow 4

/-- The number of bytes that the value takes, and zero for the zero word. -/
def byteLength (w : Word) : Nat :=
  if w.isZero then 0 else w.highestSetBit / 8 + 1

end Word

end MeteredMachine
