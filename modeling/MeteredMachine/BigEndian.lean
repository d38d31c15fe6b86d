/-!
# Big-endian bytes

Fixed-width big-endian bytes of a natural number, and the number that a byte
list of any length stands for.  Words, immediates and the low part of an address
all go through these two functions.

Main definitions:

- Definition {lit}`BigEndian.encode` gives the low bytes of a number.
- Definition {lit}`BigEndian.value` reads bytes as a number.
-/

namespace MeteredMachine

namespace BigEndian

/-- The low `width` bytes of `n`, most significant first. -/
def encode : Nat → Nat → List UInt8
  | 0, _ => []
  | width + 1, n => encode width (n / 256) ++ [UInt8.ofNat n]

/-- The number that a byte list stands for, most significant byte first. -/
def value (bytes : List UInt8) : Nat :=
  bytes.foldl (fun acc byte => acc * 256 + byte.toNat) 0

/-- An encoding has the width asked for. -/
@[simp] theorem length_encode (width n : Nat) : (encode width n).length = width := by
  induction width generalizing n with
  | zero => rfl
  | succ width ih => simp [encode, ih]

/-- The empty byte list stands for zero. -/
@[simp] theorem value_nil : value [] = 0 := rfl

/-- One more byte at the low end shifts the value by a byte. -/
@[simp] theorem value_append_singleton (bytes : List UInt8) (byte : UInt8) :
    value (bytes ++ [byte]) = value bytes * 256 + byte.toNat := by
  simp [value, List.foldl_append]

end BigEndian

end MeteredMachine
