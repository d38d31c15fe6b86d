import Mathlib.Algebra.BigOperators.Group.Finset.Basic
import Mathlib.Algebra.BigOperators.Ring.Finset
import MeteredMachine.Word.Bytes

/-!
# Place values of bytes

Big-endian bytes are the digits of a number in base 256.  Encoding and reading are
inverse to each other up to the width of the encoding, for numbers in general and
for words in particular.

Main results:

- Theorem {lit}`BigEndian.value_encode`: the bytes of width {lit}`k` keep a number modulo
  {lit}`256 ^ k`.
- Theorem {lit}`BigEndian.encode_value`: a byte list is the encoding of its value at its
  own length, so distinct byte lists of one length have distinct values.
- Theorem {lit}`BigEndian.value_map_range`: a value is the sum of its digits at their places.
- Theorem {lit}`Word.ofBytes_toBytes`: the bytes of a word give it back.
- Theorem {lit}`Word.toBytes_ofBytes`: the word of a short byte list has zeros in front of it.
-/

namespace MeteredMachine

namespace BigEndian

/-- Reading an encoding gives the number back modulo the width. -/
theorem value_encode (width n : Nat) : value (encode width n) = n % 256 ^ width := by
  induction width generalizing n with
  | zero => simp [encode, Nat.mod_one]
  | succ width ih =>
    have hbyte : (UInt8.ofNat n).toNat = n % 256 := by simp
    rw [encode, value_append_singleton, ih, hbyte, Nat.pow_succ,
      Nat.mul_comm (256 ^ width) 256, Nat.mod_mul]
    omega

/-- Folding from a start value adds that value above all the bytes. -/
theorem foldl_eq_add_value (bytes : List UInt8) (start : Nat) :
    bytes.foldl (fun acc byte => acc * 256 + byte.toNat) start =
      start * 256 ^ bytes.length + value bytes := by
  induction bytes generalizing start with
  | nil => simp [value]
  | cons byte bytes ih =>
    have hcons : value (byte :: bytes) = byte.toNat * 256 ^ bytes.length + value bytes := by
      rw [value, List.foldl_cons, ih, Nat.zero_mul, Nat.zero_add]
    rw [List.foldl_cons, ih, hcons, List.length_cons, Nat.pow_succ]
    grind

/-- The first byte carries the highest weight. -/
theorem value_cons (byte : UInt8) (bytes : List UInt8) :
    value (byte :: bytes) = byte.toNat * 256 ^ bytes.length + value bytes := by
  have h := foldl_eq_add_value bytes byte.toNat
  simpa [value] using h

/-- A byte list is below the power of 256 given by its length. -/
theorem value_lt (bytes : List UInt8) : value bytes < 256 ^ bytes.length := by
  induction bytes with
  | nil => simp
  | cons byte bytes ih =>
    have hbyte : byte.toNat + 1 ≤ 256 := byte.toNat_lt
    have hmul := Nat.mul_le_mul_right (256 ^ bytes.length) hbyte
    rw [value_cons, List.length_cons, Nat.pow_succ, Nat.mul_comm _ 256]
    rw [Nat.add_mul] at hmul
    omega

/-- Zeros in front do not change a value. -/
theorem value_replicate_append (count : Nat) (bytes : List UInt8) :
    value (List.replicate count 0 ++ bytes) = value bytes := by
  induction count with
  | zero => rfl
  | succ count ih =>
    rw [List.replicate_succ, List.cons_append, value_cons, ih]
    simp

/-- The highest byte of an encoding is the quotient by the remaining width. -/
theorem encode_succ_eq_cons (width n : Nat) :
    encode (width + 1) n = UInt8.ofNat (n / 256 ^ width) :: encode width n := by
  induction width generalizing n with
  | zero => simp [encode]
  | succ width ih =>
    rw [encode, ih, Nat.div_div_eq_div_mul, Nat.mul_comm 256, ← Nat.pow_succ]
    rfl

/-- An encoding depends only on the number modulo its width. -/
theorem encode_mod (width n : Nat) : encode width (n % 256 ^ width) = encode width n := by
  induction width generalizing n with
  | zero => rfl
  | succ width ih =>
    have hdiv : n % 256 ^ (width + 1) / 256 = n / 256 % 256 ^ width := by
      rw [Nat.pow_succ, Nat.mul_comm (256 ^ width) 256, Nat.mod_mul_right_div_self]
    have hlow : UInt8.ofNat (n % 256 ^ (width + 1)) = UInt8.ofNat n := by
      apply UInt8.toNat.inj
      rw [UInt8.toNat_ofNat', UInt8.toNat_ofNat', Nat.pow_succ, Nat.mul_comm (256 ^ width) 256]
      exact Nat.mod_mul_right_mod n 256 (256 ^ width)
    rw [encode, encode, hdiv, ih, hlow]

/-- A byte list is the encoding of its own value at its own length. -/
theorem encode_value (bytes : List UInt8) : encode bytes.length (value bytes) = bytes := by
  induction bytes with
  | nil => rfl
  | cons byte bytes ih =>
    have hlt := value_lt bytes
    have hpos : 0 < 256 ^ bytes.length := Nat.pow_pos (by decide)
    have hhigh : value (byte :: bytes) / 256 ^ bytes.length = byte.toNat := by
      rw [value_cons, Nat.mul_comm, Nat.mul_add_div hpos, Nat.div_eq_of_lt hlt, Nat.add_zero]
    have hlow : value (byte :: bytes) % 256 ^ bytes.length = value bytes := by
      rw [value_cons, Nat.mul_comm, Nat.mul_add_mod, Nat.mod_eq_of_lt hlt]
    rw [List.length_cons, encode_succ_eq_cons, hhigh, ← encode_mod, hlow, ih, UInt8.ofNat_toNat]

/-- Byte `i` of an encoding is the digit at its place. -/
theorem getElem?_encode {width i : Nat} (hlt : i < width) (n : Nat) :
    (encode width n)[i]? = some (UInt8.ofNat (n / 256 ^ (width - 1 - i))) := by
  induction width generalizing i with
  | zero => omega
  | succ width ih =>
    rw [encode_succ_eq_cons]
    cases i with
    | zero => rfl
    | succ i =>
      rw [List.getElem?_cons_succ, ih (by omega)]
      congr 4
      omega

/-- A value is the sum of its digits at their places. -/
theorem value_map_range (digit : Nat → UInt8) (count : Nat) :
    value ((List.range count).map digit) =
      ∑ i ∈ Finset.range count, (digit i).toNat * 256 ^ (count - 1 - i) := by
  induction count with
  | zero => rfl
  | succ count ih =>
    rw [List.range_succ, List.map_append, List.map_singleton, value_append_singleton, ih,
      Finset.sum_range_succ, Finset.sum_mul]
    have hshift : ∀ i ∈ Finset.range count,
        (digit i).toNat * 256 ^ (count - 1 - i) * 256 =
          (digit i).toNat * 256 ^ (count + 1 - 1 - i) := by
      intro i hi
      have hlt := Finset.mem_range.1 hi
      have hplace : count + 1 - 1 - i = count - 1 - i + 1 := by omega
      rw [hplace, pow_succ, mul_assoc]
    rw [Finset.sum_congr rfl hshift]
    simp

end BigEndian

namespace Word

/-- The bytes of a word stand for it. -/
@[simp] theorem ofBytes_toBytes (w : Word) : ofBytes w.toBytes = w := by
  apply ext_toNat
  have hlt := w.toNat_lt
  rw [modulus] at hlt
  rw [ofBytes, toNat_ofNat, toBytes, BigEndian.value_encode, byteCount, modulus]
  omega

/-- At most 32 bytes have the value of the word they stand for. -/
theorem toNat_ofBytes_of_le {bytes : List UInt8} (h : bytes.length ≤ 32) :
    (ofBytes bytes).toNat = BigEndian.value bytes := by
  have hlt := BigEndian.value_lt bytes
  have hwidth : 256 ^ bytes.length ≤ 256 ^ 32 := Nat.pow_le_pow_right (by decide) h
  rw [ofBytes, toNat_ofNat]
  exact Nat.mod_eq_of_lt (Nat.lt_of_lt_of_le hlt hwidth)

/-- The value of 32 bytes is the value of the word they stand for. -/
theorem toNat_ofBytes {bytes : List UInt8} (h : bytes.length = 32) :
    (ofBytes bytes).toNat = BigEndian.value bytes :=
  toNat_ofBytes_of_le (Nat.le_of_eq h)

/-- The word of at most 32 bytes has these bytes behind zeros. -/
theorem toBytes_ofBytes {bytes : List UInt8} (h : bytes.length ≤ 32) :
    (ofBytes bytes).toBytes = List.replicate (32 - bytes.length) 0 ++ bytes := by
  have hlength : (List.replicate (32 - bytes.length) 0 ++ bytes).length = 32 := by
    rw [List.length_append, List.length_replicate]
    omega
  have hpadded := BigEndian.encode_value (List.replicate (32 - bytes.length) 0 ++ bytes)
  rw [hlength, BigEndian.value_replicate_append] at hpadded
  rw [toBytes, toNat_ofBytes_of_le h]
  exact hpadded

end Word

end MeteredMachine
