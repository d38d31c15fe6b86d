import MeteredMachine.Text.Bytes

/-!
# Hexadecimal text

Bytes are written as pairs of lower-case hexadecimal digits.  Reading accepts
digits of either case and reports the first thing that is wrong: an odd number of
digits before anything else, then the first byte that is no digit together with
its position.

Main results:

- Theorem {lit}`digitValue?_digitChar`: every digit that is written reads back.
- Theorem {lit}`decode_digits`: reading written bytes gives them back.
-/

namespace MeteredMachine

namespace Hex

/-! ## Writing -/

/-- The two digits of one byte, high half first. -/
def byteDigits (byte : UInt8) : List Char :=
  [Nat.digitChar (byte.toNat / 16), Nat.digitChar (byte.toNat % 16)]

/-- The digits of a byte list, two per byte. -/
def digits (bytes : List UInt8) : List Char :=
  bytes.flatMap byteDigits

/-- The hexadecimal text of a byte list, without a mark in front. -/
def encode (bytes : List UInt8) : String :=
  String.ofList (digits bytes)

/-- The text of a single byte behind the mark `0x`. -/
def byteText (byte : UInt8) : String :=
  "0x" ++ encode [byte]

/-- The digits of a natural number, without leading zeros. -/
def numeral (n : Nat) : String :=
  String.ofList (Nat.toDigits 16 n)

/-! ## Reading -/

/-- The value of a byte that is a hexadecimal digit of either case. -/
def digitValue? (byte : UInt8) : Option Nat :=
  let n := byte.toNat
  if 0x30 ≤ n ∧ n ≤ 0x39 then some (n - 0x30)
  else if 0x61 ≤ n ∧ n ≤ 0x66 then some (n - 0x61 + 10)
  else if 0x41 ≤ n ∧ n ≤ 0x46 then some (n - 0x41 + 10)
  else none

/-- What is wrong with a hexadecimal text. -/
inductive Flaw where
  /-- The digits do not pair up. -/
  | oddLength
  /-- The byte at the index, counted from zero, is no digit. -/
  | badByte (byte : UInt8) (index : Nat)
deriving DecidableEq, Repr

/-- Reads pairs of digits, the first of which stands at `index`. -/
def decodePairs (index : Nat) : List UInt8 → Except Flaw (List UInt8)
  | [] => .ok []
  | [_] => .error .oddLength
  | high :: low :: rest =>
    match digitValue? high, digitValue? low with
    | none, _ => .error (.badByte high index)
    | some _, none => .error (.badByte low (index + 1))
    | some h, some l =>
      match decodePairs (index + 2) rest with
      | .ok bytes => .ok (UInt8.ofNat (h * 16 + l) :: bytes)
      | .error flaw => .error flaw

/-- Reads a hexadecimal text; an odd length is reported before any bad byte. -/
def decode (text : List UInt8) : Except Flaw (List UInt8) :=
  if text.length % 2 = 1 then .error .oddLength else decodePairs 0 text

/-- Drops one leading mark `0x` if there is one. -/
def stripMark (s : String) : String :=
  match s.toList with
  | '0' :: 'x' :: rest => String.ofList rest
  | _ => s

/-! ## Round trip -/

/-- A digit below sixteen is an ASCII character whose byte reads back. -/
theorem digitValue?_digitChar {n : Nat} (h : n < 16) :
    digitValue? (UInt8.ofNat (Nat.digitChar n).toNat) = some n := by
  rcases n with _ | _ | _ | _ | _ | _ | _ | _ | _ | _ | _ | _ | _ | _ | _ | _ | n
  all_goals first | rfl | omega

/-- A digit below sixteen is a single UTF-8 byte. -/
theorem utf8EncodeChar_digitChar {n : Nat} (h : n < 16) :
    String.utf8EncodeChar (Nat.digitChar n) = [UInt8.ofNat (Nat.digitChar n).toNat] := by
  rcases n with _ | _ | _ | _ | _ | _ | _ | _ | _ | _ | _ | _ | _ | _ | _ | _ | n
  all_goals rfl

/-- Reading the digits of a byte list gives the list back, at any index. -/
theorem decodePairs_digits (bytes : List UInt8) (index : Nat) :
    decodePairs index ((digits bytes).flatMap String.utf8EncodeChar) = .ok bytes := by
  induction bytes generalizing index with
  | nil => rfl
  | cons byte bytes ih =>
    have hlt : byte.toNat < 256 := byte.toNat_lt
    have hhigh : byte.toNat / 16 < 16 := by omega
    have hlow : byte.toNat % 16 < 16 := by omega
    have hbyte : UInt8.ofNat (byte.toNat / 16 * 16 + byte.toNat % 16) = byte := by
      rw [Nat.div_add_mod', UInt8.ofNat_toNat]
    have ih' := ih (index + 2)
    simp only [digits] at ih'
    simp [digits, byteDigits, utf8EncodeChar_digitChar hhigh, utf8EncodeChar_digitChar hlow,
      decodePairs, digitValue?_digitChar hhigh, digitValue?_digitChar hlow, ih', hbyte]

/-- The digits of a byte list are twice as many bytes. -/
theorem length_utf8_digits (bytes : List UInt8) :
    ((digits bytes).flatMap String.utf8EncodeChar).length = 2 * bytes.length := by
  induction bytes with
  | nil => rfl
  | cons byte bytes ih =>
    have hlt : byte.toNat < 256 := byte.toNat_lt
    have hhigh : byte.toNat / 16 < 16 := by omega
    have hlow : byte.toNat % 16 < 16 := by omega
    simp only [digits] at ih
    simp [digits, byteDigits, utf8EncodeChar_digitChar hhigh, utf8EncodeChar_digitChar hlow, ih]
    omega

/-- Reading written bytes gives them back. -/
theorem decode_digits (bytes : List UInt8) : decode (Text.utf8 (encode bytes)) = .ok bytes := by
  rw [encode, Text.utf8_ofList, decode, length_utf8_digits, if_neg (by omega)]
  exact decodePairs_digits bytes 0

end Hex

end MeteredMachine
