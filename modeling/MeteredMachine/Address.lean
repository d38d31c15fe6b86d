import MeteredMachine.BigEndian
import MeteredMachine.ReadError

/-!
# Account addresses

An address is a string of twenty bytes, ordered byte by byte.  It is written as
forty lower-case hexadecimal digits behind the mark {lit}`0x` and read with or
without the mark.

Main definitions:

- Definition {lit}`Address.ofHex` reads an address.
- Definition {lit}`Address.hex` writes one.
-/

namespace MeteredMachine

/-- The twenty bytes that name an account. -/
structure Address where
  /-- The bytes, in the order in which they are written. -/
  bytes : Vector UInt8 20
deriving DecidableEq

namespace Address

/-- The number of bytes of an address. -/
def byteCount : Nat :=
  20

/-- The address of twenty zero bytes. -/
def zero : Address :=
  ⟨Vector.replicate 20 0⟩

instance : Inhabited Address := ⟨zero⟩

/-- Whether all bytes are zero. -/
def isZero (a : Address) : Bool :=
  a == zero

/-- The bytes of an address as a list. -/
def toList (a : Address) : List UInt8 :=
  a.bytes.toList

/-- Reads exactly twenty bytes. -/
def ofBytes? (bytes : List UInt8) : Except ReadError Address :=
  if h : bytes.length = 20 then .ok ⟨⟨bytes.toArray, by simp [h]⟩⟩
  else .error (.wrongLength byteCount bytes.length)

/-- The address whose low eight bytes hold a number and whose other bytes are zero. -/
def ofUInt64 (n : UInt64) : Address :=
  ⟨⟨(BigEndian.encode 20 n.toNat).toArray, by simp⟩⟩

/-! ## Texts -/

/-- Forty lower-case digits without a mark. -/
def digits (a : Address) : String :=
  Hex.encode a.toList

/-- Forty lower-case digits behind the mark `0x`. -/
def hex (a : Address) : String :=
  "0x" ++ a.digits

/-- The text that names the type and the value. -/
def debug (a : Address) : String :=
  "Address(" ++ a.hex ++ ")"

/-- Reads a hexadecimal text, with or without the mark `0x`. -/
def ofHex (s : String) : Except ReadError Address :=
  match Hex.decode (Text.utf8 (Hex.stripMark s)) with
  | .ok bytes => ofBytes? bytes
  | .error .oddLength => .error .addressOddDigits
  | .error (.badByte byte index) => .error (.addressDigit byte index)

/-! ## Order -/

instance : Ord Address := ⟨fun a b => compare a.bytes b.bytes⟩

instance : Std.TransOrd Address where
  eq_swap := Std.OrientedOrd.eq_swap (α := Vector UInt8 20)
  isLE_trans := Std.TransOrd.isLE_trans (α := Vector UInt8 20)

instance : Std.LawfulEqOrd Address where
  compare_self := Std.ReflOrd.compare_self (α := Vector UInt8 20)
  eq_of_compare {a b} h := by
    cases a
    cases b
    exact congrArg Address.mk (Std.LawfulEqOrd.eq_of_compare (α := Vector UInt8 20) h)

end Address

end MeteredMachine
