import MeteredMachine.BigEndian
import MeteredMachine.ReadError
import MeteredMachine.Word.Basic

/-!
# Bytes of a word

A word has 32 big-endian bytes.  Any shorter byte list also stands for a word, as
if zero bytes stood in front of it; a longer one is refused.

Main definitions:

- Definitions {lit}`Word.toBytes` and {lit}`Word.ofBytes` convert in both directions.
- Definition {lit}`Word.ofBytes?` refuses what is too long.
-/

namespace MeteredMachine

namespace Word

/-- The number of bytes of a word. -/
def byteCount : Nat :=
  32

/-- The 32 bytes of a word, most significant first. -/
def toBytes (w : Word) : List UInt8 :=
  BigEndian.encode byteCount w.toNat

/-- The word that a byte list stands for, most significant byte first. -/
def ofBytes (bytes : List UInt8) : Word :=
  ofNat (BigEndian.value bytes)

/-- Reads at most 32 bytes as a word. -/
def ofBytes? (bytes : List UInt8) : Except ReadError Word :=
  if bytes.length > byteCount then .error (.wrongLength byteCount bytes.length)
  else .ok (ofBytes bytes)

/-- A word has 32 bytes. -/
@[simp] theorem length_toBytes (w : Word) : w.toBytes.length = 32 := by
  simp [toBytes, byteCount]

end Word

end MeteredMachine
