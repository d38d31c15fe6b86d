import MeteredMachine.Word.Bytes

/-!
# Machine memory

Memory is a run of bytes whose length is always a whole number of words.  Touching
a range makes memory cover it, with zeros in the new part; an empty range touches
nothing, wherever it lies.

Main definitions:

- Definition {lit}`Memory.cover` grows memory to a range.
- Definitions {lit}`Memory.load`, {lit}`Memory.store`, {lit}`Memory.loadWord`,
  {lit}`Memory.storeWord` and {lit}`Memory.storeByte` read and write.
- Definition {lit}`Memory.perform` carries out a command of a host.
-/

namespace MeteredMachine

/-- The byte-addressed memory of a machine. -/
structure Memory where
  /-- The bytes from address zero on. -/
  bytes : Array UInt8
deriving DecidableEq

namespace Memory

/-! ## Growth -/

/-- Memory in which nothing has been touched. -/
def empty : Memory :=
  ⟨#[]⟩

instance : Inhabited Memory := ⟨empty⟩

/-- The number of bytes. -/
def size (m : Memory) : Nat :=
  m.bytes.size

/-- The number of words that hold `n` bytes. -/
def wordsFor (n : Nat) : Nat :=
  (n + 31) / 32

/-- Memory that covers `length` bytes at `offset`, rounded up to whole words. -/
def cover (m : Memory) (offset length : Nat) : Memory :=
  if length ≠ 0 ∧ offset + length > m.size then
    ⟨m.bytes ++ Array.replicate (wordsFor (offset + length) * 32 - m.size) 0⟩
  else m

/-! ## Reading and writing -/

/-- The bytes of a range and the memory that covers it. -/
structure Loaded (α : Type) where
  /-- What was read. -/
  value : α
  /-- The memory after the growth that reading caused. -/
  memory : Memory

/-- Reads `length` bytes at `offset`. -/
def load (m : Memory) (offset length : Nat) : Loaded (List UInt8) :=
  let covered := m.cover offset length
  { value := (covered.bytes.extract offset (offset + length)).toList, memory := covered }

/-- Overwrites bytes one after the other from a position on. -/
def overwrite (bytes : Array UInt8) (position : Nat) : List UInt8 → Array UInt8
  | [] => bytes
  | byte :: rest => overwrite (bytes.setIfInBounds position byte) (position + 1) rest

/-- Writes `source` at `offset`. -/
def store (m : Memory) (offset : Nat) (source : List UInt8) : Memory :=
  ⟨overwrite (m.cover offset source.length).bytes offset source⟩

/-- Reads the big-endian word at `offset`. -/
def loadWord (m : Memory) (offset : Nat) : Loaded Word :=
  let loaded := m.load offset Word.byteCount
  { value := Word.ofBytes loaded.value, memory := loaded.memory }

/-- Writes a word at `offset`, most significant byte first. -/
def storeWord (m : Memory) (offset : Nat) (w : Word) : Memory :=
  m.store offset w.toBytes

/-- Writes a single byte at `offset`. -/
def storeByte (m : Memory) (offset : Nat) (byte : UInt8) : Memory :=
  m.store offset [byte]

/-- The words of memory that are not all zero, with their byte offsets. -/
def nonzeroWords (m : Memory) : List (Nat × List UInt8) :=
  (List.range (m.size / 32)).filterMap fun i =>
    let bytes := (m.bytes.extract (32 * i) (32 * i + 32)).toList
    if bytes.all (· == 0) then none else some (32 * i, bytes)

/-! ## Commands -/

/-- A call that a host may make on a memory. -/
inductive Command where
  /-- Cover a range. -/
  | cover (offset length : Nat)
  /-- Read a range. -/
  | load (offset length : Nat)
  /-- Write bytes. -/
  | store (offset : Nat) (source : List UInt8)
  /-- Read a word. -/
  | loadWord (offset : Nat)
  /-- Write a word. -/
  | storeWord (offset : Nat) (word : Word)
  /-- Write a byte. -/
  | storeByte (offset : Nat) (byte : UInt8)
deriving DecidableEq

/-- What a command gives back. -/
inductive Answer where
  /-- Nothing. -/
  | done
  /-- The new size. -/
  | size (n : Nat)
  /-- The bytes of a range. -/
  | bytes (bytes : List UInt8)
  /-- A word. -/
  | word (word : Word)
deriving DecidableEq

/-- The memory after a command, and what the command gives back. -/
structure Performed where
  /-- The memory after the command. -/
  memory : Memory
  /-- What the command gives back. -/
  answer : Answer
deriving DecidableEq

/-- Carries out a command. -/
def perform (m : Memory) : Command → Performed
  | .cover offset length =>
    let covered := m.cover offset length
    { memory := covered, answer := .size covered.size }
  | .load offset length =>
    let loaded := m.load offset length
    { memory := loaded.memory, answer := .bytes loaded.value }
  | .store offset source => { memory := m.store offset source, answer := .done }
  | .loadWord offset =>
    let loaded := m.loadWord offset
    { memory := loaded.memory, answer := .word loaded.value }
  | .storeWord offset word => { memory := m.storeWord offset word, answer := .done }
  | .storeByte offset byte => { memory := m.storeByte offset byte, answer := .done }

end Memory

end MeteredMachine
