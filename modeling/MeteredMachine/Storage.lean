import MeteredMachine.Address
import MeteredMachine.SortedMap
import MeteredMachine.Word.Basic

/-!
# Account storage

Every account has slots that map words to words; a slot that was never set is
zero.  Only slots that are not zero are kept, and only accounts that have one, so
that a storage is determined by what it answers.

Main definitions:

- Definitions {lit}`Storage.get`, {lit}`Storage.set` and {lit}`Storage.slots`.
- Definition {lit}`Storage.perform` carries out a command of a host.
-/

namespace MeteredMachine

/-- The slots of one account, in ascending order of their keys. -/
abbrev Slots := SortedMap Word Word

/-- The slots of all accounts. -/
structure Storage where
  /-- The accounts that have slots. -/
  accounts : SortedMap Address Slots
deriving DecidableEq

namespace Storage

/-- The storage in which every slot is zero. -/
def empty : Storage :=
  ⟨.empty⟩

instance : Inhabited Storage := ⟨empty⟩

/-- The slots of an account that are not zero. -/
def slots (s : Storage) (address : Address) : Slots :=
  (s.accounts.find? address).getD .empty

/-- The value of a slot. -/
def get (s : Storage) (address : Address) (key : Word) : Word :=
  ((s.slots address).find? key).getD 0

/-- Replaces the slots of an account; an account without slots is dropped. -/
def setSlots (s : Storage) (address : Address) (slots : Slots) : Storage :=
  if slots.isEmpty then ⟨s.accounts.erase address⟩ else ⟨s.accounts.insert address slots⟩

/-- Sets a slot; the value zero clears it. -/
def set (s : Storage) (address : Address) (key value : Word) : Storage :=
  let slots := s.slots address
  s.setSlots address (if value.isZero then slots.erase key else slots.insert key value)

/-! ## Commands -/

/-- A call that a host may make on a storage. -/
inductive Command where
  /-- Read a slot. -/
  | get (address : Address) (key : Word)
  /-- Set a slot. -/
  | set (address : Address) (key value : Word)
  /-- List the slots of an account. -/
  | slots (address : Address)
deriving DecidableEq

/-- What a command gives back. -/
inductive Answer where
  /-- The value of a slot. -/
  | value (word : Word)
  /-- The slots of an account. -/
  | slots (slots : Slots)
deriving DecidableEq

/-- The storage after a command, and what the command gives back. -/
structure Performed where
  /-- The storage after the command. -/
  storage : Storage
  /-- What the command gives back. -/
  answer : Answer
deriving DecidableEq

/-- Carries out a command; setting a slot answers with all slots of the account. -/
def perform (s : Storage) : Command → Performed
  | .get address key => { storage := s, answer := .value (s.get address key) }
  | .set address key value =>
    let next := s.set address key value
    { storage := next, answer := .slots (next.slots address) }
  | .slots address => { storage := s, answer := .slots (s.slots address) }

end Storage

end MeteredMachine
