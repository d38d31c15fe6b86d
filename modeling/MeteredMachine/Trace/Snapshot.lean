import MeteredMachine.Machine.Basic
import MeteredMachine.Storage
import MeteredMachine.Trace.Options

/-!
# Snapshots

A snapshot is what a recorder keeps of a machine on one side of a step.  Stack,
memory and storage are only kept when the options ask for them.
-/

namespace MeteredMachine

namespace Trace

/-- A machine as seen on one side of a step. -/
structure Snapshot where
  /-- The position of the next instruction. -/
  pc : Nat
  /-- The byte at that position, unless the code has ended. -/
  byte? : Option UInt8
  /-- Whether the machine runs. -/
  status : Status
  /-- The address of the frame. -/
  address : Address
  /-- The gas still available. -/
  remaining : UInt64
  /-- The gas used so far. -/
  spent : UInt64
  /-- The refund counter. -/
  refunded : Int64
  /-- The stack from bottom to top, if kept. -/
  stack? : Option (List Word)
  /-- The bytes of memory, if kept. -/
  memory? : Option (List UInt8)
  /-- The slots of the frame's account, if kept. -/
  storage? : Option Slots
deriving DecidableEq

namespace Options

/-- Whether snapshots keep the stack: it is shown, or needed for the items of a step. -/
def keepsStack (o : Options) : Bool :=
  !o.hideStack || o.stackInOut

end Options

/-- The snapshot of a machine, with the slots of its account if there is a storage. -/
def Snapshot.capture {σ : Type} (o : Options) (m : Machine σ) (storage? : Option Storage) :
    Snapshot :=
  let s := m.state
  { pc := s.pc
    byte? := s.currentByte?
    status := s.status
    address := m.context.address
    remaining := s.gas.remaining
    spent := s.gas.spent
    refunded := s.gas.refunded
    stack? := if o.keepsStack then some s.stack.items.toList else none
    memory? := if o.hideMemory then none else some s.memory.bytes.toList
    storage? :=
      if o.hideStorage then none else storage?.map fun storage => storage.slots m.context.address }

end Trace

end MeteredMachine
