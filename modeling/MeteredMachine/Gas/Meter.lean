import MeteredMachine.Exit

/-!
# Gas meter

A meter starts with its full budget.  A charge is all or nothing: it either moves
its cost from the remaining to the spent gas or fails and changes nothing.  Refunds
are counted apart and stay inside the range of 64-bit integers.

Main definitions:

- Definitions {lit}`Meter.charge` and {lit}`Meter.refund` are the two operations.
- Definition {lit}`Meter.perform` carries out a command of a host.
-/

namespace MeteredMachine

/-- The gas account of one frame. -/
structure Meter where
  /-- The budget at the start. -/
  limit : UInt64
  /-- The gas still available. -/
  remaining : UInt64
  /-- The gas used so far. -/
  spent : UInt64
  /-- The refund counter, which may be negative. -/
  refunded : Int64
deriving DecidableEq

namespace Meter

/-- A meter with its whole budget available. -/
def ofLimit (limit : UInt64) : Meter :=
  { limit, remaining := limit, spent := 0, refunded := 0 }

/-- Takes `cost` out of the remaining gas, or fails and leaves the meter alone. -/
def charge (meter : Meter) (cost : UInt64) : Except Fault Meter :=
  if cost > meter.remaining then .error .outOfGas
  else .ok { meter with remaining := meter.remaining - cost, spent := meter.spent + cost }

/-- The nearest 64-bit integer. -/
def clamp (n : Int) : Int64 :=
  Int64.ofInt (max Int64.minValue.toInt (min Int64.maxValue.toInt n))

/-- Adds `delta` to the refund counter, which stops at the ends of its range. -/
def refund (meter : Meter) (delta : Int64) : Meter :=
  { meter with refunded := clamp (meter.refunded.toInt + delta.toInt) }

/-! ## Commands -/

/-- A call that a host may make on a meter. -/
inductive Command where
  /-- Charge a cost. -/
  | charge (cost : UInt64)
  /-- Adjust the refund counter. -/
  | refund (delta : Int64)
deriving DecidableEq

/-- The meter after a command, and the fault if the command failed. -/
structure Performed where
  /-- The meter after the command. -/
  meter : Meter
  /-- Why the command failed, if it did. -/
  fault? : Option Fault
deriving DecidableEq

/-- Carries out a command; a failed charge leaves the meter as it was. -/
def perform (meter : Meter) : Command → Performed
  | .charge cost =>
    match meter.charge cost with
    | .ok charged => { meter := charged, fault? := none }
    | .error fault => { meter, fault? := some fault }
  | .refund delta => { meter := meter.refund delta, fault? := none }

end Meter

end MeteredMachine
