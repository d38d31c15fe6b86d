import MeteredMachine.Machine.Basic

/-!
# Log events

The lines that a machine and a recorder write into a log.  An event is a value; its
level and wording are given here once.  The events of a machine follow from the
machine before and after a step or a run.

Main definitions:

- Type {lit}`Event` and definition {lit}`Event.line`.
- Definitions {lit}`Machine.startEvent` and {lit}`Machine.exitEvents` give the events of
  a machine.
-/

namespace MeteredMachine

/-- Something worth a line in the log. -/
inductive Event where
  /-- A jump table was built. -/
  | jumpTableBuilt (destinations codeSize : Nat)
  /-- A machine exited. -/
  | exited (address : Address) (pc : Nat) (reason : ExitReason) (spent : UInt64)
  /-- A snapshot before a step replaced an earlier one. -/
  | snapshotDropped
  /-- A step was completed without both of its snapshots. -/
  | snapshotsMissing
  /-- A call was left that was never entered. -/
  | unmatchedLeave
deriving DecidableEq

namespace Event

/-- The line of an event: its level and its text. -/
def line : Event → String
  | jumpTableBuilt destinations codeSize =>
    "TRACE Found " ++ toString destinations ++ " jump destinations in " ++ toString codeSize ++
      " bytes of code"
  | exited address pc reason spent =>
    "DEBUG Machine at " ++ address.hex ++ " exited at pc=" ++ toString pc ++ " with " ++
      reason.message ++ " (gas spent " ++ toString spent.toNat ++ ")"
  | snapshotDropped => "DEBUG Tracer before_eval called twice, dropping earlier snapshot"
  | snapshotsMissing => "DEBUG Tracer complete called without a before/after pair"
  | unmatchedLeave => "DEBUG Tracer exit_call without matching enter_call"

end Event

namespace Machine

variable {σ : Type}

/-- The event of building a machine. -/
def startEvent (m : Machine σ) : Event :=
  .jumpTableBuilt m.state.jumpTable.count m.state.code.size

/-- The events between two states of one machine: its exit, if it happened there. -/
def exitEvents (before after : Machine σ) : List Event :=
  match before.status, after.status with
  | .running, .exited reason =>
    [.exited after.context.address after.state.pc reason after.state.gas.spent]
  | _, _ => []

end Machine

end MeteredMachine
