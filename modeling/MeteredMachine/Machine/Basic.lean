import MeteredMachine.Machine.Instruction
import MeteredMachine.Machine.Policy

/-!
# Machines

A machine is a state together with the context of its frame and the policy of its
host.  A step consults the policy and then evaluates one instruction; it answers with
the reason if the machine exits, and a machine that has exited does not change any
more.  Every step that leaves a machine running uses up gas, so a run of as many steps
as there is gas, and one more, always ends.

Main definitions:

- Definition {lit}`Machine.callStep` is one step with its answer, and {lit}`Machine.step`
  the machine after it.
- Definition {lit}`Machine.callRun` steps until the machine exits, and {lit}`Machine.run`
  is the machine at the end.
- Definition {lit}`Machine.perform` carries out a command of a host.
-/

namespace MeteredMachine

/-- One frame of execution under a policy that remembers values of type `σ`. -/
structure Machine (σ : Type) where
  /-- The state. -/
  state : State
  /-- The surroundings of the frame. -/
  context : Context
  /-- The policy of the host. -/
  policy : Policy σ
  /-- What the policy remembers. -/
  memo : σ

namespace Machine

variable {σ : Type}

/-- A running machine at the start of its code. -/
def ofCode (code data : Array UInt8) (gasLimit : UInt64) (context : Context)
    (policy : Policy σ) (memo : σ) : Machine σ :=
  { state := .initial code data gasLimit, context, policy, memo }

/-- The status of the machine. -/
def status (m : Machine σ) : Status :=
  m.state.status

/-- Whether more steps may follow. -/
def isRunning (m : Machine σ) : Bool :=
  m.status.isRunning

/-! ## Steps -/

/-- Ends the machine without any other change, and answers with the reason. -/
def exit (m : Machine σ) (reason : ExitReason) : Called (Machine σ) :=
  { after := { m with state := { m.state with status := .exited reason } }
    answer := .error reason }

/-- Evaluates the instruction at the program counter, whatever the policy says. -/
def advance (m : Machine σ) : Called (Machine σ) :=
  let evaluated := m.state.eval
  let moved := { m with state := evaluated.state }
  match evaluated.exit? with
  | none => { after := moved, answer := .ok () }
  | some reason => moved.exit reason

/-- One step and its answer.  It leaves an exited machine alone and answers with the reason
of that exit. -/
def callStep (m : Machine σ) : Called (Machine σ) :=
  match m.status with
  | .exited reason => { after := m, answer := .error reason }
  | .running =>
    let verdict := m.policy.review m.memo m.state m.state.currentOpcode? m.context.address
    let consulted := { m with memo := verdict.memo }
    match verdict.refusal? with
    | some fault => consulted.exit (.fault fault)
    | none => consulted.advance

/-- The machine after one step. -/
def step (m : Machine σ) : Machine σ :=
  m.callStep.after

/-- A number of steps that no run exceeds. -/
def stepBound (m : Machine σ) : Nat :=
  m.state.gas.remaining.toNat + 1

/-- Steps until the machine exits, and the reason of the exit. -/
def callRun (m : Machine σ) : Ended (Machine σ) :=
  untilExit callStep m.stepBound m

/-- The machine after steps until it exits. -/
def run (m : Machine σ) : Machine σ :=
  m.callRun.after

/-! ## Commands -/

/-- A call that a host may make on a machine. -/
inductive Command where
  /-- One step. -/
  | step
  /-- Steps until the exit. -/
  | run
  /-- A call on the operand stack. -/
  | stack (command : Stack.Command)
deriving DecidableEq

/-- The machine after a call on its operand stack, and the answer of that call. -/
structure Touched (σ : Type) where
  /-- The machine after the call. -/
  machine : Machine σ
  /-- The fault, or the word that a pop or a look gives. -/
  answer : Except Fault (Option Word)

/-- A call on the operand stack. -/
def touchStack (m : Machine σ) (command : Stack.Command) : Touched σ :=
  let performed := m.state.stack.perform command
  { machine := { m with state := { m.state with stack := performed.stack } }
    answer := performed.answer }

/-- Puts words on the operand stack, passing over those that do not fit. -/
def seed (m : Machine σ) (words : List Word) : Machine σ :=
  { m with state := { m.state with stack := m.state.stack.seed words } }

/-- Carries out a command. -/
def perform (m : Machine σ) : Command → Machine σ
  | .step => m.step
  | .run => m.run
  | .stack command => (m.touchStack command).machine

end Machine

end MeteredMachine
