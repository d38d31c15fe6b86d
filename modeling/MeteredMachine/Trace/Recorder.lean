import MeteredMachine.Event
import MeteredMachine.Trace.CallForest

/-!
# Recorder

A recorder turns pairs of snapshots into entries.  It is told before and after each
step, completes the pair into an entry, and is told when calls are entered and
left.  It only reads machines.  Calls on it out of order do no harm: a snapshot
before a step replaces an earlier one, an incomplete pair gives no entry, and
leaving a call that was never entered does nothing.

Main definitions:

- Structure {lit}`Trace.Recorder` with {lit}`before`, {lit}`after`, {lit}`complete`,
  {lit}`enter` and {lit}`leave`.
- Definition {lit}`Trace.Recorder.finish` gives the forest of all entries.
- Definition {lit}`Trace.Recorder.callRun` runs a machine to its exit and records every
  step; {lit}`Trace.Recorder.run` is what is there at the end.
-/

namespace MeteredMachine

namespace Trace

/-- A recorder of steps. -/
structure Recorder where
  /-- What to keep. -/
  options : Options
  /-- The snapshot before the step that is under way. -/
  before? : Option Snapshot
  /-- The snapshot after it. -/
  after? : Option Snapshot
  /-- The entries of the frame that is under way. -/
  current : CallForest
  /-- The entries of the frames around it, innermost first. -/
  outer : List CallForest
  /-- The number of calls that are open. -/
  depth : Nat

namespace Recorder

/-- A recorder that has seen nothing. -/
def ofOptions (options : Options) : Recorder :=
  { options, before? := none, after? := none, current := .nil, outer := [], depth := 0 }

/-! ## Recording -/

/-- Takes a snapshot before a step and forgets an earlier pair. -/
def before (r : Recorder) (snapshot : Snapshot) : Recorder :=
  { r with before? := some snapshot, after? := none }

/-- Takes a snapshot after a step. -/
def after (r : Recorder) (snapshot : Snapshot) : Recorder :=
  { r with after? := some snapshot }

/-- The entry of a pair of snapshots: there is one if the machine was running at a
byte of its code. -/
def recorded? (r : Recorder) (before after : Snapshot) : Option Entry :=
  match before.status, before.byte? with
  | .running, some opcode => some (.ofSnapshots r.options r.depth opcode before after)
  | _, _ => none

/-- Turns the pending snapshots into an entry and forgets them. -/
def complete (r : Recorder) : Recorder :=
  let cleared := { r with before? := none, after? := none }
  match r.before?, r.after? with
  | some before, some after =>
    match r.recorded? before after with
    | some entry => { cleared with current := r.current.push entry }
    | none => cleared
  | _, _ => cleared

/-! ## Calls -/

/-- Closes the innermost frame, unless it is the only one. -/
def closeFrame (r : Recorder) : Recorder :=
  match r.outer with
  | [] => r
  | caller :: outer => { r with current := caller.attach r.current, outer }

/-- A call starts; the entries that follow belong to it. -/
def enter (r : Recorder) : Recorder :=
  let deeper := { r with depth := r.depth + 1 }
  if r.options.callTrace then { deeper with current := .nil, outer := r.current :: r.outer }
  else deeper

/-- The innermost call ends. -/
def leave (r : Recorder) : Recorder :=
  if r.depth = 0 then r
  else
    let shallower := { r with depth := r.depth - 1 }
    if r.options.callTrace then shallower.closeFrame else shallower

/-- The entries of the outermost frame so far. -/
def rootFrame (r : Recorder) : CallForest :=
  r.outer.getLast?.getD r.current

/-- The entries of all frames, after closing those that are open. -/
def finish (r : Recorder) : CallForest :=
  r.outer.foldl (fun call caller => caller.attach call) r.current

/-! ## Calls of a host -/

/-- A call that a host may make on a recorder. -/
inductive Command where
  /-- A snapshot before a step. -/
  | before (snapshot : Snapshot)
  /-- A snapshot after a step. -/
  | after (snapshot : Snapshot)
  /-- The end of a step. -/
  | complete
  /-- The start of a call. -/
  | enter
  /-- The end of a call. -/
  | leave
deriving DecidableEq

/-- Carries out a command. -/
def perform (r : Recorder) : Command → Recorder
  | .before snapshot => r.before snapshot
  | .after snapshot => r.after snapshot
  | .complete => r.complete
  | .enter => r.enter
  | .leave => r.leave

/-- The events of a command, which follow from the recorder before it. -/
def events (r : Recorder) : Command → List Event
  | .before _ => if r.before?.isSome then [.snapshotDropped] else []
  | .after _ => []
  | .complete => if r.before?.isSome && r.after?.isSome then [] else [.snapshotsMissing]
  | .enter => []
  | .leave => if r.depth = 0 then [.unmatchedLeave] else []

/-! ## Traced runs -/

variable {σ : Type}

/-- A recorder and the machine that it follows. -/
structure Traced (σ : Type) where
  /-- The recorder. -/
  recorder : Recorder
  /-- The machine. -/
  machine : Machine σ

/-- One step of the machine with a snapshot on either side; the answer is that of the
step. -/
def callRound (storage? : Option Storage) (t : Traced σ) : Called (Traced σ) :=
  let r := t.recorder
  let opened := r.before (.capture r.options t.machine storage?)
  let called := t.machine.callStep
  let closed := (opened.after (.capture r.options called.after storage?)).complete
  { after := { recorder := closed, machine := called.after }, answer := called.answer }

/-- The recorder and the machine after one step with a snapshot on either side. -/
def round (storage? : Option Storage) (t : Traced σ) : Traced σ :=
  (callRound storage? t).after

/-- Runs a machine to its exit, records every step, and gives the reason of the exit. -/
def callRun (storage? : Option Storage) (t : Traced σ) : Ended (Traced σ) :=
  untilExit (callRound storage?) t.machine.stepBound t

/-- The recorder and the machine after a run to the exit in which every step is recorded. -/
def run (storage? : Option Storage) (t : Traced σ) : Traced σ :=
  (callRun storage? t).after

end Recorder

end Trace

end MeteredMachine
