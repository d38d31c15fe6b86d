import MeteredMachine.Trace.Recorder

/-!
# Sessions

A host drives several machines under one recorder and one storage.  A session holds
them together with the log of events and with the consultations that recording
policies have kept, in the order in which they happened over all machines.

Main definitions:

- Structure {lit}`Trace.Session` and type {lit}`Trace.Session.Command`.
- Definition {lit}`Trace.Session.perform` carries out a command.
-/

namespace MeteredMachine

namespace Trace

/-- Machines, recorder and storage of one host. -/
structure Session where
  /-- The recorder. -/
  recorder : Recorder
  /-- The machines. -/
  machines : Array (Machine StockPolicy)
  /-- The storage. -/
  storage : Storage
  /-- Whether the recorder is shown the storage. -/
  showsStorage : Bool
  /-- The events so far. -/
  events : Array Event
  /-- The consultations of recording policies so far. -/
  consultations : Array Consultation

namespace Session

/-- A session at its start: building the machines is already in the log. -/
def start (options : Options) (machines : Array (Machine StockPolicy)) (storage : Storage)
    (showsStorage : Bool) : Session :=
  { recorder := .ofOptions options
    machines
    storage
    showsStorage
    events := machines.map Machine.startEvent
    consultations := #[] }

/-! ## Changes -/

/-- Replaces a machine by what it has become, and keeps what came up on the way. -/
def moveMachine (s : Session) (index : Nat) (old new : Machine StockPolicy) : Session :=
  { s with
    machines := s.machines.setIfInBounds index new
    events := s.events ++ old.exitEvents new
    consultations := s.consultations ++
      new.memo.consultations.extract old.memo.consultations.size }

/-- Carries out a command on the recorder. -/
def tellRecorder (s : Session) (command : Recorder.Command) : Session :=
  { s with
    recorder := s.recorder.perform command
    events := s.events ++ s.recorder.events command }

/-- The storage that the recorder is shown, unless the host withholds it. -/
def shownStorage? (s : Session) (withheld : Bool) : Option Storage :=
  if s.showsStorage && !withheld then some s.storage else none

/-- The snapshot of a machine. -/
def snapshot (s : Session) (m : Machine StockPolicy) (withheld : Bool) : Snapshot :=
  .capture s.recorder.options m (s.shownStorage? withheld)

/-- One step of a machine with a snapshot on either side. -/
def round (s : Session) (index : Nat) (m : Machine StockPolicy) (withheld : Bool) : Session :=
  let next := m.step
  let opened := s.tellRecorder (.before (s.snapshot m withheld))
  let moved := opened.moveMachine index m next
  let closed := moved.tellRecorder (.after (moved.snapshot next withheld))
  closed.tellRecorder .complete

/-- So many rounds of a machine. -/
def rounds (s : Session) (index : Nat) (withheld : Bool) : Nat → Session
  | 0 => s
  | n + 1 =>
    match s.machines[index]? with
    | none => s
    | some m => (s.round index m withheld).rounds index withheld n

/-- A traced run of a machine; only its first snapshot can drop an earlier one. -/
def run (s : Session) (index : Nat) (m : Machine StockPolicy) (withheld : Bool) : Session :=
  let storage? := s.shownStorage? withheld
  let traced := Recorder.run storage? { recorder := s.recorder, machine := m }
  let dropped := s.recorder.events (.before (s.snapshot m withheld))
  { ({ s with events := s.events ++ dropped }).moveMachine index m traced.machine with
    recorder := traced.recorder }

/-! ## Commands -/

/-- A call that the host makes on a machine of the session. -/
inductive MachineCommand where
  /-- A snapshot before a step. -/
  | before
  /-- A snapshot after a step. -/
  | after
  /-- A step that the recorder is not told about. -/
  | step
  /-- So many steps with snapshots on either side. -/
  | rounds (n : Nat)
  /-- A traced run. -/
  | run
  /-- A look at the machine. -/
  | capture
  /-- A word for the operand stack. -/
  | push (word : Word)
deriving DecidableEq

/-- A call that the host makes in a session. -/
inductive Command where
  /-- A call on a machine, which may withhold the storage from the recorder. -/
  | machine (index : Nat) (withheld : Bool) (command : MachineCommand)
  /-- The end of a step. -/
  | complete
  /-- The start of a call. -/
  | enter
  /-- The end of a call. -/
  | leave
  /-- A change of the storage. -/
  | setStorage (address : Address) (key value : Word)
deriving DecidableEq

/-- What a command gives back. -/
inductive Reply where
  /-- Nothing. -/
  | done
  /-- The status of a machine after its last step. -/
  | status (status : Status)
  /-- A snapshot. -/
  | snapshot (snapshot : Snapshot)
  /-- A fault of the operand stack. -/
  | fault (fault : Fault)
deriving DecidableEq

/-- The session after a command, and what the command gives back. -/
structure Performed where
  /-- The session after the command. -/
  session : Session
  /-- What the command gives back. -/
  reply : Reply

/-- The status of a machine of the session as a reply. -/
def statusReply (s : Session) (index : Nat) : Reply :=
  match s.machines[index]? with
  | some m => .status m.status
  | none => .done

/-- Carries out a call on a machine. -/
def performOn (s : Session) (index : Nat) (m : Machine StockPolicy) (withheld : Bool) :
    MachineCommand → Performed
  | .before =>
    { session := s.tellRecorder (.before (s.snapshot m withheld)), reply := .done }
  | .after =>
    { session := s.tellRecorder (.after (s.snapshot m withheld)), reply := .done }
  | .step =>
    let moved := s.moveMachine index m m.step
    { session := moved, reply := moved.statusReply index }
  | .rounds n =>
    let moved := s.rounds index withheld n
    { session := moved, reply := if n = 0 then .done else moved.statusReply index }
  | .run =>
    let moved := s.run index m withheld
    { session := moved, reply := moved.statusReply index }
  | .capture => { session := s, reply := .snapshot (s.snapshot m withheld) }
  | .push word =>
    let touched := m.touchStack (.push word)
    { session := s.moveMachine index m touched.machine
      reply :=
        match touched.answer with
        | .ok _ => .done
        | .error fault => .fault fault }

/-- Carries out a command; a call on a machine that is not there does nothing. -/
def perform (s : Session) : Command → Performed
  | .machine index withheld command =>
    match s.machines[index]? with
    | some m => s.performOn index m withheld command
    | none => { session := s, reply := .done }
  | .complete => { session := s.tellRecorder .complete, reply := .done }
  | .enter => { session := s.tellRecorder .enter, reply := .done }
  | .leave => { session := s.tellRecorder .leave, reply := .done }
  | .setStorage address key value =>
    { session := { s with storage := s.storage.set address key value }, reply := .done }

end Session

end Trace

end MeteredMachine
