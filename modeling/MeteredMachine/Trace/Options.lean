import MeteredMachine.Json.Reader
import MeteredMachine.Json.Value

/-!
# Trace options

Nine switches say what a recorder keeps and how a trace is shown; all of them are
off by default, and none changes how a machine runs.  They are written as a JSON
object with one member per switch.  Reading is strict: each switch may be named
once, no other name may occur, and every value is a truth value.  A JSON list of
truth values is read too, as the switches in their order.

Main definitions:

- Structure {lit}`Trace.Options` and type {lit}`Trace.Switch`.
- Definitions {lit}`Trace.Options.ofJson` and {lit}`Trace.Options.toJson`.
-/

namespace MeteredMachine

namespace Trace

/-- What a recorder keeps and how a trace is shown. -/
structure Options where
  /-- Entries of sub-calls hang below the entry that made the call. -/
  callTrace : Bool := false
  /-- The fixed and the variable part of each cost are kept. -/
  gasCalculation : Bool := false
  /-- Only the stack items that a step takes and gives are kept. -/
  stackInOut : Bool := false
  /-- Stack, memory and storage are left out where a step does not change them. -/
  hideUnchanged : Bool := false
  /-- Memory is never kept. -/
  hideMemory : Bool := false
  /-- The whole stack is never kept. -/
  hideStack : Bool := false
  /-- Storage is never kept. -/
  hideStorage : Bool := false
  /-- Storage values are shown in hexadecimal. -/
  storageValueAsHex : Bool := false
  /-- Instructions are shown as their bytes. -/
  opcodeAsHex : Bool := false
deriving DecidableEq, Repr

instance : Inhabited Options := ⟨{}⟩

/-- The names of the switches. -/
inductive Switch where
  /-- The switch for the call tree. -/
  | callTrace
  /-- The switch for the parts of the cost. -/
  | gasCalculation
  /-- The switch for the stack items of a step. -/
  | stackInOut
  /-- The switch for leaving out what does not change. -/
  | hideUnchanged
  /-- The switch against memory. -/
  | hideMemory
  /-- The switch against the stack. -/
  | hideStack
  /-- The switch against storage. -/
  | hideStorage
  /-- The switch for hexadecimal storage values. -/
  | storageValueAsHex
  /-- The switch for hexadecimal instructions. -/
  | opcodeAsHex
deriving DecidableEq, Repr

namespace Switch

/-- The switches in their order. -/
def all : List Switch :=
  [callTrace, gasCalculation, stackInOut, hideUnchanged, hideMemory, hideStack, hideStorage,
    storageValueAsHex, opcodeAsHex]

/-- The name of a switch in JSON. -/
def key : Switch → String
  | callTrace => "callTrace"
  | gasCalculation => "gasCalculation"
  | stackInOut => "stackInOut"
  | hideUnchanged => "hideUnchanged"
  | hideMemory => "hideMemory"
  | hideStack => "hideStack"
  | hideStorage => "hideStorage"
  | storageValueAsHex => "storageValueAsHex"
  | opcodeAsHex => "opcodeAsHex"

/-- The switch of a name. -/
def ofKey? (name : String) : Option Switch :=
  all.find? fun switch => switch.key == name

end Switch

namespace Options

/-- The value of a switch. -/
def get (o : Options) : Switch → Bool
  | .callTrace => o.callTrace
  | .gasCalculation => o.gasCalculation
  | .stackInOut => o.stackInOut
  | .hideUnchanged => o.hideUnchanged
  | .hideMemory => o.hideMemory
  | .hideStack => o.hideStack
  | .hideStorage => o.hideStorage
  | .storageValueAsHex => o.storageValueAsHex
  | .opcodeAsHex => o.opcodeAsHex

/-- The options in which a switch has a value. -/
def set (o : Options) (switch : Switch) (value : Bool) : Options :=
  match switch with
  | .callTrace => { o with callTrace := value }
  | .gasCalculation => { o with gasCalculation := value }
  | .stackInOut => { o with stackInOut := value }
  | .hideUnchanged => { o with hideUnchanged := value }
  | .hideMemory => { o with hideMemory := value }
  | .hideStack => { o with hideStack := value }
  | .hideStorage => { o with hideStorage := value }
  | .storageValueAsHex => { o with storageValueAsHex := value }
  | .opcodeAsHex => { o with opcodeAsHex := value }

/-- A switch that was set has its value, and the other switches keep theirs. -/
@[simp] theorem get_set (o : Options) (s t : Switch) (value : Bool) :
    (o.set s value).get t = if t = s then value else o.get t := by
  cases s <;> cases t <;> rfl

/-- Options are determined by their switches. -/
theorem ext_get {a b : Options} (h : ∀ s, a.get s = b.get s) : a = b := by
  cases a
  cases b
  have h1 := h .callTrace
  have h2 := h .gasCalculation
  have h3 := h .stackInOut
  have h4 := h .hideUnchanged
  have h5 := h .hideMemory
  have h6 := h .hideStack
  have h7 := h .hideStorage
  have h8 := h .storageValueAsHex
  have h9 := h .opcodeAsHex
  simp only [get] at h1 h2 h3 h4 h5 h6 h7 h8 h9
  simp only [h1, h2, h3, h4, h5, h6, h7, h8, h9]

/-! ## Writing -/

/-- The JSON object of the options, one member per switch in their order. -/
def toJson (o : Options) : Json :=
  .object (Switch.all.map fun switch => (switch.key, .bool (o.get switch)))

/-! ## Reading -/

open Json (Failure Result Read skipBlanks)

/-- The failure of a name that is no switch. -/
def unknownName (name : String) (rest : List Char) : Failure :=
  .mismatch ("unknown field `" ++ name ++ "`, expected one of " ++
    ", ".intercalate (Switch.all.map fun switch => "`" ++ switch.key ++ "`")) rest

/-- The failure of a switch that is named again. -/
def repeatedName (name : String) (rest : List Char) : Failure :=
  .mismatch ("duplicate field `" ++ name ++ "`") rest

/-- What is left when a name is refused: the blanks behind it count as read, and so
does a closing brace behind them. -/
def afterRefusedName (rest : List Char) : List Char :=
  match skipBlanks rest with
  | [] => []
  | c :: r => if c = Char.ofNat 0x7d then r else c :: r

/-- The name and the value of a member. -/
structure Member where
  /-- The switch that the member names. -/
  switch : Switch
  /-- The value of the switch. -/
  value : Bool

/-- Reads the colon and the truth value of a member. -/
def readMemberValue (switch : Switch) (rest : List Char) : Result Member :=
  match skipBlanks rest with
  | [] => .error .ended
  | ':' :: r =>
    match Json.readBool r with
    | .ok read => .ok { value := ⟨switch, read.value⟩, rest := read.rest }
    | .error failure => .error failure
  | _ => .error .malformed

/-- Reads a member from behind the opening quote of its name.  A switch among `seen`
is refused before its value is looked at. -/
def readMember (seen : List Switch) (rest : List Char) : Result Member :=
  match Json.readString rest with
  | .error failure => .error failure
  | .ok read =>
    let name := String.ofList read.value
    match Switch.ofKey? name with
    | none => .error (unknownName name (afterRefusedName read.rest))
    | some switch =>
      if switch ∈ seen then .error (repeatedName name (afterRefusedName read.rest))
      else readMemberValue switch read.rest

/-- The place inside an object where a member may start. -/
inductive Place where
  /-- Behind the opening brace. -/
  | first
  /-- Behind a member. -/
  | later
deriving DecidableEq, Repr

/-- Where an object goes on. -/
inductive Next where
  /-- A member starts; the characters behind its opening quote are left. -/
  | member (rest : List Char)
  /-- The object is closed. -/
  | closed (rest : List Char)

/-- Finds the next member or the end of an object. -/
def nextMember (place : Place) (rest : List Char) : Except Failure Next :=
  match skipBlanks rest with
  | [] => .error .ended
  | c :: r =>
    if c = Char.ofNat 0x7d then .ok (.closed r)
    else
      match place with
      | .first => if c = '"' then .ok (.member r) else .error .malformed
      | .later =>
        if c = ',' then
          match skipBlanks r with
          | [] => .error .ended
          | '"' :: r' => .ok (.member r')
          | _ => .error .malformed
        else .error .malformed

/-- Reads the members of an object up to its end.  Each member has a switch of its
own, so there are never more rounds than switches and one for the end. -/
def readMembers : Nat → Place → List Switch → Options → List Char → Result Options
  | 0, _, _, _, _ => .error .malformed
  | rounds + 1, place, seen, o, rest =>
    match nextMember place rest with
    | .error failure => .error failure
    | .ok (.closed r) => .ok { value := o, rest := r }
    | .ok (.member r) =>
      match readMember seen r with
      | .error failure => .error failure
      | .ok read =>
        readMembers rounds .later (read.value.switch :: seen)
          (o.set read.value.switch read.value.value) read.rest

/-- Where a list goes on. -/
inductive NextItem where
  /-- An item starts. -/
  | item (rest : List Char)
  /-- The list is closed. -/
  | closed (rest : List Char)

/-- Finds the next item or the end of a list. -/
def nextItem (place : Place) (rest : List Char) : Except Failure NextItem :=
  match skipBlanks rest with
  | [] => .error .ended
  | ']' :: r => .ok (.closed r)
  | c :: r =>
    match place with
    | .first => .ok (.item (c :: r))
    | .later =>
      if c = ',' then
        match skipBlanks r with
        | [] => .error .ended
        | ']' :: _ => .error .malformed
        | r' => .ok (.item r')
      else .error .malformed

/-- Reads the end of a list. -/
def readListEnd (o : Options) (rest : List Char) : Result Options :=
  match skipBlanks rest with
  | [] => .error .ended
  | ']' :: r => .ok { value := o, rest := r }
  | _ => .error .malformed

/-- Reads truth values for the switches in their order; a list may end early. -/
def readItems : List Switch → Place → Options → List Char → Result Options
  | [], _, o, rest => readListEnd o rest
  | switch :: switches, place, o, rest =>
    match nextItem place rest with
    | .error failure => .error failure
    | .ok (.closed r) => .ok { value := o, rest := r }
    | .ok (.item r) =>
      match Json.readBool r with
      | .error failure => .error failure
      | .ok read => readItems switches .later (o.set switch read.value) read.rest

/-- Reads options, with blanks in front. -/
def read (rest : List Char) : Result Options :=
  match skipBlanks rest with
  | [] => .error .ended
  | '[' :: r => readItems Switch.all .first {} r
  | c :: r =>
    if c = Char.ofNat 0x7b then readMembers (Switch.all.length + 1) .first [] {} r
    else .error (Json.unexpected "struct TracerConfig" (c :: r))

/-- What stands in front of the message of an error in options. -/
def errorLead : String :=
  "invalid tracer config: "

/-- Reads options from JSON text. -/
def ofJson (text : String) : Except Json.Error Options :=
  match Json.readWhole read text with
  | .error (.mismatch message) => .error (.mismatch (errorLead ++ message))
  | .error error => .error error
  | .ok o => .ok o

end Options

end Trace

end MeteredMachine
