import MeteredMachine.Exit
import MeteredMachine.Gas.Schedule
import MeteredMachine.Word.Basic

/-!
# Operand stack

The stack holds at most 1024 words.  Its items lie from bottom to top; distances
are counted from the top.  An operation that fails gives a fault and no new stack,
so the caller keeps the old one.

Main definitions:

- Definitions {lit}`Stack.push`, {lit}`Stack.pop`, {lit}`Stack.peek`, {lit}`Stack.dup` and
  {lit}`Stack.swap` are the operations.
- Definition {lit}`Stack.perform` carries out a command of a host.
-/

namespace MeteredMachine

/-- The operand stack of a machine. -/
structure Stack where
  /-- The items from bottom to top. -/
  items : Array Word
deriving DecidableEq

namespace Stack

/-! ## Operations -/

/-- The stack without items. -/
def empty : Stack :=
  ⟨#[]⟩

instance : Inhabited Stack := ⟨empty⟩

/-- The number of items. -/
def size (s : Stack) : Nat :=
  s.items.size

/-- The top item, if there is one. -/
def top? (s : Stack) : Option Word :=
  s.items.back?

/-- Puts a word on top. -/
def push (s : Stack) (w : Word) : Except Fault Stack :=
  if s.size ≥ Schedule.maxStackSize then .error .stackOverflow else .ok ⟨s.items.push w⟩

/-- A popped word and the stack below it. -/
structure Popped where
  /-- The word that was on top. -/
  word : Word
  /-- The stack without it. -/
  rest : Stack
deriving DecidableEq

/-- Takes the top word off. -/
def pop (s : Stack) : Except Fault Popped :=
  match s.items.back? with
  | some word => .ok { word, rest := ⟨s.items.pop⟩ }
  | none => .error .stackUnderflow

/-- The word at a distance from the top, where the top is at distance zero. -/
def peek (s : Stack) (distance : Nat) : Except Fault Word :=
  if h : distance < s.items.size then .ok s.items[s.items.size - 1 - distance]
  else .error .stackUnderflow

/-- Puts a copy of the `k`-th item from the top on top, where the top is the first. -/
def dup (s : Stack) (k : Nat) : Except Fault Stack :=
  if h : 0 < k ∧ k ≤ s.items.size then
    if s.size ≥ Schedule.maxStackSize then .error .stackOverflow
    else .ok ⟨s.items.push s.items[s.items.size - k]⟩
  else .error .stackUnderflow

/-- Exchanges the top with the item at distance `k`. -/
def swap (s : Stack) (k : Nat) : Except Fault Stack :=
  if h : 0 < k ∧ k < s.items.size then
    .ok ⟨s.items.swap (s.items.size - 1) (s.items.size - 1 - k)⟩
  else .error .stackUnderflow

/-- Puts words on top one after the other, passing over those that do not fit. -/
def seed (s : Stack) (words : List Word) : Stack :=
  words.foldl (fun s w => (s.push w).toOption.getD s) s

/-! ## Commands -/

/-- A call that a host may make on a stack. -/
inductive Command where
  /-- Push a word. -/
  | push (word : Word)
  /-- Pop the top word. -/
  | pop
  /-- Look at the word at a distance. -/
  | peek (distance : Nat)
  /-- Copy the `k`-th item to the top. -/
  | dup (k : Nat)
  /-- Exchange the top with the item at distance `k`. -/
  | swap (k : Nat)
  /-- Remove all items. -/
  | clear
deriving DecidableEq

/-- The stack after a command, and the word it gave or the fault it failed with. -/
structure Performed where
  /-- The stack after the command. -/
  stack : Stack
  /-- The fault, or the word that a pop or a look gives. -/
  answer : Except Fault (Option Word)

/-- Carries out a command; a failed one leaves the stack as it was. -/
def perform (s : Stack) : Command → Performed
  | .push word =>
    match s.push word with
    | .ok stack => { stack, answer := .ok none }
    | .error fault => { stack := s, answer := .error fault }
  | .pop =>
    match s.pop with
    | .ok popped => { stack := popped.rest, answer := .ok (some popped.word) }
    | .error fault => { stack := s, answer := .error fault }
  | .peek distance => { stack := s, answer := (s.peek distance).map some }
  | .dup k =>
    match s.dup k with
    | .ok stack => { stack, answer := .ok none }
    | .error fault => { stack := s, answer := .error fault }
  | .swap k =>
    match s.swap k with
    | .ok stack => { stack, answer := .ok none }
    | .error fault => { stack := s, answer := .error fault }
  | .clear => { stack := empty, answer := .ok none }

end Stack

end MeteredMachine
