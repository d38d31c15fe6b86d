import MeteredMachine.Trace.Entry

/-!
# Call forests

The entries of a frame come one after the other, and below each entry come the
entries of the calls that it made.  A forest is either empty or has a first entry,
the forest of the calls below that entry, and the forest of the entries after it.

Main definitions:

- Type {lit}`Trace.CallForest`.
- Definition {lit}`Trace.CallForest.attach` hangs the entries of a call below the last
  entry of the caller.
- Definition {lit}`Trace.CallForest.flatten` lists all entries, each in front of those
  below it.
-/

namespace MeteredMachine

namespace Trace

/-- The entries of a frame with those of its calls. -/
inductive CallForest where
  /-- No entries. -/
  | nil
  /-- A first entry, the entries of its calls, and the entries after it. -/
  | node (entry : Entry) (calls rest : CallForest)
deriving DecidableEq

namespace CallForest

instance : Inhabited CallForest := ⟨nil⟩

/-- One forest behind another. -/
def append : CallForest → CallForest → CallForest
  | nil, after => after
  | node entry calls rest, after => node entry calls (rest.append after)

instance : Append CallForest := ⟨append⟩

/-- A forest with one more entry at its end. -/
def push (f : CallForest) (entry : Entry) : CallForest :=
  f ++ node entry nil nil

/-- Hangs the entries of a call below the last entry of the caller; a caller without
entries takes them over as its own. -/
def attach : CallForest → CallForest → CallForest
  | nil, call => call
  | node entry calls nil, call => node entry (calls ++ call) nil
  | node entry calls (node next calls' rest), call =>
    node entry calls ((node next calls' rest).attach call)

/-- All entries, each in front of those below it. -/
def flatten : CallForest → List Entry
  | nil => []
  | node entry calls rest => entry :: (calls.flatten ++ rest.flatten)

/-- An entry of a frame and the entries of its calls. -/
structure Root where
  /-- The entry. -/
  entry : Entry
  /-- The entries of its calls. -/
  calls : CallForest
deriving DecidableEq

/-- The entries of the frame itself, with the forests below them. -/
def roots : CallForest → List Root
  | nil => []
  | node entry calls rest => ⟨entry, calls⟩ :: rest.roots

/-- The number of entries of the frame itself. -/
def size (f : CallForest) : Nat :=
  f.roots.length

/-- Appending forests appends their flat lists. -/
@[simp] theorem flatten_append (f g : CallForest) :
    (f ++ g).flatten = f.flatten ++ g.flatten := by
  show (f.append g).flatten = _
  induction f with
  | nil => rfl
  | node entry calls rest _ ih => simp [append, flatten, ih]

/-- A pushed entry comes last in the flat list. -/
@[simp] theorem flatten_push (f : CallForest) (entry : Entry) :
    (f.push entry).flatten = f.flatten ++ [entry] := by
  simp [push, flatten]

/-- The entries of an attached call come last in the flat list. -/
@[simp] theorem flatten_attach (f call : CallForest) :
    (f.attach call).flatten = f.flatten ++ call.flatten := by
  fun_induction attach f call with
  | case1 call => rfl
  | case2 call entry calls => simp [flatten]
  | case3 call entry calls next calls' rest ih => simp [flatten, ih]

end CallForest

end Trace

end MeteredMachine
