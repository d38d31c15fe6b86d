import MeteredMachine.Address

/-!
# Frame context

Who a frame runs as, who started it, and how deep it is nested.
-/

namespace MeteredMachine

/-- The surroundings of one frame. -/
structure Context where
  /-- The account whose code runs. -/
  address : Address
  /-- The account that started the frame. -/
  caller : Address
  /-- The nesting depth, zero for the outermost frame. -/
  depth : Nat
deriving DecidableEq

namespace Context

/-- The context of an outermost frame. -/
def outermost (address caller : Address) : Context :=
  { address, caller, depth := 0 }

instance : Inhabited Context := ⟨outermost .zero .zero⟩

/-- The context of a frame that is entered from this one. -/
def nested (context : Context) (address : Address) : Context :=
  { address, caller := context.address, depth := context.depth + 1 }

end Context

end MeteredMachine
