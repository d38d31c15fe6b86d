/-!
# Gas schedule

The prices that cost rules refer to, and the limits of a machine.
-/

namespace MeteredMachine

namespace Schedule

/-! ## Price tiers -/

/-- The price of an instruction that is free. -/
def zero : UInt64 := 0

/-- The price of reading a machine register. -/
def base : UInt64 := 2

/-- The price of the cheapest arithmetic and of stack movement. -/
def veryLow : UInt64 := 3

/-- The price of multiplication and division. -/
def low : UInt64 := 5

/-- The price of a jump. -/
def mid : UInt64 := 8

/-- The price of a conditional jump. -/
def high : UInt64 := 10

/-- The price of passing a jump destination. -/
def jumpDest : UInt64 := 1

/-- The fixed part of the price of an exponentiation. -/
def exp : UInt64 := 10

/-- The price of each byte of an exponent. -/
def expByte : UInt64 := 50

/-- The linear price of a word of memory. -/
def memory : UInt64 := 3

/-- The divisor of the quadratic part of the memory price. -/
def memoryQuadDivisor : UInt64 := 512

/-! ## Limits -/

/-- The deepest nesting of frames. -/
def maxCallDepth : Nat := 1024

/-- The largest number of items on a stack. -/
def maxStackSize : Nat := 1024

/-- The largest memory size in bytes that can be addressed. -/
def maxMemorySize : Nat := 4294967295

end Schedule

end MeteredMachine
