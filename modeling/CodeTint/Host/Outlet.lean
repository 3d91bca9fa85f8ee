/-
# Where output goes

An `Outlet` takes what is written to it, or only some of it, and then writing fails.

**Output is buffered by the line** (`Outlet.print`).  What there is up to the last line feed goes out
at once.  The rest waits in a buffer, if it fits in there, and goes out when the program ends; **then
nobody is there any more to be told that it was not taken**.
-/

namespace CodeTint

/-- **What takes output**: how many bytes it takes of those that it is offered, after those that it has
taken. -/
structure Outlet where
  takes : (taken offered : List UInt8) → Nat

namespace Outlet

/-- One that takes all. -/
def boundless : Outlet := ⟨fun _ offered => offered.length⟩

/-- One that takes nothing. -/
def full : Outlet := ⟨fun _ _ => 0⟩

/-- **Writes bytes**: all that is taken then, and whether these were. -/
def write (o : Outlet) (taken bytes : List UInt8) : List UInt8 × Bool :=
  (taken ++ bytes.take (o.takes taken bytes), bytes.length ≤ o.takes taken bytes)

/-- The size of the buffer. -/
def bufferSize : Nat := 1024

/-- What is behind the last line feed. -/
def lastLine (bytes : List UInt8) : List UInt8 := (bytes.reverse.takeWhile (· != 10)).reverse

/-- What is up to the last line feed. -/
def lines (bytes : List UInt8) : List UInt8 := (bytes.reverse.dropWhile (· != 10)).reverse

/-- **Prints bytes**: all that is taken in the end, and whether printing went well as far as the program
is told. -/
def print (o : Outlet) (bytes : List UInt8) : List UInt8 × Bool :=
  match o.write [] (lines bytes) with
  | (taken, false) => (taken, false)
  | (taken, true) =>
    let (taken, complete) := o.write taken (lastLine bytes)
    (taken, complete || (lastLine bytes).length < bufferSize)

end Outlet

end CodeTint
