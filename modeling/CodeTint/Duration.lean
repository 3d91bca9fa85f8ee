/-
# Spans of time

A span of time is a whole number of nanoseconds.  Settings and messages speak of milliseconds; going
back to them drops what is below one.
-/

namespace CodeTint

/-- A span of time. -/
structure Duration where
  nanos : Nat
  deriving DecidableEq, Repr, Inhabited

/-- A span of so many milliseconds. -/
def Duration.ofMillis (ms : Nat) : Duration := ⟨ms * 1000000⟩

/-- The whole milliseconds of a span. -/
def Duration.millis (d : Duration) : Nat := d.nanos / 1000000

/-- **The span in seconds**, as a floating-point number: the whole seconds plus the rest. -/
def Duration.seconds (d : Duration) : Float :=
  (d.nanos / 1000000000).toFloat + (d.nanos % 1000000000).toFloat / 1000000000.0

end CodeTint
