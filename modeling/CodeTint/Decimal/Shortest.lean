/-
# The shortest decimal number that reads back

Many decimal numbers read back as one binary number: those in the interval up to half way to its
neighbours, the ends counting if the mantissa is even.  `shortest` takes **the fewest digits that
reach into the interval, and of those the nearest to the number**.

With a given number of digits only two candidates matter, the number's neighbours on that decimal
grid: if any point of the grid lies in the interval, one of them does.  So one digit is tried first,
then two, and so on; with seventeen a neighbour always hits.

`text` writes it out with a point and without an exponent.  A whole number has no point.
-/
import CodeTint.Decimal.Binary64

namespace CodeTint.Decimal

/-! ## 1. Exact comparisons -/

/-- A positive number as a fraction, with the ends of the interval that reads back as it, all over
one denominator. -/
structure Interval where
  low : Nat
  value : Nat
  high : Nat
  den : Nat
  closed : Bool

/-- **The interval of the decimals that read back** as `mantissa · 2 ^ exponent`.  Below a power of
two the neighbour is only half as far away. -/
def interval (mantissa : Nat) (exponent : Int) : Interval :=
  let up := if exponent < 0 then 1 else Nat.pow 2 exponent.natAbs
  let down := if exponent < 0 then Nat.pow 2 exponent.natAbs else 1
  let narrow := mantissa = Nat.pow 2 (Binary64.precision - 1) ∧ Binary64.minExponent < exponent
  ⟨(4 * mantissa - (if narrow then 1 else 2)) * up, 4 * mantissa * up, (4 * mantissa + 2) * up,
    4 * down, mantissa % 2 == 0⟩

/-- `digits · 10 ^ power` and the interval, over one denominator. -/
def Interval.scaled (i : Interval) (digits : Nat) (power : Int) : Nat × Interval :=
  if 0 ≤ power then (digits * Nat.pow 10 power.natAbs * i.den, i)
  else
    let t := Nat.pow 10 power.natAbs
    (digits * i.den, { i with low := i.low * t, value := i.value * t, high := i.high * t })

/-- Whether a decimal number lies in the interval. -/
def Interval.has (i : Interval) (digits : Nat) (power : Int) : Bool :=
  let (x, j) := i.scaled digits power
  if j.closed then j.low ≤ x && x ≤ j.high else j.low < x && x < j.high

/-- How far a decimal number is from the value, in units that depend on the power only. -/
def Interval.distance (i : Interval) (digits : Nat) (power : Int) : Nat :=
  let (x, j) := i.scaled digits power
  if x ≤ j.value then j.value - x else x - j.value

/-- The value divided by a power of ten, rounded down. -/
def Interval.floor (i : Interval) (power : Int) : Nat :=
  if 0 ≤ power then i.value / (i.den * Nat.pow 10 power.natAbs)
  else i.value * Nat.pow 10 power.natAbs / i.den

/-- How many digits a whole number has. -/
def digitCount (n : Nat) : Nat := (Nat.toDigits 10 n).length

/-- The power of ten just above the value. -/
def Interval.magnitude (i : Interval) : Int :=
  let k : Int := (digitCount i.value : Int) - (digitCount i.den : Int)
  let below :=
    if 0 ≤ k then i.value < i.den * Nat.pow 10 k.natAbs
    else i.value * Nat.pow 10 k.natAbs < i.den
  if below then k else k + 1

/-! ## 2. The search -/

/-- The neighbour with so many digits that reads back, the nearer of two and the upper if they are
equally near. -/
def Interval.neighbour? (i : Interval) (count : Nat) : Option (Nat × Int) :=
  let power := i.magnitude - count
  let d := i.floor power
  match i.has d power, i.has (d + 1) power with
  | true, true =>
    if i.distance d power < i.distance (d + 1) power then some (d, power) else some (d + 1, power)
  | true, false => some (d, power)
  | false, true => some (d + 1, power)
  | false, false => none

/-- The digit counts that are tried, in order. -/
def digitCounts : List Nat := (List.range 17).map (· + 1)

/-- **The shortest decimal number** `digits · 10 ^ power` that reads back. -/
def shortest (mantissa : Nat) (exponent : Int) : Nat × Int :=
  let i := interval mantissa exponent
  (digitCounts.findSome? i.neighbour?).getD (i.floor (i.magnitude - 17), i.magnitude - 17)

/-! ## 3. Writing -/

/-- A number without the zeros at its end, and the power of ten that makes up for them. -/
def dropZeros : Nat → Nat → Int → Nat × Int
  | 0, d, p => (d, p)
  | fuel + 1, d, p => if d ≠ 0 ∧ d % 10 = 0 then dropZeros fuel (d / 10) (p + 1) else (d, p)

/-- **`digits · 10 ^ power` written out**, without an exponent. -/
def positional (digits : Nat) (power : Int) : List Char :=
  let (d, p) := dropZeros 20 digits power
  let s := Nat.toDigits 10 d
  if 0 ≤ p then s ++ List.replicate p.natAbs '0'
  else
    let places := p.natAbs
    let padded := List.replicate (places + 1 - s.length) '0' ++ s
    padded.take (padded.length - places) ++ '.' :: padded.drop (padded.length - places)

/-- **The text of a number**: the shortest that reads back. -/
def Binary64.text : Binary64 → List Char
  | .nan => "NaN".toList
  | .infinite negative => (if negative then ['-'] else []) ++ "inf".toList
  | .finite negative m e =>
    (if negative then ['-'] else []) ++
      if m = 0 then ['0'] else let (d, p) := shortest m e; positional d p

end CodeTint.Decimal
