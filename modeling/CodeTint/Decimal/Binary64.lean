/-
# Numbers of the format binary64

A finite number is a whole number of at most 53 bits times a power of two.  `ofDecimal` gives the
one that is nearest to a decimal number, the even one of two that are equally near; what is too
large becomes infinite.  Everything is done with whole numbers, so nothing is lost on the way.
-/

namespace CodeTint.Decimal

/-- **A number of the format binary64**: `mantissa · 2 ^ exponent`, an infinity, or none at all. -/
inductive Binary64 where
  | finite (negative : Bool) (mantissa : Nat) (exponent : Int)
  | infinite (negative : Bool)
  | nan
  deriving DecidableEq, Repr

namespace Binary64

/-- The least exponent that a number is written with. -/
def minExponent : Int := -1074

/-- The greatest exponent. -/
def maxExponent : Int := 971

/-- How many bits a mantissa has at most. -/
def precision : Nat := 53

/-- A quotient rounded to the nearest whole number, to the even one of two. -/
def roundDiv (num den : Nat) : Nat :=
  let q := num / den
  let r := num % den
  if 2 * r < den ∨ (2 * r = den ∧ q % 2 = 0) then q else q + 1

/-- `num / den` divided by a power of two, as numerator and denominator. -/
def shifted (num den : Nat) (exponent : Int) : Nat × Nat :=
  if exponent < 0 then (num * Nat.pow 2 exponent.natAbs, den)
  else (num, den * Nat.pow 2 exponent.natAbs)

/-- The exponent that a quotient is written with: the least for which the mantissa has not too many
bits. -/
def exponentFor (num den : Nat) : Int :=
  let guess : Int := (num.log2 : Int) - (den.log2 : Int) - precision
  let e := max guess minExponent
  let (n, d) := shifted num den e
  if n / d < Nat.pow 2 precision then e else e + 1

/-- **The number nearest to a quotient.** -/
def ofRatio (negative : Bool) (num den : Nat) : Binary64 :=
  if num = 0 then .finite negative 0 minExponent
  else
    let e := exponentFor num den
    let (n, d) := shifted num den e
    let m := roundDiv n d
    let (m, e) := if m = Nat.pow 2 precision then (Nat.pow 2 (precision - 1), e + 1) else (m, e)
    if maxExponent < e then .infinite negative else .finite negative m e

/-- **The number nearest to `digits · 10 ^ power`.**  Where the power alone decides, nothing is
computed. -/
def ofDecimal (negative : Bool) (digits : Nat) (power : Int) : Binary64 :=
  if digits = 0 then .finite negative 0 minExponent
  else if 400 < power then .infinite negative
  else if power + (digits.log2 : Int) < -1200 then .finite negative 0 minExponent
  else if 0 ≤ power then ofRatio negative (digits * Nat.pow 10 power.natAbs) 1
  else ofRatio negative digits (Nat.pow 10 power.natAbs)

end Binary64

end CodeTint.Decimal
