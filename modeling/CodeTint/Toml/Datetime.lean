/-
# Dates and times of TOML

A date, a time, or both with a `T` or a blank between; a date with a time may have an offset from
universal time.  Only days and hours that exist are read.

**A fraction of a second counts up to nine digits**, what follows them is dropped.

The text of a date or a time (`Datetime.text`) has one spelling: a `T` between date and time, the
fraction without zeros at its end, and the offset in hours and minutes unless it is a `Z`.
-/

namespace CodeTint.Toml

/-! ## 1. Dates and times -/

/-- A day of a calendar. -/
structure Date where
  year : Nat
  month : Nat
  day : Nat
  deriving DecidableEq, Repr

/-- A time of day.  The second may be a leap second. -/
structure Time where
  hour : Nat
  minute : Nat
  second : Nat
  nanosecond : Nat
  deriving DecidableEq, Repr

/-- How far a time is from universal time. -/
inductive Offset where
  | zulu
  | ahead (minutes : Nat)
  | behind (minutes : Nat)
  deriving DecidableEq, Repr

/-- **A date, a time, or both.** -/
inductive Datetime where
  | date (d : Date)
  | time (t : Time)
  | both (d : Date) (t : Time) (offset : Option Offset)
  deriving DecidableEq, Repr

/-- Whether a year has a day more. -/
def isLeap (year : Nat) : Bool := year % 4 == 0 && (year % 100 != 0 || year % 400 == 0)

/-- The days of a month. -/
def daysOf (year month : Nat) : Nat :=
  if month = 2 then if isLeap year then 29 else 28
  else if month = 4 ∨ month = 6 ∨ month = 9 ∨ month = 11 then 30
  else 31

/-! ## 2. Their text -/

/-- A number in at least so many digits. -/
def padded (count n : Nat) : List Char :=
  let ds := Nat.toDigits 10 n
  List.replicate (count - ds.length) '0' ++ ds

def Date.text (d : Date) : List Char :=
  padded 4 d.year ++ '-' :: (padded 2 d.month ++ '-' :: padded 2 d.day)

/-- The fraction of a second without the zeros at its end. -/
def fractionText (nanosecond : Nat) : List Char :=
  if nanosecond = 0 then []
  else '.' :: ((padded 9 nanosecond).reverse.dropWhile (· == '0')).reverse

def Time.text (t : Time) : List Char :=
  padded 2 t.hour ++ ':' :: (padded 2 t.minute ++ ':' :: padded 2 t.second) ++
    fractionText t.nanosecond

/-- Hours and minutes. -/
def hoursText (minutes : Nat) : List Char :=
  padded 2 (minutes / 60) ++ ':' :: padded 2 (minutes % 60)

def Offset.text : Offset → List Char
  | .zulu => ['Z']
  | .ahead minutes => '+' :: hoursText minutes
  | .behind minutes => '-' :: hoursText minutes

/-- **The text of a date or a time.** -/
def Datetime.text : Datetime → String
  | .date d => String.ofList d.text
  | .time t => String.ofList t.text
  | .both d t offset => String.ofList (d.text ++ 'T' :: t.text ++ (offset.map Offset.text).getD [])

/-! ## 3. Reading -/

/-- The number that decimal digits write. -/
def decimalOf (ds : List Char) : Nat := ds.foldl (fun n c => n * 10 + (c.toNat - 48)) 0

/-- A number of so many digits within bounds, and what follows. -/
def bounded? (count least most : Nat) (s : List Char) : Option (Nat × List Char) :=
  let ds := s.take count
  let n := decimalOf ds
  if ds.length = count ∧ ds.all Char.isDigit ∧ least ≤ n ∧ n ≤ most then some (n, s.drop count)
  else none

/-- The text behind a character, if it begins with it. -/
def behind? (c : Char) : List Char → Option (List Char)
  | d :: s => if c = d then some s else none
  | [] => none

/-- A date. -/
def date? (s : List Char) : Option (Date × List Char) := do
  let (year, s) ← bounded? 4 0 9999 s
  let (month, s) ← bounded? 2 1 12 (← behind? '-' s)
  let (day, s) ← bounded? 2 1 (daysOf year month) (← behind? '-' s)
  some (⟨year, month, day⟩, s)

/-- The fraction of a second that begins a text, in nanoseconds; zero if there is none. -/
def nanoseconds (s : List Char) : Nat × List Char :=
  match s with
  | '.' :: r =>
    match r.takeWhile Char.isDigit with
    | [] => (0, s)
    | ds =>
      let kept := ds.take 9
      (decimalOf kept * Nat.pow 10 (9 - kept.length), r.drop ds.length)
  | _ => (0, s)

/-- A time of day. -/
def time? (s : List Char) : Option (Time × List Char) := do
  let (hour, s) ← bounded? 2 0 23 s
  let (minute, s) ← bounded? 2 0 59 (← behind? ':' s)
  let (second, s) ← bounded? 2 0 60 (← behind? ':' s)
  let (nanosecond, s) := nanoseconds s
  some (⟨hour, minute, second, nanosecond⟩, s)

/-- Hours and minutes, as minutes. -/
def hours? (s : List Char) : Option (Nat × List Char) := do
  let (hour, s) ← bounded? 2 0 23 s
  let (minute, s) ← bounded? 2 0 59 (← behind? ':' s)
  some (hour * 60 + minute, s)

/-- The offset that may begin a text. -/
def offset? (s : List Char) : Option (Option Offset × List Char) :=
  match s with
  | 'Z' :: r => some (some .zulu, r)
  | 'z' :: r => some (some .zulu, r)
  | '+' :: r => (hours? r).map fun (n, r) => (some (.ahead n), r)
  | '-' :: r => (hours? r).map fun (n, r) => (some (if n = 0 then .ahead 0 else .behind n), r)
  | _ => some (none, s)

/-- The text of the time behind a date: a blank leads to it only if a digit follows. -/
def timeBehind? : List Char → Option (List Char)
  | 'T' :: s => some s
  | 't' :: s => some s
  | ' ' :: d :: s => if d.isDigit then some (d :: s) else none
  | _ => none

/-- **A date, a time, or both**, and what follows. -/
def datetime? (s : List Char) : Option (Datetime × List Char) :=
  match date? s with
  | none => (time? s).map fun (t, r) => (.time t, r)
  | some (d, r) =>
    match timeBehind? r with
    | none => some (.date d, r)
    | some r => do
      let (t, r) ← time? r
      let (offset, r) ← offset? r
      some (.both d t offset, r)

/-- Whether a text begins like a date or a time: four digits and a dash, or two and a colon. -/
def beginsDatetime (s : List Char) : Bool :=
  match s with
  | a :: b :: ':' :: _ => a.isDigit && b.isDigit
  | a :: b :: c :: d :: '-' :: _ => a.isDigit && b.isDigit && c.isDigit && d.isDigit
  | _ => false

end CodeTint.Toml
