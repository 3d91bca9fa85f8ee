/-
# Strings and numbers of TOML

Each reader takes a text that begins with what it reads and gives it with what follows, or nothing
if the text is not of that form.

* **Strings** come in four forms: in double quotes with escapes, in single quotes as they are, and
  both in tripled quotes over several lines.  A line end right behind the opening of a long form does
  not count, and a line end inside is one line feed however it was written.
* **Integers** fit into 64 bits with a sign.  Decimal ones do not begin with a zero, other bases have
  no sign.
* **Floats** have a fraction, an exponent or both.  One that is too large for any number is refused.
* An underscore may stand between two digits.
-/
import CodeTint.Toml.Value

namespace CodeTint.Toml

open CodeTint.Decimal

/-! ## 1. Characters -/

/-- The characters that comments and strings may hold as they are: no control characters but tab. -/
def isPlain (c : Char) : Bool := c == '\t' || (0x20 ≤ c.toNat && c.toNat ≠ 0x7F)

/-- Blanks within a line. -/
def isGap (c : Char) : Bool := c == ' ' || c == '\t'

/-- The text behind a line end, if it begins with one. -/
def afterLineEnd? : List Char → Option (List Char)
  | '\n' :: s => some s
  | '\r' :: '\n' :: s => some s
  | _ => none

/-- The value of a hexadecimal digit. -/
def hexDigit? (c : Char) : Option Nat :=
  if c.isDigit then some (c.toNat - 48)
  else if 'a' ≤ c ∧ c ≤ 'f' then some (c.toNat - 87)
  else if 'A' ≤ c ∧ c ≤ 'F' then some (c.toNat - 55)
  else none

/-! ## 2. Strings -/

/-- The character of so many hexadecimal digits, and what follows. -/
def codePoint? (count : Nat) (s : List Char) : Option (Char × List Char) := do
  let ds := s.take count
  if ds.length ≠ count then none
  let n ← ds.foldlM (fun n c => (hexDigit? c).map (n * 16 + ·)) 0
  if n.isValidChar then some (Char.ofNat n, s.drop count) else none

/-- What is behind a backslash. -/
def escape? : List Char → Option (Char × List Char)
  | 'b' :: s => some (Char.ofNat 8, s)
  | 't' :: s => some ('\t', s)
  | 'n' :: s => some ('\n', s)
  | 'f' :: s => some (Char.ofNat 12, s)
  | 'r' :: s => some ('\r', s)
  | '"' :: s => some ('"', s)
  | '\\' :: s => some ('\\', s)
  | 'u' :: s => codePoint? 4 s
  | 'U' :: s => codePoint? 8 s
  | _ => none

/-- The body of a string in double quotes, in a text of at most `fuel` characters. -/
def basicBody : Nat → List Char → Option (List Char × List Char)
  | 0, _ => none
  | _ + 1, [] => none
  | fuel + 1, c :: s =>
    if c = '"' then some ([], s)
    else if c = '\\' then do
      let (d, r) ← escape? s
      let (rest, r) ← basicBody fuel r
      some (d :: rest, r)
    else if isPlain c then (basicBody fuel s).map fun (rest, r) => (c :: rest, r)
    else none

/-- The body of a string in single quotes. -/
def literalBody (s : List Char) : Option (List Char × List Char) :=
  let body := s.takeWhile (fun c => c != '\'' && isPlain c)
  match s.drop body.length with
  | '\'' :: r => some (body, r)
  | _ => none

/-- Where a long string may end: with three quotes, up to two more before them belong to it. -/
def closeLong? (q : Char) (s : List Char) : Option (List Char × List Char) :=
  let n := (s.takeWhile (· == q)).length
  if 3 ≤ n then
    let kept := min (n - 3) 2
    some (List.replicate kept q, s.drop (kept + 3))
  else none

/-- The text behind a backslash at the end of a line: line ends and blanks up to the next other
character are left out. -/
def afterContinuation? (s : List Char) : Option (List Char) :=
  let r := s.dropWhile isGap
  (afterLineEnd? r).map fun r => r.dropWhile (fun c => isGap c || c == '\n' || c == '\r')

/-- The body of a long string; `escapes` says whether backslashes are read. -/
def longBody (q : Char) (escapes : Bool) : Nat → List Char → Option (List Char × List Char)
  | 0, _ => none
  | fuel + 1, s =>
    match closeLong? q s with
    | some r => some r
    | none =>
      match afterLineEnd? s with
      | some r => (longBody q escapes fuel r).map fun (rest, r) => ('\n' :: rest, r)
      | none =>
        match s with
        | [] => none
        | c :: s =>
          if c = '\\' ∧ escapes then
            match afterContinuation? s with
            | some r => longBody q escapes fuel r
            | none => do
              let (d, r) ← escape? s
              let (rest, r) ← longBody q escapes fuel r
              some (d :: rest, r)
          else if isPlain c then (longBody q escapes fuel s).map fun (rest, r) => (c :: rest, r)
          else none

/-- The body of a long string behind its opening. -/
def long (q : Char) (escapes : Bool) (s : List Char) : Option (List Char × List Char) :=
  longBody q escapes (s.length + 1) ((afterLineEnd? s).getD s)

/-- A string on one line. -/
def shortString? : List Char → Option (List Char × List Char)
  | '"' :: s => basicBody (s.length + 1) s
  | '\'' :: s => literalBody s
  | _ => none

/-- **A string.** -/
def string? : List Char → Option (List Char × List Char)
  | '"' :: '"' :: '"' :: s => long '"' true s
  | '\'' :: '\'' :: '\'' :: s => long '\'' false s
  | s => shortString? s

/-! ## 3. Numbers -/

/-- The digits that follow a digit, without the underscores between them, and what is behind them.
`digits` says which characters are digits. -/
def moreDigits (digits : Char → Bool) : List Char → List Char × List Char
  | [] => ([], [])
  | '_' :: d :: s =>
    if digits d then let (ds, r) := moreDigits digits s; (d :: ds, r) else ([], '_' :: d :: s)
  | c :: s => if digits c then let (ds, r) := moreDigits digits s; (c :: ds, r) else ([], c :: s)

/-- The digits that begin a text, and what is behind them. -/
def digitRun (digits : Char → Bool) : List Char → List Char × List Char
  | [] => ([], [])
  | c :: s => if digits c then let (ds, r) := moreDigits digits s; (c :: ds, r) else ([], c :: s)

/-- The number that digits write. -/
def natOf (base : Nat) (ds : List Char) : Nat :=
  ds.foldl (fun n c => n * base + (hexDigit? c).getD 0) 0

/-- An integer, if it fits. -/
def integer? (n : Int) : Option Value :=
  if -9223372036854775808 ≤ n ∧ n ≤ 9223372036854775807 then some (.integer n) else none

/-- A number in another base. -/
def based? (base : Nat) (digits : Char → Bool) (s : List Char) : Option (Value × List Char) :=
  match digitRun digits s with
  | ([], _) => none
  | (ds, r) => (integer? (natOf base ds)).map fun v => (v, r)

/-- The fraction that begins a text, if there is one. -/
def fraction? : List Char → Option (List Char × List Char)
  | '.' :: s =>
    match digitRun Char.isDigit s with
    | ([], _) => none
    | (ds, r) => some (ds, r)
  | _ => none

/-- The sign that begins a text: whether it is a minus, and what follows. -/
def sign (s : List Char) : Bool × List Char :=
  match s with
  | '-' :: r => (true, r)
  | '+' :: r => (false, r)
  | r => (false, r)

/-- The exponent that begins a text, if there is one. -/
def exponent? : List Char → Option (Int × List Char)
  | c :: s =>
    if c = 'e' ∨ c = 'E' then
      let (negative, s) := sign s
      match digitRun Char.isDigit s with
      | ([], _) => none
      | (ds, r) => some (if negative then -(natOf 10 ds : Int) else natOf 10 ds, r)
    else none
  | [] => none

/-- A float, unless it is too large. -/
def float? (x : Binary64) : Option Value :=
  if x = .infinite false then none else some (.float x)

/-- A decimal number without its sign. -/
def decimal? (negative : Bool) (s : List Char) : Option (Value × List Char) :=
  match digitRun Char.isDigit s with
  | ([], _) => none
  | (ds, r) =>
    let zeroLed := ds.head? = some '0' ∧ 1 < ds.length
    if zeroLed then none
    else
      let frac := fraction? r
      let r₁ := (frac.map Prod.snd).getD r
      let exp := exponent? r₁
      let r₂ := (exp.map Prod.snd).getD r₁
      match frac, exp with
      | none, none =>
        (integer? (if negative then -(natOf 10 ds : Int) else natOf 10 ds)).map fun v => (v, r)
      | _, _ =>
        let fs := (frac.map Prod.fst).getD []
        let power := (exp.map Prod.fst).getD 0 - fs.length
        (float? (.ofDecimal negative (natOf 10 (ds ++ fs)) power)).map fun v => (v, r₂)

/-- **A number.** -/
def number? : List Char → Option (Value × List Char)
  | '0' :: 'x' :: s => based? 16 (fun c => (hexDigit? c).isSome) s
  | '0' :: 'o' :: s => based? 8 (fun c => '0' ≤ c && c ≤ '7') s
  | '0' :: 'b' :: s => based? 2 (fun c => c == '0' || c == '1') s
  | s =>
    let (negative, r) := sign s
    match r with
    | 'i' :: 'n' :: 'f' :: r => some (.float (.infinite negative), r)
    | 'n' :: 'a' :: 'n' :: r => some (.float .nan, r)
    | _ => decimal? negative r

end CodeTint.Toml
