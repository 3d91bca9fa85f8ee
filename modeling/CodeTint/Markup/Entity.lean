/-
# Character references

Text in a document writes `<` as `&lt;`.  `decode` reads such references, `encode` writes the three
that text between tags needs.

**A reference ends at its semicolon.**  From an ampersand, reading runs to the next `;` or `&`,
whichever comes first.  A second ampersand starts over, so the first one was plain; a stretch that
ends in `;` but names nothing stays as it is, semicolon included; at the end of the text nothing
more is read.  What a reference stands for is not read again.
-/
import CodeTint.Markup.Entity.Named

namespace CodeTint.Markup.Entity

/-! ## 1. What a reference stands for -/

/-- The value of a digit in the given base, up to sixteen. -/
def digit? (base : Nat) (c : Char) : Option Nat :=
  let v :=
    if '0' ≤ c ∧ c ≤ '9' then c.toNat - 48
    else if 'a' ≤ c ∧ c ≤ 'f' then c.toNat - 87
    else if 'A' ≤ c ∧ c ≤ 'F' then c.toNat - 55
    else base
  if v < base then some v else none

/-- The number that a text of digits writes; there has to be a digit. -/
def number? (base : Nat) : List Char → Option Nat
  | [] => none
  | s => s.foldlM (fun n c => (digit? base c).map (n * base + ·)) 0

/-- **The character of a number.**  Surrogates and numbers past U+10FFFF are none, and of the
control characters below U+0020 only tab, line feed, form feed and carriage return are one. -/
def scalar? (n : Nat) : Option Char :=
  if n < 0x20 ∧ n ∉ [0x09, 0x0A, 0x0C, 0x0D] then none
  else if n.isValidChar then some (Char.ofNat n)
  else none

/-- The text of a named reference. -/
def named? : List Char → Option (List Char)
  | ['l', 't'] => some ['<']
  | ['g', 't'] => some ['>']
  | ['a', 'm', 'p'] => some ['&']
  | ['q', 'u', 'o', 't'] => some ['"']
  | ['a', 'p', 'o', 's'] => some ['\'']
  | [] => none
  | c :: r => ((rowsFor c).lookup (String.ofList (c :: r))).map String.toList

/-- **The text that stands for what is written between `&` and `;`.** -/
def value? : List Char → Option (List Char)
  | '#' :: 'x' :: ds => ((number? 16 ds).bind scalar?).map ([·])
  | '#' :: 'X' :: ds => ((number? 16 ds).bind scalar?).map ([·])
  | '#' :: ds => ((number? 10 ds).bind scalar?).map ([·])
  | name => named? name

/-! ## 2. Reading -/

/-- The stretch behind an ampersand that may be a reference. -/
def stretch (s : List Char) : List Char := s.takeWhile (fun c => c != '&' && c != ';')

/-- What follows that stretch. -/
def afterStretch (s : List Char) : List Char := s.dropWhile (fun c => c != '&' && c != ';')

theorem afterStretch_length_le (s : List Char) : (afterStretch s).length ≤ s.length :=
  (List.dropWhile_suffix _).length_le

/-- **The text with its references read.** -/
def decode : List Char → List Char
  | [] => []
  | '&' :: r =>
    match _h : afterStretch r with
    | ';' :: rest =>
      (match value? (stretch r) with
        | some text => text
        | none => '&' :: stretch r ++ [';']) ++ decode rest
    | rest => '&' :: stretch r ++ decode rest
  | c :: r => c :: decode r
termination_by s => s.length
decreasing_by
  all_goals have hr := afterStretch_length_le r
  all_goals simp_all
  all_goals omega

/-! ## 3. Writing -/

/-- A character of text as markup writes it. -/
def encodeChar : Char → List Char
  | '&' => "&amp;".toList
  | '<' => "&lt;".toList
  | '>' => "&gt;".toList
  | c => [c]

/-- **The text as it stands between tags.** -/
def encode (s : List Char) : List Char := s.flatMap encodeChar

end CodeTint.Markup.Entity
