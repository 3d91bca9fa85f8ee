/-
# Cutting a text at byte offsets

Offsets count the bytes of the text's UTF-8 form.  A cut is only possible between two characters;
an offset inside a character, or past the end, gives nothing.
-/

namespace CodeTint.Text

/-- The text from byte `n` on. -/
def dropBytes? : Nat → List Char → Option (List Char)
  | 0, s => some s
  | _ + 1, [] => none
  | n + 1, c :: s => if c.utf8Size ≤ n + 1 then dropBytes? (n + 1 - c.utf8Size) s else none

/-- The first `n` bytes of the text. -/
def takeBytes? : Nat → List Char → Option (List Char)
  | 0, _ => some []
  | _ + 1, [] => none
  | n + 1, c :: s =>
    if c.utf8Size ≤ n + 1 then (takeBytes? (n + 1 - c.utf8Size) s).map (c :: ·) else none

/-- **The text from byte `a` up to byte `b`**, none if that is no stretch of whole characters. -/
def slice? (a b : Nat) (s : List Char) : Option (List Char) :=
  if a ≤ b then (dropBytes? a s).bind (takeBytes? (b - a)) else none

end CodeTint.Text
