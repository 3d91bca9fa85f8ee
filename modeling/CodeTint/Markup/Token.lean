/-
# Tokens of a document

A document is read as a sequence of tokens, each of which keeps the characters it was written with.
So whatever is not changed can be written back as it was.

**Names are compared in lower case** (`Tag.key`, `Attr.key`) and written back as they stood.  Values
are kept as they stood, character references in them are not read.
-/
import CodeTint.Text.Blank

namespace CodeTint.Markup

open CodeTint.Text

/-! ## 1. Attributes -/

/-- **An attribute as it is written**: its name, what leads over to its value (blanks, the equals
sign, an opening quote), the value, and the closing quote.  Without a value the last three are
empty. -/
structure Attr where
  name : List Char
  gap : List Char
  value : List Char
  quote : List Char
  deriving DecidableEq, Repr

/-- The attribute in the spelling of the document. -/
def Attr.raw (a : Attr) : List Char := a.name ++ a.gap ++ a.value ++ a.quote

/-- The name that look-ups go by. -/
def Attr.key (a : Attr) : List Char := lower a.name

/-- An attribute that is only a name. -/
def Attr.bare (name : List Char) : Attr := ⟨name, [], [], []⟩

/-! ## 2. Start tags -/

/-- A start tag. `raw` is all of it, from `<` to `>`. -/
structure Tag where
  raw : List Char
  name : List Char
  attrs : List Attr
  selfClosing : Bool
  deriving DecidableEq, Repr

/-- The name that elements are matched by. -/
def Tag.key (t : Tag) : List Char := lower t.name

/-- **The value of an attribute**; the first one of that name counts. -/
def Tag.attr? (t : Tag) (key : List Char) : Option (List Char) :=
  (t.attrs.find? (fun a => a.key == key)).map Attr.value

/-! ## 3. Tokens -/

/-- A piece of a document.  `blank` is a stretch that stands for nothing: the fences of a CDATA
section, `</>`, and a tag that the end of the document cuts off. -/
inductive Token where
  | text (s : List Char)
  | start (t : Tag)
  | finish (raw name : List Char)
  | comment (raw : List Char)
  | doctype (raw : List Char)
  | blank (raw : List Char)
  deriving DecidableEq, Repr

/-- The token in the spelling of the document. -/
def Token.raw : Token → List Char
  | .text s => s
  | .start t => t.raw
  | .finish r _ => r
  | .comment r => r
  | .doctype r => r
  | .blank r => r

end CodeTint.Markup
