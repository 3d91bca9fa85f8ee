/-
# What becomes of a block

An `Engine` answers two questions: whether it recognizes a language, and how a source in a language
looks as markup.  `planBlock` asks it about one block.

1. The character references in the block's text are read.
2. The language is resolved.  Without one, nothing becomes of the block.
3. The source, trimmed and without a marker line that was used, is colorized.
4. If the class value with the language in it differs from the old one, it is the new class value.
-/
import CodeTint.Document.Block
import CodeTint.Language
import CodeTint.Markup.Entity
import CodeTint.Run

namespace CodeTint.Document

open CodeTint.Markup

/-- **Who recognizes and colorizes**, keeping a state. -/
structure Engine (σ : Type) where
  recognizes : List Char → Run σ Bool
  colorize : (source language : List Char) → Run σ (List Char)

/-- What goes into a block: a new class value, if it changes, and the content. -/
structure Replacement where
  cls : Option (List Char)
  fragment : List Char
  deriving DecidableEq, Repr

variable {σ : Type}

/-- The new class value, if it differs from the old one. -/
def newClass (old : Option (List Char)) (language : List Char) : Option (List Char) :=
  let new := Language.ensureClass old language
  if old = some new then none else some new

/-- **What becomes of a block**; none if it stays as it is. -/
def planBlock (e : Engine σ) (b : Block) : Run σ (Option Replacement) := do
  let text := Entity.decode b.text
  match ← Language.resolve e.recognizes b.cls text with
  | none => pure none
  | some r =>
    let fragment ← e.colorize (Language.source r.origin text) r.name
    pure (some ⟨newClass b.cls r.name, fragment⟩)

end CodeTint.Document
