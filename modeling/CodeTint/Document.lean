/-
# Colorizing a document

The document is read twice.  The first time only collects its blocks.  Then it is decided block by
block, in the order of the document, what becomes of each, so **an error comes up before anything is
written**.  The second time puts the outcome in place.
-/
import CodeTint.Document.Merge
import CodeTint.Options

namespace CodeTint.Document

/-- **A document with its blocks colorized**, how many were, and how many were left alone because no
language could be told. -/
structure Colorized where
  html : List Char
  colorized : Nat
  skipped : Nat
  deriving DecidableEq, Repr

variable {σ : Type}

/-- How many blocks a plan leaves alone. -/
def skippedIn (plan : List (Option Replacement)) : Nat := plan.countP Option.isNone

/-- **Colorizes every block of a document.** -/
def colorize (e : Engine σ) (o : Options) (doc : List Char) : Run σ Colorized := do
  let blocks ← Run.ofReading (collect o.blocks doc)
  let plan ← blocks.mapM (planBlock e)
  let (html, _) ← Run.ofReading (merge o.blocks o.dialect plan doc)
  pure ⟨html, plan.length - skippedIn plan, skippedIn plan⟩

end CodeTint.Document
