/-
# The library that reads sources

What stands where in a source is told by a library of grammars, and the library is a parameter
(`Library`).  It has a store of grammars, which several highlighters can share, and each of them keeps
something for itself.  **Its answers may depend on all that it keeps, and every question may change
that**; and it may fail on any source.

A grammar reports captures, which have names of their own.  A table gives the tags for them; a
capture without a tag is left out.
-/
import CodeTint.Highlight.Span

namespace CodeTint.Highlight

/-- **A capture**: what the name says stands from byte `start` up to byte `stop`. -/
structure Capture where
  start : Nat
  stop : Nat
  name : String
  deriving DecidableEq, Repr

/-- **A library of grammars.** -/
class Library where
  /-- Grammars, in whatever state they are. -/
  Store : Type
  /-- What a highlighter keeps for itself from one source to the next. -/
  Scratch : Type
  newStore : Store
  newScratch : Scratch
  /-- Looks for the grammar of a language: whether there is one, and the store after that. -/
  find : Store → (language : String) → Bool × Store
  /-- Reads a source: the captures, or why there are none, and what is kept after that. -/
  read : Store → Scratch → (language : String) → (source : List Char) →
    Except String (List Capture) × Store × Scratch
  /-- The tag for the name of a capture. -/
  tag? : (capture : String) → Option String

/-- The span of a capture, if there is a tag for it. -/
def Capture.span? [Library] (c : Capture) : Option Span :=
  (Library.tag? c.name).map fun tag => ⟨c.start, c.stop, tag⟩

/-- **The spans of captures**, those without a tag left out. -/
def spansOf [Library] (captures : List Capture) : List Span := captures.filterMap Capture.span?

end CodeTint.Highlight
