/-
# Open elements, and picking elements by where they stand

The elements that are open at a place of a document form a stack, innermost first.  A start tag
whose element may hold content goes on top.  **An end tag ends the nearest open element of its name
and with it all that lie above**; if there is none of that name it ends nothing.  No element ends
without an end tag, other than by the end of the document.

Each open element carries a note, for what the one who walks through the document has to remember
until it ends.

A `Selector` picks elements by their own tag and by the tags of the elements around them.
-/
import CodeTint.Markup.Token

namespace CodeTint.Markup

open CodeTint.Text

/-! ## 1. The stack -/

/-- An element that is open, with a note. -/
structure Open (α : Type) where
  tag : Tag
  note : α
  deriving Repr

variable {α : Type}

/-- The tags of the open elements. -/
def tagsOf (stack : List (Open α)) : List Tag := stack.map Open.tag

/-- **The elements that an end tag ends**, innermost first, and those that stay open; none if the
tag ends nothing. -/
def endElement? (key : List Char) : List (Open α) → Option (List (Open α) × List (Open α))
  | [] => none
  | o :: stack =>
    if o.tag.key = key then some ([o], stack)
    else (endElement? key stack).map fun (ended, left) => (o :: ended, left)

/-- The elements that end and those that stay make up the stack. -/
theorem endElement?_append {key : List Char} {stack ended left : List (Open α)}
    (h : endElement? key stack = some (ended, left)) : ended ++ left = stack := by
  induction stack generalizing ended with
  | nil => cases h
  | cons o stack ih =>
    unfold endElement? at h
    split at h
    · cases h; rfl
    · obtain ⟨⟨e, l⟩, hr, he⟩ := Option.map_eq_some_iff.1 h
      cases he
      simp [ih hr]

/-! ## 2. Selectors -/

/-- **Which elements are meant**, by the tags around (innermost first) and the element's own. -/
abbrev Selector := List Tag → Tag → Bool

/-- Whether a tag has the given name. -/
def Tag.isNamed (t : Tag) (name : String) : Bool := t.key == name.toList

/-- Whether a tag's class value has the given word. -/
def Tag.hasClass (t : Tag) (word : String) : Bool :=
  match t.attr? "class".toList with
  | some value => (words value).contains word.toList
  | none => false

namespace Selector

/-- All elements of a name. -/
def named (name : String) : Selector := fun _ t => t.isNamed name

/-- The elements of a name with a class word. -/
def classed (name word : String) : Selector := fun _ t => t.isNamed name && t.hasClass word

/-- The elements of a name that have an element of another name around them, at any distance. -/
def within (outer name : String) : Selector := fun around t =>
  t.isNamed name && around.any (fun o => o.isNamed outer)

/-- The elements of a name right inside one that `parent` picks. -/
def childOf (parent : Selector) (name : String) : Selector := fun around t =>
  t.isNamed name && match around with
    | p :: rest => parent rest p
    | [] => false

end Selector

end CodeTint.Markup
