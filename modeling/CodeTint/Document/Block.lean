/-
# The blocks of a document

A **block** is an element that the selector picks and that has no picked element around it; a picked
element further in belongs to the block around it.  What counts of a block is its `class` value and
all the text inside it, both as they are written.

`collect` finds the blocks in one walk over the events.  It does not look for picked elements among
those around; it **counts how many are open** (`Collecting.depth`).  A start tag is a block's if the
count is zero, and text goes to the block that began last as long as a picked element is open.
-/
import CodeTint.Markup.Event
import CodeTint.Markup.OpenElements

namespace CodeTint.Document

open CodeTint.Markup

/-- **A block**: its class value, and its text with character references unread. -/
structure Block where
  cls : Option (List Char)
  text : List Char
  deriving DecidableEq, Repr

/-- Where the walk stands: the blocks so far, the latest first, the open elements with a note
whether they are picked, and how many of those are. -/
structure Collecting where
  blocks : List Block
  stack : List (Open Bool)
  depth : Nat

/-- The walk at the start of a document. -/
def Collecting.start : Collecting := ⟨[], [], 0⟩

/-- The count after a start tag. -/
def depthAfterStart (picked isOpen : Bool) (depth : Nat) : Nat :=
  if picked && isOpen then depth + 1 else depth

/-- The count after some elements have ended. -/
def depthAfterEnd (ended : List (Open Bool)) (depth : Nat) : Nat :=
  ended.foldl (fun n o => if o.note then n - 1 else n) depth

/-- The class value of a start tag. -/
def classOf (t : Tag) : Option (List Char) := t.attr? "class".toList

/-- The blocks with more text in the latest. -/
def addText (s : List Char) : List Block → List Block
  | [] => []
  | b :: bs => { b with text := b.text ++ s } :: bs

/-- **One event.** -/
def Collecting.step (pick : Selector) (w : Collecting) : Event → Collecting
  | .start t isOpen =>
    let picked := pick (tagsOf w.stack) t
    { blocks := if picked && w.depth == 0 then ⟨classOf t, []⟩ :: w.blocks else w.blocks
      stack := if isOpen then ⟨t, picked⟩ :: w.stack else w.stack
      depth := depthAfterStart picked isOpen w.depth }
  | .finish _ key =>
    match endElement? key w.stack with
    | none => w
    | some (ended, left) => { w with stack := left, depth := depthAfterEnd ended w.depth }
  | .text s =>
    if w.stack.any Open.note then { w with blocks := addText s w.blocks } else w
  | _ => w

/-- The blocks in a sequence of events. -/
def blocksOf (pick : Selector) (es : List Event) : List Block :=
  (es.foldl (Collecting.step pick) .start).blocks.reverse

/-- **The blocks of a document**, in its order. -/
def collect (pick : Selector) (doc : List Char) : Except Ambiguity (List Block) :=
  (events doc).map (blocksOf pick)

end CodeTint.Document
