/-
# Putting the plan back into the document

The plan has one entry for each block, in the order of the document.  The editor here walks through
the document a second time, **counts open picked elements just as the first walk did**, and takes
the next entry at each block's start tag.  An entry with a replacement fills the element and sets
its class, one without leaves it.

On the way void tags get the form of the dialect, wherever they stand.
-/
import CodeTint.Document.Plan
import CodeTint.Markup.Dialect

namespace CodeTint.Document

open CodeTint.Markup

/-- What the editor remembers: the plan's entries that are not used yet, and how many picked
elements are open. -/
structure Merging where
  plan : List (Option Replacement)
  depth : Nat

/-- The edit for a block. -/
def Replacement.edit (r : Replacement) (t : Tag) : Edit :=
  .fill ((r.cls.map (t.withAttr "class".toList)).getD t.raw) r.fragment

/-- The edit for an element that is no block: a void tag may be written anew. -/
def tagEdit (d : Dialect) (t : Tag) : Edit :=
  match d.voidTag? t with
  | some s => .replace s
  | none => .keep t

/-- **The edit at a start tag**, and the plan after it. -/
def Merging.edit (d : Dialect) (m : Merging) (picked : Bool) (t : Tag) :
    Edit × List (Option Replacement) :=
  if picked && m.depth == 0 then
    match m.plan with
    | some r :: plan => (r.edit t, plan)
    | none :: plan => (tagEdit d t, plan)
    | [] => (tagEdit d t, [])
  else (tagEdit d t, m.plan)

/-- **The editor that carries a plan out.** -/
def merger (pick : Selector) (d : Dialect) : Editor Merging Bool where
  start := fun m around t isOpen =>
    let picked := pick around t
    let (edit, plan) := m.edit d picked t
    (edit, picked, ⟨plan, depthAfterStart picked isOpen m.depth⟩)
  finish := fun picked m => { m with depth := if picked then m.depth - 1 else m.depth }

/-- **The document with a plan carried out**, and what is left of the plan. -/
def merge (pick : Selector) (d : Dialect) (plan : List (Option Replacement)) (doc : List Char) :
    Except Ambiguity (List Char × List (Option Replacement)) :=
  ((merger pick d).rewrite ⟨plan, 0⟩ doc).map fun (out, m) => (out, m.plan)

end CodeTint.Document
