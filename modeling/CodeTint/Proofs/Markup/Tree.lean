/-
# The tree of a document

The reader of a document gives events, one after the other, and keeps no tree.  This file builds the
tree that the events stand for, as the open elements make it: a start tag whose element may hold
content goes one level down, an end tag goes up to the nearest element of its name and closes all it
passes, an end tag without such an element is a piece like a comment, and the end of the document
closes what is still open.

While it is read, a tree is a place with all that lies in front of it (`Growing`): the pieces of the
innermost open element so far, and for each open element its tag with the pieces in front of it.
**The tree loses nothing**: it has the start tags and the text of the events, in their order
(`map_tag_treeOf`, `textIn_treeOf`).
-/
import CodeTint.Proofs.Markup.OpenTags

namespace CodeTint.Markup

/-! ## 1. Trees -/

/-- **A piece of a document**: text, an element with its content, or anything else as it is
written. -/
inductive Piece where
  | text (s : List Char)
  | element (t : Tag) (content : List Piece)
  | other (raw : List Char)

mutual

/-- All text in a piece, at any depth. -/
def Piece.allText : Piece → List Char
  | .text s => s
  | .element _ content => textIn content
  | .other _ => []

/-- **All text in some pieces**, at any depth, in the order of the document. -/
def textIn : List Piece → List Char
  | [] => []
  | p :: ps => p.allText ++ textIn ps

end

/-- An element of a tree: the tags around it, innermost first, its own tag, and its content. -/
structure Placed where
  around : List Tag
  tag : Tag
  content : List Piece

mutual

/-- The elements of a piece that has the given tags around it. -/
def Piece.elements (around : List Tag) : Piece → List Placed
  | .text _ => []
  | .element t content => ⟨around, t, content⟩ :: elementsIn (t :: around) content
  | .other _ => []

/-- **The elements of some pieces**, at any depth, in the order of the document. -/
def elementsIn (around : List Tag) : List Piece → List Placed
  | [] => []
  | p :: ps => p.elements around ++ elementsIn around ps

end

@[simp] theorem textIn_append (ps qs : List Piece) : textIn (ps ++ qs) = textIn ps ++ textIn qs := by
  induction ps with
  | nil => rfl
  | cons p ps ih => simp [textIn, ih]

@[simp] theorem elementsIn_append (around : List Tag) (ps qs : List Piece) :
    elementsIn around (ps ++ qs) = elementsIn around ps ++ elementsIn around qs := by
  induction ps with
  | nil => rfl
  | cons p ps ih => simp [elementsIn, ih]

mutual

theorem Piece.suffix_of_mem {around : List Tag} {x : Placed} :
    ∀ {p : Piece}, x ∈ p.elements around → around <:+ x.around
  | .text _, h => by simp [Piece.elements] at h
  | .other _, h => by simp [Piece.elements] at h
  | .element t content, h => by
    rw [Piece.elements] at h
    rcases List.mem_cons.mp h with rfl | h
    · exact List.suffix_refl _
    · exact (List.suffix_cons t around).trans (suffix_of_mem_elementsIn h)

/-- An element has all the tags around it that its pieces have. -/
theorem suffix_of_mem_elementsIn {around : List Tag} {x : Placed} :
    ∀ {ps : List Piece}, x ∈ elementsIn around ps → around <:+ x.around
  | [], h => by simp [elementsIn] at h
  | p :: ps, h => by
    rw [elementsIn] at h
    rcases List.mem_append.mp h with h | h
    · exact Piece.suffix_of_mem h
    · exact suffix_of_mem_elementsIn h

end

mutual

theorem Piece.map_tag_elements (around around' : List Tag) : ∀ p : Piece,
    (p.elements around).map Placed.tag = (p.elements around').map Placed.tag
  | .text _ => rfl
  | .other _ => rfl
  | .element t content => by
    rw [Piece.elements, Piece.elements, List.map_cons, List.map_cons,
      map_tag_elementsIn (t :: around) (t :: around') content]

/-- What is around some pieces does not change which elements they have. -/
theorem map_tag_elementsIn (around around' : List Tag) : ∀ ps : List Piece,
    (elementsIn around ps).map Placed.tag = (elementsIn around' ps).map Placed.tag
  | [] => rfl
  | p :: ps => by
    rw [elementsIn, elementsIn, List.map_append, List.map_append,
      Piece.map_tag_elements around around' p, map_tag_elementsIn around around' ps]

end

/-! ## 2. Growing a tree -/

/-- **A tree while it is read**: the pieces of the innermost open element, and for each open
element, innermost first, its tag and the pieces in front of it. -/
structure Growing where
  content : List Piece
  around : List (Tag × List Piece)

namespace Growing

/-- Nothing is read yet. -/
def start : Growing := ⟨[], []⟩

/-- The tags of the open elements. -/
def tags (g : Growing) : List Tag := g.around.map Prod.fst

/-- One more piece in the innermost element. -/
def add (g : Growing) (p : Piece) : Growing := { g with content := g.content ++ [p] }

/-- An element begins. -/
def enter (g : Growing) (t : Tag) : Growing := ⟨[], (t, g.content) :: g.around⟩

/-- **The nearest element of a name ends**, and with it those inside; none if there is none. -/
def leave? (key : List Char) (content : List Piece) : List (Tag × List Piece) → Option Growing
  | [] => none
  | (t, front) :: around =>
    if t.key = key then some ⟨front ++ [.element t content], around⟩
    else leave? key (front ++ [.element t content]) around

/-- **One event.** -/
def step (g : Growing) : Event → Growing
  | .text s => g.add (.text s)
  | .start t isOpen => if isOpen then g.enter t else g.add (.element t [])
  | .finish raw key => (leave? key g.content g.around).getD (g.add (.other raw))
  | e => g.add (.other e.raw)

/-- All elements end. -/
def close (content : List Piece) : List (Tag × List Piece) → List Piece
  | [] => content
  | (t, front) :: around => close (front ++ [.element t content]) around

/-- The tree if the document ended here. -/
def closed (g : Growing) : List Piece := close g.content g.around

end Growing

/-- The tree as far as some events go. -/
def grow (es : List Event) : Growing := es.foldl Growing.step .start

/-- **The tree of a document.** -/
def treeOf (es : List Event) : List Piece := (grow es).closed

@[simp] theorem grow_concat (es : List Event) (e : Event) : grow (es ++ [e]) = (grow es).step e := by
  simp [grow]

namespace Growing

/-- Ending elements changes where reading stands, not the tree. -/
theorem closed_of_leave? {key : List Char} {content : List Piece}
    {around : List (Tag × List Piece)} {g : Growing} (h : leave? key content around = some g) :
    g.closed = close content around := by
  induction around generalizing content with
  | nil => simp [leave?] at h
  | cons f around ih =>
    obtain ⟨t, front⟩ := f
    rw [leave?] at h
    split at h
    · cases h; rfl
    · exact ih h

theorem tags_leave? (key : List Char) (content : List Piece) (around : List (Tag × List Piece)) :
    (leave? key content around).map tags = leftOpen? key (around.map Prod.fst) := by
  induction around generalizing content with
  | nil => rfl
  | cons f around ih =>
    obtain ⟨t, front⟩ := f
    rw [leave?, List.map_cons, leftOpen?]
    split
    · rfl
    · exact ih _

theorem tags_step (g : Growing) (e : Event) : (g.step e).tags = tagsBehind g.tags e := by
  cases e with
  | start t isOpen => cases isOpen <;> rfl
  | finish raw key =>
    have h : (leave? key g.content g.around).map tags = leftOpen? key g.tags :=
      tags_leave? key g.content g.around
    rw [step, tagsBehind, ← h]
    cases leave? key g.content g.around <;> rfl
  | text s => rfl
  | comment raw => rfl
  | doctype raw => rfl
  | blank raw => rfl

end Growing

/-- **The tree grows at the element that is open.** -/
theorem tags_grow (es : List Event) : (grow es).tags = openTags es := by
  induction es using List.reverseRecOn with
  | nil => rfl
  | append_singleton es e ih => rw [grow_concat, openTags_concat, Growing.tags_step, ih]

/-! ## 3. What an event adds -/

/-- The piece that an event brings into the tree; an element comes without content. -/
def Event.piece : Event → Piece
  | .text s => .text s
  | .start t _ => .element t []
  | e => .other e.raw

namespace Growing

/-- **An event adds its piece at the end of the innermost open element**, or it is an end tag that
ends something and leaves the tree as it is. -/
theorem closed_step (g : Growing) (e : Event) :
    (g.step e).closed = (g.add e.piece).closed ∨
      (∃ raw, e.piece = .other raw) ∧ (g.step e).closed = g.closed := by
  cases e with
  | start t isOpen => cases isOpen <;> exact Or.inl rfl
  | finish raw key =>
    cases h : leave? key g.content g.around with
    | none => exact Or.inl (by rw [step, h]; rfl)
    | some g' =>
      refine Or.inr ⟨⟨raw, rfl⟩, ?_⟩
      rw [step, h]
      exact closed_of_leave? h
  | text s => exact Or.inl rfl
  | comment raw => exact Or.inl rfl
  | doctype raw => exact Or.inl rfl
  | blank raw => exact Or.inl rfl

/-- The text of a growing tree ends with that of the innermost open element. -/
theorem textIn_close (around : List (Tag × List Piece)) :
    ∃ lead, ∀ content, textIn (close content around) = lead ++ textIn content := by
  induction around with
  | nil => exact ⟨[], fun _ => rfl⟩
  | cons f around ih =>
    obtain ⟨t, front⟩ := f
    obtain ⟨lead, hl⟩ := ih
    refine ⟨lead ++ textIn front, fun content => ?_⟩
    rw [close, hl, textIn_append]
    simp [textIn, Piece.allText]

theorem textIn_add (g : Growing) (p : Piece) :
    textIn (g.add p).closed = textIn g.closed ++ p.allText := by
  obtain ⟨lead, hl⟩ := textIn_close g.around
  rw [closed, closed, add, hl, hl, textIn_append]
  simp [textIn]

/-- The elements of a growing tree end with those in the innermost open element. -/
theorem map_tag_close (around : List (Tag × List Piece)) :
    ∃ lead, ∀ content, (elementsIn [] (close content around)).map Placed.tag
      = lead ++ (elementsIn [] content).map Placed.tag := by
  induction around with
  | nil => exact ⟨[], fun _ => rfl⟩
  | cons f around ih =>
    obtain ⟨t, front⟩ := f
    obtain ⟨lead, hl⟩ := ih
    refine ⟨lead ++ (elementsIn [] front).map Placed.tag ++ [t], fun content => ?_⟩
    have h : (elementsIn [] [.element t content]).map Placed.tag
        = t :: (elementsIn [] content).map Placed.tag := by
      rw [elementsIn, elementsIn, List.append_nil, Piece.elements, List.map_cons,
        map_tag_elementsIn [t] []]
    rw [close, hl, elementsIn_append, List.map_append, h]
    simp

theorem map_tag_add (g : Growing) (p : Piece) :
    (elementsIn [] (g.add p).closed).map Placed.tag
      = (elementsIn [] g.closed).map Placed.tag ++ (p.elements []).map Placed.tag := by
  obtain ⟨lead, hl⟩ := map_tag_close g.around
  rw [closed, closed, add, hl, hl, elementsIn_append]
  simp [elementsIn]

end Growing

/-- The text of an event, if it is text. -/
def Event.ownText : Event → List Char
  | .text s => s
  | _ => []

theorem Event.allText_piece (e : Event) : e.piece.allText = e.ownText := by
  cases e <;> rfl

/-- **The text of the tree is the text of the document.** -/
theorem textIn_treeOf (es : List Event) : textIn (treeOf es) = es.flatMap Event.ownText := by
  induction es using List.reverseRecOn with
  | nil => rfl
  | append_singleton es e ih =>
    rw [treeOf] at ih
    rw [treeOf, grow_concat, List.flatMap_append, ← ih, List.flatMap_singleton,
      ← Event.allText_piece]
    rcases Growing.closed_step (grow es) e with h | ⟨⟨raw, hp⟩, h⟩
    · rw [h, Growing.textIn_add]
    · rw [h, hp, Piece.allText, List.append_nil]

/-- The start tag of an event, if it is one. -/
def Event.begun : Event → List Tag
  | .start t _ => [t]
  | _ => []

theorem Event.elements_piece (e : Event) : (e.piece.elements []).map Placed.tag = e.begun := by
  cases e <;> rfl

/-- **The elements of the tree are those that the start tags begin**, in their order. -/
theorem map_tag_treeOf (es : List Event) :
    (elementsIn [] (treeOf es)).map Placed.tag = es.flatMap Event.begun := by
  induction es using List.reverseRecOn with
  | nil => rfl
  | append_singleton es e ih =>
    rw [treeOf] at ih
    rw [treeOf, grow_concat, List.flatMap_append, ← ih, List.flatMap_singleton,
      ← Event.elements_piece]
    rcases Growing.closed_step (grow es) e with h | ⟨⟨raw, hp⟩, h⟩
    · rw [h, Growing.map_tag_add]
    · rw [h, hp, Piece.elements, List.map_nil, List.append_nil]

end CodeTint.Markup
