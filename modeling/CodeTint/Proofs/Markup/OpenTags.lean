/-
# The elements that are open, by their tags alone

Every walk over a document keeps a stack of open elements with notes of its own on it.  What is open
does not depend on the notes: `openTags` follows the start and end tags and nothing else.  This file
proves that the stack of a walk is `openTags` with notes added (`endElement?_map`,
`endElement?_noted`), so that two walks over one document always agree on what is open.

A selector picks some of the open elements (`pickedAmong`).  Behind an end tag exactly those are
missing that it ended (`endElement?_noted`), which is what a walk that counts them relies on.
-/
import CodeTint.Markup.Event
import CodeTint.Markup.OpenElements
import Mathlib.Data.List.Induction

namespace CodeTint.Markup

variable {α β : Type}

/-! ## 1. The tags that stay open -/

/-- **The tags that an end tag leaves open**, innermost first; none if it ends nothing. -/
def leftOpen? (key : List Char) : List Tag → Option (List Tag)
  | [] => none
  | t :: around => if t.key = key then some around else leftOpen? key around

/-- The tags that are open behind an event. -/
def tagsBehind (around : List Tag) : Event → List Tag
  | .start t isOpen => if isOpen then t :: around else around
  | .finish _ key => (leftOpen? key around).getD around
  | _ => around

/-- **The tags of the elements that are open behind some events**, innermost first. -/
def openTags (es : List Event) : List Tag := es.foldl tagsBehind []

theorem openTags_nil : openTags [] = [] := rfl

@[simp] theorem openTags_concat (es : List Event) (e : Event) :
    openTags (es ++ [e]) = tagsBehind (openTags es) e := by
  simp [openTags]

/-- What an end tag leaves is a back part of what was open, and a shorter one. -/
theorem leftOpen?_suffix {key : List Char} {around left : List Tag}
    (h : leftOpen? key around = some left) : left <:+ around ∧ left.length < around.length := by
  induction around with
  | nil => simp [leftOpen?] at h
  | cons t around ih =>
    rw [leftOpen?] at h
    split at h
    · cases h
      exact ⟨List.suffix_cons _ _, Nat.lt_succ_self _⟩
    · obtain ⟨h1, h2⟩ := ih h
      exact ⟨h1.trans (List.suffix_cons _ _), Nat.lt_succ_of_lt h2⟩

/-- An open element was begun by a start tag that said so. -/
theorem mem_tagsBehind {around : List Tag} {e : Event} {t : Tag} (h : t ∈ tagsBehind around e) :
    t ∈ around ∨ e = .start t true := by
  cases e with
  | start u isOpen =>
    cases isOpen with
    | false => exact Or.inl h
    | true =>
      rcases List.mem_cons.mp h with rfl | h
      · exact Or.inr rfl
      · exact Or.inl h
  | finish raw key =>
    rw [tagsBehind] at h
    cases hl : leftOpen? key around with
    | none => rw [hl] at h; exact Or.inl h
    | some left =>
      rw [hl] at h
      exact Or.inl ((leftOpen?_suffix hl).1.subset h)
  | text s => exact Or.inl h
  | comment raw => exact Or.inl h
  | doctype raw => exact Or.inl h
  | blank raw => exact Or.inl h

theorem mem_openTags {es : List Event} {t : Tag} (h : t ∈ openTags es) : .start t true ∈ es := by
  induction es using List.reverseRecOn with
  | nil =>
    rw [openTags_nil] at h
    cases h
  | append_singleton es e ih =>
    rw [openTags_concat] at h
    rcases mem_tagsBehind h with h | rfl
    · exact List.mem_append_left _ (ih h)
    · simp

/-! ## 2. Stacks with notes -/

/-- The tags of a stack decide what an end tag leaves of it. -/
theorem tagsOf_endElement? (key : List Char) (stack : List (Open α)) :
    (endElement? key stack).map (fun p => tagsOf p.2) = leftOpen? key (tagsOf stack) := by
  induction stack with
  | nil => rfl
  | cons o stack ih =>
    rw [endElement?, tagsOf, List.map_cons, leftOpen?]
    split
    · rfl
    · rw [← tagsOf, ← ih, Option.map_map]
      rfl

/-- Notes can be changed before an end tag or behind it. -/
theorem endElement?_map (f : Open α → Open β) (hf : ∀ o, (f o).tag = o.tag) (key : List Char)
    (stack : List (Open α)) :
    endElement? key (stack.map f)
      = (endElement? key stack).map fun p => (p.1.map f, p.2.map f) := by
  induction stack with
  | nil => rfl
  | cons o stack ih =>
    rw [List.map_cons, endElement?, endElement?, hf]
    split
    · rfl
    · rw [ih, Option.map_map, Option.map_map]
      rfl

/-! ## 3. Picked elements -/

/-- The open elements that a selector picks, innermost first. -/
def pickedAmong (pick : Selector) : List Tag → List Tag
  | [] => []
  | t :: around => if pick around t then t :: pickedAmong pick around else pickedAmong pick around

/-- The open elements, each with the note whether it is picked. -/
def noted (pick : Selector) : List Tag → List (Open Bool)
  | [] => []
  | t :: around => ⟨t, pick around t⟩ :: noted pick around

@[simp] theorem tagsOf_noted (pick : Selector) (around : List Tag) :
    tagsOf (noted pick around) = around := by
  induction around with
  | nil => rfl
  | cons t around ih => simpa [noted, tagsOf] using ih

theorem any_noted (pick : Selector) (around : List Tag) :
    (noted pick around).any Open.note = !(pickedAmong pick around).isEmpty := by
  induction around with
  | nil => rfl
  | cons t around ih =>
    rw [noted, List.any_cons, ih, pickedAmong]
    cases pick around t <;> rfl

/-- **What an end tag ends and leaves of a noted stack**: the rest is noted the same way, and the
picked elements that ended are those that are missing from the rest. -/
theorem endElement?_noted {pick : Selector} {key : List Char} {around : List Tag}
    {ended left : List (Open Bool)} (h : endElement? key (noted pick around) = some (ended, left)) :
    left = noted pick (tagsOf left) ∧
      (pickedAmong pick around).length
        = ended.countP Open.note + (pickedAmong pick (tagsOf left)).length := by
  induction around generalizing ended with
  | nil => simp [noted, endElement?] at h
  | cons t around ih =>
    rw [noted, endElement?] at h
    split at h
    · cases h
      rw [tagsOf_noted, pickedAmong]
      refine ⟨rfl, ?_⟩
      cases pick around t
      · simp
      · simp; omega
    · obtain ⟨⟨e, l⟩, hr, he⟩ := Option.map_eq_some_iff.mp h
      cases he
      obtain ⟨h1, h2⟩ := ih hr
      refine ⟨h1, ?_⟩
      rw [pickedAmong]
      cases pick around t
      · simp [h2]
      · simp [h2]; omega

end CodeTint.Markup
