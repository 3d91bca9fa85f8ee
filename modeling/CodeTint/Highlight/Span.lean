/-
# From spans to nested elements

A highlighter reports spans of a source: from which byte to which, and what stands there.  Spans may
come in any order, overlap, repeat and reach past the end.  `render` turns them into properly nested
elements around the escaped source.

1. **Arranging** (`arrange`).  Spans that are empty or reach past the end go.  The rest is put in
   order, earlier starts first and of two with one start the longer first; of several with the same
   range the last reported stays.
2. **Sweeping** (`sweep`).  The spans are gone through with a stack of those that are open.  Open
   spans that end before the next one starts are closed.  The next one is opened unless it sticks
   out of the innermost open span or has the same tag.
3. **Writing** (`write`).  The sweep gives pieces: stretches of source, openings and closings.
-/
import CodeTint.Markup.Entity
import CodeTint.Text.Slice
import CodeTint.Text.Utf8

namespace CodeTint.Highlight

open CodeTint.Text

/-- **A stretch of source with a tag**, from byte `start` up to byte `stop`. -/
structure Span where
  start : Nat
  stop : Nat
  tag : String
  deriving DecidableEq, Repr

/-! ## 1. Arranging -/

/-- A span that covers something, within a source of the given size. -/
def Span.fits (size : Nat) (s : Span) : Bool := s.start < s.stop && s.stop ≤ size

/-- Whether two spans cover the same range. -/
def Span.sameRange (a b : Span) : Bool := a.start == b.start && a.stop == b.stop

/-- The order of the sweep: earlier starts first, then later ends. -/
def Span.before (a b : Span) : Bool := a.start < b.start || (a.start == b.start && b.stop ≤ a.stop)

/-- Of neighbours with one range the last. -/
def lastOfEach : List Span → List Span
  | [] => []
  | [s] => [s]
  | s :: t :: rest =>
    if s.sameRange t then lastOfEach (t :: rest) else s :: lastOfEach (t :: rest)

/-- **The spans in the order of the sweep.** -/
def arrange (size : Nat) (spans : List Span) : List Span :=
  lastOfEach ((spans.filter (Span.fits size)).mergeSort Span.before)

/-! ## 2. Sweeping -/

/-- A piece of the outcome. -/
inductive Piece where
  | text (start stop : Nat)
  | opening (tag : String)
  | closing
  deriving DecidableEq, Repr

/-- Where the sweep stands: how far the source is written, and the open spans, innermost first. -/
structure Sweep where
  cursor : Nat
  opened : List Span
  deriving DecidableEq, Repr

/-- **Closes the open spans that end at or before a place.** -/
def closeBefore (place : Nat) (cursor : Nat) : List Span → List Piece × Sweep
  | [] => ([], ⟨cursor, []⟩)
  | top :: below =>
    if top.stop ≤ place then
      let (ps, w) := closeBefore place top.stop below
      (.text cursor top.stop :: .closing :: ps, w)
    else ([], ⟨cursor, top :: below⟩)

/-- Closes all open spans. -/
def closeAll (cursor : Nat) : List Span → List Piece × Nat
  | [] => ([], cursor)
  | top :: below =>
    let (ps, c) := closeAll top.stop below
    (.text cursor top.stop :: .closing :: ps, c)

/-- **Whether a span is opened** where the sweep stands. -/
def Sweep.admits (w : Sweep) (s : Span) : Bool :=
  w.cursor ≤ s.start &&
    match w.opened with
    | [] => true
    | top :: _ => s.stop ≤ top.stop && s.tag != top.tag

/-- The pieces for arranged spans, from where the sweep stands to the end of the source. -/
def Sweep.pieces (size : Nat) (w : Sweep) : List Span → List Piece
  | [] =>
    let (ps, c) := closeAll w.cursor w.opened
    ps ++ [.text c size]
  | s :: rest =>
    let (ps, w) := closeBefore s.start w.cursor w.opened
    if w.admits s then
      ps ++ .text w.cursor s.start :: .opening s.tag ::
        Sweep.pieces size ⟨s.start, s :: w.opened⟩ rest
    else ps ++ Sweep.pieces size w rest

/-- **The pieces for arranged spans.** -/
def sweep (size : Nat) (spans : List Span) : List Piece := Sweep.pieces size ⟨0, []⟩ spans

/-! ## 3. Writing -/

/-- A piece as markup.  A stretch that is not made of whole characters is left out. -/
def Piece.write (source : List Char) : Piece → List Char
  | .text a b => ((slice? a b source).map Markup.Entity.encode).getD []
  | .opening tag => "<span class=\"".toList ++ tag.toList ++ "\">".toList
  | .closing => "</span>".toList

/-- **The source as markup**, with an element for each span that the sweep opens. -/
def render (source : List Char) (spans : List Span) : List Char :=
  let size := Utf8.size source
  (sweep size (arrange size spans)).flatMap (Piece.write source)

end CodeTint.Highlight
