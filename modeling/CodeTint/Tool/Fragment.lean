/-
# From a tool's output to a fragment

`highlight` writes the fragment as it is.  `pygmentize` wraps it in `<div class="highlight"><pre>`
and puts an empty `<span>` in front; both go.  **Line ends at the end go in either case.**

The wrapping is found by reading the output as a document, so it may be spelled in any way, and it
goes wherever it stands.
-/
import CodeTint.Colorizer
import CodeTint.Markup.Rewrite

namespace CodeTint

open CodeTint.Markup

/-- The elements of the wrapping: the `div`, and a `pre` right inside of it. -/
def wrapping : Selector := fun around t =>
  Selector.classed "div" "highlight" around t ||
    Selector.childOf (Selector.classed "div" "highlight") "pre" around t

/-- The editor that takes the wrapping off. -/
def unwrapper : Editor Unit Unit where
  start := fun _ around t _ => (if wrapping around t then Edit.unwrap else Edit.keep t, (), ())
  finish := fun _ _ => ()

/-- The empty element in front of a fragment. -/
def emptySpan : List Char := "<span></span>".toList

/-- The output without its wrapping. -/
def unwrap (output : List Char) : Except Ambiguity (List Char) :=
  (unwrapper.rewrite () output).map fun (out, _) => (Text.after? emptySpan out).getD out

/-- The text without the line ends at its end. -/
def dropLineEnds (s : List Char) : List Char :=
  (s.reverse.dropWhile (fun c => c == '\n' || c == '\r')).reverse

/-- **The fragment in a tool's output.** -/
def Tool.fragment (t : Tool) (output : List Char) : Except Ambiguity (List Char) :=
  match t with
  | .pygmentize => (unwrap output).map dropLineEnds
  | .highlight => .ok (dropLineEnds output)

end CodeTint
