/-
# Which language a block of code is written in

Two places are looked at, in this order.

1. **The `class` value**: the first word `language-name` with a name behind the dash.  It is
   trusted as it stands.
2. **A marker line** `#!name` at the top of the text.  It is only a candidate: the name has to be
   a plain one, and whoever will colorize the block has to recognize it.  So the line
   `#!/usr/bin/env ruby` stays ordinary code.

A marker that decided the language is taken off the text before it is colorized (`source`), one
that did not stays where it is.  After that the class value names the language whatever the origin
was (`ensureClass`), so a second look finds the same name in the first place.

Everything here is about lists of characters; only `resolve` asks a question of the outside, and it
is written for any monad, so that the one who answers may keep a state or fail.
-/
import CodeTint.Text.Blank

namespace CodeTint.Language

open CodeTint.Text

/-! ## 1. Lines -/

/-- The first line, without its line feed. -/
def firstLine (s : List Char) : List Char := s.takeWhile (· != '\n')

/-- **All that follows the first line feed**; nothing if there is none. -/
def afterFirstLine (s : List Char) : List Char := (s.dropWhile (· != '\n')).drop 1

theorem afterFirstLine_length_lt {s : List Char} (h : s ≠ []) :
    (afterFirstLine s).length < s.length := by
  have hs : (s.dropWhile (· != '\n')).length ≤ s.length :=
    (List.dropWhile_suffix (l := s) (· != '\n')).length_le
  have hp : 0 < s.length := List.length_pos_iff.2 h
  simp only [afterFirstLine, List.length_drop]
  omega

/-- The text from its first line that is not blank on. -/
def dropBlankLines (s : List Char) : List Char :=
  if _h : s = [] then []
  else if allBlank (firstLine s) then dropBlankLines (afterFirstLine s)
  else s
termination_by s.length
decreasing_by exact afterFirstLine_length_lt _h

/-- **The text without leading blank lines and trailing blanks.**  The indentation of the first
line that is kept stays. -/
def trimBlankLines (s : List Char) : List Char := trimEnd (dropBlankLines s)

/-! ## 2. The two places -/

/-- What stands before the name in a class word. -/
def classLead : List Char := "language-".toList

/-- What stands before the name in a marker line. -/
def markerLead : List Char := "#!".toList

/-- **The language that a `class` value names**: the name in its first word `language-name`. -/
def ofClass? (cls : List Char) : Option (List Char) :=
  ((words cls).filterMap (after? classLead)).find? (fun name => !name.isEmpty)

/-- The characters of a plain name. -/
def isNameChar (c : Char) : Bool :=
  c.isAlphanum || c == '-' || c == '_' || c == '#' || c == '+' || c == '.'

/-- A plain name is not empty and has name characters only, so no path is one. -/
def isName (s : List Char) : Bool := !s.isEmpty && s.all isNameChar

/-- **The name on the marker line** of a text, if its first line that is not blank is one. -/
def marker? (text : List Char) : Option (List Char) :=
  match after? markerLead (firstLine (trimBlankLines text)) with
  | some rest => let name := trimEnd rest; if isName name then some name else none
  | none => none

/-- Where a language was found. -/
inductive Origin where
  | className
  | marker
  deriving DecidableEq, Repr

/-- A language with the place where it was found. -/
structure Resolved where
  name : List Char
  origin : Origin
  deriving DecidableEq, Repr

/-- **The language of a block.**  `recognizes` is asked about the marker candidate only, and only
if the class value names no language. -/
def resolve {m : Type → Type} [Monad m] (recognizes : List Char → m Bool)
    (cls : Option (List Char)) (text : List Char) : m (Option Resolved) :=
  match cls.bind ofClass? with
  | some name => pure (some ⟨name, .className⟩)
  | none =>
    match marker? text with
    | none => pure none
    | some name => do
      if ← recognizes name then pure (some ⟨name, .marker⟩) else pure none

/-! ## 3. What is colorized, and the class afterwards -/

/-- **The text that goes to the colorizer**: trimmed, and without the marker line if that decided
the language. -/
def source (origin : Origin) (text : List Char) : List Char :=
  match origin with
  | .className => trimBlankLines text
  | .marker => afterFirstLine (trimBlankLines text)

/-- The word that names a language in a class value. -/
def classWord (name : List Char) : List Char := classLead ++ name

/-- **The class value with the language's word in it.**  Words that are there stay in their order;
the new one goes to the end if it is missing. -/
def ensureClass (cls : Option (List Char)) (name : List Char) : List Char :=
  match cls.map trim with
  | none | some [] => classWord name
  | some kept =>
    if (words kept).contains (classWord name) then kept else kept ++ ' ' :: classWord name

end CodeTint.Language
