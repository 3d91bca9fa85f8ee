/-
# Backends

A backend colorizes sources, in process with the library of grammars (`BuiltinBackend`), or by a call
of an external tool (`ToolBackend`).  Either way it may fail.

**A backend that works in process is another one after each question**, since the library keeps what
it likes; so what answers a question also gives the backend as it is then.
-/
import CodeTint.Highlight.Library
import CodeTint.Options
import CodeTint.Tool.Arguments
import CodeTint.Tool.Fragment
import CodeTint.Tool.Invoke

namespace CodeTint

open Highlight (Capture Library render spansOf)

/-! ## 1. In process -/

/-- **A backend that works in process**: the store of grammars, and what it keeps for itself. -/
structure BuiltinBackend [Library] where
  store : Library.Store
  scratch : Library.Scratch

namespace BuiltinBackend

variable [Library]

/-- A new backend, with the store that it is given or with one of its own. -/
def create (shared : Option Library.Store) : BuiltinBackend :=
  ⟨shared.getD Library.newStore, Library.newScratch⟩

/-- Whether there is a grammar for a language. -/
def knows (b : BuiltinBackend) (language : String) : Bool := (Library.find b.store language).1

/-- The backend after looking for a grammar. -/
def sought (b : BuiltinBackend) (language : String) : BuiltinBackend :=
  { b with store := (Library.find b.store language).2 }

/-- A source read by the library, and the backend after that. -/
def read (b : BuiltinBackend) (language : String) (source : List Char) :
    Except String (List Capture) × BuiltinBackend :=
  let (answer, store, scratch) := Library.read b.store b.scratch language source
  (answer, ⟨store, scratch⟩)

/-- **A source colorized in process.**  In a language without a grammar it is escaped, and otherwise
left alone. -/
def colorize (b : BuiltinBackend) (source : List Char) (language : String) :
    Except Error (List Char) × BuiltinBackend :=
  if b.knows language then
    match (b.sought language).read language source with
    | (.error reason, b) => (.error (.highlight language reason), b)
    | (.ok captures, b) => (.ok (render source (spansOf captures)), b)
  else (.ok (Markup.Entity.encode source), b.sought language)

end BuiltinBackend

/-! ## 2. Tools -/

/-- A tool with all that a call of it takes beside source and language. -/
structure ToolBackend where
  tool : Tool
  params : Option (Dict String)
  searchPath : Option String
  timeout : Option Duration

/-- The call that colorizes a source. -/
def ToolBackend.invocation (b : ToolBackend) (source : List Char) (language : String) :
    Invocation :=
  ⟨b.tool.executable, b.tool.arguments language b.params, source, b.searchPath, b.timeout⟩

/-- **A source colorized by a tool.** -/
def ToolBackend.colorize [Programs] (h : Host) (b : ToolBackend) (source : List Char)
    (language : String) : Except Error (List Char) :=
  match h.invoke (b.invocation source language) with
  | .error e => .error (.tool language e)
  | .ok out => (b.tool.fragment out).mapError .ambiguous

/-! ## 3. Either -/

/-- A backend that is ready for use. -/
inductive Backend [Library] where
  | builtin (b : BuiltinBackend)
  | external (b : ToolBackend)

/-- Whether a backend knows a language well enough to trust a marker; a tool is trusted to. -/
def Backend.supports [Library] (b : Backend) (language : String) : Bool × Backend :=
  match b with
  | .builtin b => (b.knows language, .builtin (b.sought language))
  | .external b => (true, .external b)

/-- A source colorized by a backend. -/
def Backend.colorize [Library] [Programs] (host : Host) (b : Backend) (source : List Char)
    (language : String) : Except Error (List Char) × Backend :=
  match b with
  | .builtin b => ((b.colorize source language).1, .builtin (b.colorize source language).2)
  | .external b => (b.colorize host source language, .external b)

end CodeTint
