/-
# The registry, and whom a language is routed to

A registry belongs to one set of options.  It makes a backend when one is first asked for and keeps
it.  Several registries can share one store of grammars; one that shares none leaves it to its backend
to have one.

**The search path is fixed from one start of a run to the next**: the one of the options if they have
one, else the one that the environment has at that moment.  Starting a run drops the backends of
external tools, since they carry the search path with them; the one that works in process stays.
-/
import CodeTint.Backend
import CodeTint.Document.Plan

namespace CodeTint

open Highlight (Library)

/-- **The backends for one set of options.** -/
structure Registry [Library] where
  options : Options
  searchPath : Option String
  store : Option Library.Store
  builtin : Option BuiltinBackend
  pygmentize : Option ToolBackend
  highlight : Option ToolBackend

namespace Registry

variable [Library]

/-! ## 1. Making and keeping backends -/

/-- A registry without backends yet, with the store that it shares if it shares one; `ambient` is the
environment's search path. -/
def make (store : Option Library.Store) (options : Options) (ambient : Option String) : Registry :=
  ⟨options, options.searchPath <|> ambient, store, none, none, none⟩

/-- A registry that shares no store. -/
def create (options : Options) (ambient : Option String) : Registry := make none options ambient

/-- A registry that shares a store. -/
def withStore (options : Options) (ambient : Option String) (store : Library.Store) : Registry :=
  make (some store) options ambient

/-- **Starts a run**: the search path is taken anew, and with it the tools. -/
def startRun (ambient : Option String) (r : Registry) : Registry :=
  { r with searchPath := r.options.searchPath <|> ambient, pygmentize := none, highlight := none }

/-- **The store as others have left it** who share it.  A registry that shares none does not notice. -/
def seeStore (r : Registry) (store : Library.Store) : Registry :=
  match r.store with
  | none => r
  | some _ =>
    { r with store := some store, builtin := r.builtin.map fun b => { b with store } }

/-- The backend that a tool gets now. -/
def freshBackend (r : Registry) (t : Tool) : ToolBackend :=
  ⟨t, r.options.paramsFor (.tool t), r.searchPath, r.options.timeout⟩

/-- The backend that is kept for a tool. -/
def kept? (r : Registry) : Tool → Option ToolBackend
  | .pygmentize => r.pygmentize
  | .highlight => r.highlight

/-- Keeps a backend for a tool. -/
def keep (r : Registry) (b : ToolBackend) : Tool → Registry
  | .pygmentize => { r with pygmentize := some b }
  | .highlight => { r with highlight := some b }

/-- The backend that works in process, as it is or as it is made now. -/
def builtinBackend (r : Registry) : BuiltinBackend := r.builtin.getD (.create r.store)

/-- **The backend of a colorizer**, made and kept if there is none. -/
def backend (c : Colorizer) (r : Registry) : Backend × Registry :=
  match c with
  | .builtin => (.builtin r.builtinBackend, { r with builtin := some r.builtinBackend })
  | .tool t =>
    let b := (r.kept? t).getD (r.freshBackend t)
    (.external b, r.keep b t)

/-- **A backend after it was asked**, in its place again.  What it did to a store that is shared is
done for all. -/
def put (r : Registry) : Backend → Registry
  | .builtin b => { r with builtin := some b, store := r.store.map fun _ => b.store }
  | .external _ => r

/-! ## 2. Questions -/

/-- **The colorizer that a language is routed to.** -/
def colorizerFor (r : Registry) (language : String) : Except Error Colorizer :=
  let name := r.options.colorizerFor language
  match Colorizer.ofName? name with
  | some c => .ok c
  | none => .error (.unknownColorizer name language)

/-- The backend that a language is routed to. -/
def routed (language : String) : Run Registry Backend := do
  let r ← get
  let c ← Run.ofExcept (r.colorizerFor language)
  let (b, r) := r.backend c
  set r
  pure b

/-- Whether the colorizer for a language recognizes it. -/
def recognizes (language : String) : Run Registry Bool := do
  let (known, b) := (← routed language).supports language
  modify (·.put b)
  pure known

variable [Programs]

/-- **A source colorized by whom its language is routed to.** -/
def colorize (host : Host) (source : List Char) (language : String) : Run Registry (List Char) := do
  let (answer, b) := (← routed language).colorize host source language
  modify (·.put b)
  Run.ofExcept answer

/-- The registry as an engine for documents. -/
def engine (host : Host) : Document.Engine Registry where
  recognizes := fun language => recognizes (String.ofList language)
  colorize := fun source language => colorize host source (String.ofList language)

end Registry

end CodeTint
