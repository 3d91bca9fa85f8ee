/-
# The colorizers

Three colorizers turn code into markup.  One works in the program itself, two are tools that the
system has to provide.  Settings call them by their names, and a name is taken only as it is
written here.
-/

namespace CodeTint

/-- The external tools that the program can drive. -/
inductive Tool where
  | pygmentize
  | highlight
  deriving DecidableEq, Repr

/-- The name of the tool's executable file. -/
def Tool.executable : Tool → String
  | .pygmentize => "pygmentize"
  | .highlight => "highlight"

/-- Who colorizes a block. -/
inductive Colorizer where
  | builtin
  | tool (t : Tool)
  deriving DecidableEq, Repr

/-- All colorizers. -/
def Colorizer.all : List Colorizer := [.builtin, .tool .pygmentize, .tool .highlight]

/-- The name that settings use. -/
def Colorizer.name : Colorizer → String
  | .builtin => "arborium"
  | .tool .pygmentize => "pygmentize"
  | .tool .highlight => "simon_highlight"

/-- **The colorizer of a name.** -/
def Colorizer.ofName? (s : String) : Option Colorizer := Colorizer.all.find? (fun c => c.name == s)

theorem Colorizer.ofName?_name (c : Colorizer) : Colorizer.ofName? c.name = some c := by
  cases c with
  | builtin => decide
  | tool t => cases t <;> decide

theorem Colorizer.ofName?_eq_some {s : String} {c : Colorizer} :
    Colorizer.ofName? s = some c ↔ c.name = s :=
  ⟨fun h => eq_of_beq (List.find?_some h :),
    fun h => h ▸ c.ofName?_name⟩

/-- The external tool behind a colorizer. -/
def Colorizer.tool? : Colorizer → Option Tool
  | .builtin => none
  | .tool t => some t

end CodeTint
