/-
# The files of a machine

A `Node` is a file or a directory with its entries, the one that was made last in front.  `find?`
looks a place up; `putFile?` and `makeDir?` change one place and fail where a machine would: if the
directory around is missing, or if something of the other kind is there.

There are no links: a place has one name.
-/

namespace CodeTint

/-- A file or a directory. -/
inductive Node where
  | file (bytes : List UInt8) (executable : Bool)
  | dir (entries : List (String × Node))

/-- Where something is: the names from the root on. -/
abbrev Location := List String

namespace Node

instance : Inhabited Node := ⟨.dir []⟩

/-! ## 1. Looking -/

/-- Whether it is a directory. -/
def isDir : Node → Bool
  | .dir _ => true
  | .file _ _ => false

/-- The entry of a name. -/
def entry? (n : Node) (name : String) : Option Node :=
  match n with
  | .dir es => es.lookup name
  | .file _ _ => none

/-- **What is at a place.** -/
def find? (n : Node) : Location → Option Node
  | [] => some n
  | name :: rest => (n.entry? name).bind (fun m => m.find? rest)

/-- The bytes of the file at a place, if there is one. -/
def bytes? (n : Node) (place : Location) : Option (List UInt8) :=
  match n.find? place with
  | some (.file bytes _) => some bytes
  | _ => none

/-! ## 2. Changing -/

/-- The entries with one name set; a new one goes to the front. -/
def setEntry (name : String) (m : Node) (es : List (String × Node)) : List (String × Node) :=
  if es.any (fun e => e.1 == name) then es.map (fun e => if e.1 == name then (name, m) else e)
  else (name, m) :: es

/-- **Changes what is at a place.**  `f` gets what is there, if anything, and says what is to be
there or that it cannot be done; the directory around has to be there. -/
def alter? (f : Option Node → Option Node) (n : Node) : Location → Option Node
  | [] => f (some n)
  | [name] =>
    match n with
    | .dir es => (f (es.lookup name)).map fun m => .dir (setEntry name m es)
    | .file _ _ => none
  | name :: rest =>
    match n with
    | .dir es =>
      match es.lookup name with
      | some m => (alter? f m rest).map fun m' => .dir (setEntry name m' es)
      | none => none
    | .file _ _ => none

/-- Writes a file.  One that is there keeps its permission to be run. -/
def putFile? (n : Node) (bytes : List UInt8) (place : Location) : Option Node :=
  n.alter? (fun
    | some (.dir _) => none
    | some (.file _ x) => some (.file bytes x)
    | none => some (.file bytes false)) place

/-- Says whether a file may be run. -/
def setExecutable? (n : Node) (executable : Bool) (place : Location) : Option Node :=
  n.alter? (fun
    | some (.file bytes _) => some (.file bytes executable)
    | _ => none) place

/-- Makes a directory where nothing is. -/
def makeDir? (n : Node) (place : Location) : Option Node :=
  n.alter? (fun
    | some _ => none
    | none => some (.dir [])) place

/-- The entries without those of a name. -/
def dropEntry (name : String) (es : List (String × Node)) : List (String × Node) :=
  es.filter (fun e => e.1 != name)

/-- Takes away the file at a place. -/
def removeFile? (n : Node) : Location → Option Node
  | [] => none
  | [name] =>
    match n with
    | .dir es =>
      match es.lookup name with
      | some (.file _ _) => some (.dir (dropEntry name es))
      | _ => none
    | .file _ _ => none
  | name :: rest =>
    match n with
    | .dir es =>
      match es.lookup name with
      | some m => (removeFile? m rest).map fun m' => .dir (setEntry name m' es)
      | none => none
    | .file _ _ => none

/-! ## 3. Walking -/

mutual

/-- **All that is below a directory**: each entry with the names that lead to it, a directory before
what it holds.  A directory that `skip` holds of is left out with all it holds. -/
def contents (skip : Location → Bool) (lead : Location) : Node → List (Location × Node)
  | .file _ _ => []
  | .dir es => contentsOf skip lead es

/-- The same for a list of entries. -/
def contentsOf (skip : Location → Bool) (lead : Location) :
    List (String × Node) → List (Location × Node)
  | [] => []
  | (name, m) :: es =>
    let here := lead ++ [name]
    (if m.isDir && skip here then [] else (here, m) :: contents skip here m) ++
      contentsOf skip lead es

end

end Node

end CodeTint
