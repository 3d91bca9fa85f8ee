/-
# A machine, as far as the program sees it

A `Host` has files, a working directory and the search path of its environment.  Paths are followed
step by step (`place?`): each step but the last has to be through a directory that is there.

What changes files gives the changed host back.  What can fail halfway gives, beside the host as it
is then, whether it went well, for the part that was done stays done.

**Copying a file onto itself empties it**: the copy opens its source, then empties its target, and
only then reads (`copyFile`).
-/
import CodeTint.Host.Files
import CodeTint.Host.Path

namespace CodeTint

/-- **The machine.** -/
structure Host where
  files : Node
  cwd : Location
  searchPath : Option String

namespace Host

/-! ## 1. Following paths -/

/-- One step of a path, from a directory that has to be there. -/
def stepFrom? (files : Node) (place : Location) (segment : String) : Option Location :=
  match files.find? place with
  | some (.dir _) =>
    if segment = "" ∨ segment = "." then some place
    else if segment = ".." then some place.dropLast
    else some (place ++ [segment])
  | _ => none

/-- **The place that a path leads to**; there may be nothing there. -/
def place? (h : Host) (p : Path) : Option Location :=
  if p.text = "" then none
  else p.segments.foldlM (stepFrom? h.files) (if p.isAbsolute then [] else h.cwd)

/-- What a path leads to. -/
def node? (h : Host) (p : Path) : Option Node := (h.place? p).bind h.files.find?

/-- Whether something is there. -/
def exists? (h : Host) (p : Path) : Bool := (h.node? p).isSome

/-- Whether a directory is there. -/
def isDir (h : Host) (p : Path) : Bool := (h.node? p).any Node.isDir

/-- Whether a file is there that may be run. -/
def isExecutable (h : Host) (p : Path) : Bool :=
  match h.node? p with
  | some (.file _ x) => x
  | _ => false

/-- The bytes of a file. -/
def read? (h : Host) (p : Path) : Option (List UInt8) :=
  match h.node? p with
  | some (.file bytes _) => some bytes
  | _ => none

/-! ## 2. Changing files -/

/-- **Writes a file**, in a directory that is there. -/
def write? (h : Host) (p : Path) (bytes : List UInt8) : Option Host := do
  let place ← h.place? p
  let files ← h.files.putFile? bytes place
  pure { h with files }

/-- Makes the directories that components name, one after the other, from a place on.  Beside the
files it gives the place where it ends, if all went well. -/
def makeDirs (files : Node) (place : Location) : List Component → Node × Option Location
  | [] => (files, some place)
  | .root :: cs => makeDirs files [] cs
  | .here :: cs => makeDirs files place cs
  | .up :: cs => makeDirs files place.dropLast cs
  | .name s :: cs =>
    match files.find? (place ++ [s]) with
    | some (.dir _) => makeDirs files (place ++ [s]) cs
    | some (.file _ _) => (files, none)
    | none =>
      match files.makeDir? (place ++ [s]) with
      | some files' => makeDirs files' (place ++ [s]) cs
      | none => (files, none)

/-- Makes the directories of a list of components. -/
def createComponents (h : Host) (cs : List Component) : Host × Bool :=
  let (files, place) := makeDirs h.files h.cwd cs
  ({ h with files }, place.isSome)

/-- The directory that holds a path's entry, made with all around it. -/
def createParent (h : Host) (p : Path) : Host × Bool :=
  match p.parentComponents? with
  | some cs => h.createComponents cs
  | none => (h, true)

/-- **Makes a directory and those around it**, as far as they are missing.  A path that ends in `.`
asks for a directory that is there. -/
def createDir (h : Host) (p : Path) : Host × Bool :=
  if p.segments.getLast? = some "." ∧ ¬ h.isDir p then ((h.createParent p).1, false)
  else h.createComponents p.components

/-- Copies the bytes of a file, and whether it may be run, to a place in a directory that is there. -/
def copyBytes? (h : Host) (source target : Path) : Option Host := do
  let s ← h.place? source
  let t ← h.place? target
  match h.files.find? s with
  | some (.file bytes x) =>
    let files ← h.files.putFile? (if s = t then [] else bytes) t
    let files ← files.setExecutable? x t
    pure { h with files }
  | _ => none

/-- **Copies a file**, making the directories around the target. -/
def copyFile (h : Host) (source target : Path) : Host × Bool :=
  match h.createParent target with
  | (h, false) => (h, false)
  | (h, true) =>
    match h.copyBytes? source target with
    | some h => (h, true)
    | none => (h, false)

/-! ## 3. Directories with all they hold -/

/-- The path of something below another path. -/
def below (p : Path) (names : Location) : Path := names.foldl Path.child p

/-- One entry of a tree that is copied. -/
def copyEntry (h : Host) (source target : Path) (names : Location) (n : Node) : Host × Bool :=
  match n with
  | .dir _ => h.createDir (target.join ⟨"/".intercalate names⟩)
  | .file _ _ => h.copyFile (below source names) (target.join ⟨"/".intercalate names⟩)

/-- Entries of a tree copied one after the other; it stops at the first that fails and names it. -/
def copyEntries (h : Host) (source target : Path) : List (Location × Node) → Host × Option Path
  | [] => (h, none)
  | (names, n) :: rest =>
    match h.copyEntry source target names n with
    | (h, true) => copyEntries h source target rest
    | (h, false) => (h, some (target.join ⟨"/".intercalate names⟩))

/-- **Copies all that is below a directory into another**, which may lie inside the first and is not
copied into itself.  Beside the host it gives the path that failed, if one did. -/
def copyTree (h : Host) (source target : Path) : Host × Option Path :=
  match h.createDir target with
  | (h, false) => (h, some target)
  | (h, true) =>
    match h.place? source, h.place? target with
    | some s, some t =>
      if s = t then (h, none)
      else
        match h.files.find? s with
        | some n => h.copyEntries source target (n.contents (fun names => s ++ names == t) [])
        | none => (h, some source)
    | _, none => (h, some target)
    | none, _ => (h, some source)

/-- **The files below a path**, in no order that matters. -/
def filesBelow (h : Host) (p : Path) : List Path :=
  match h.node? p with
  | some n =>
    (n.contents (fun _ => false) []).filterMap fun (names, m) =>
      if m.isDir then none else some (below p names)
  | none => []

end Host

end CodeTint
