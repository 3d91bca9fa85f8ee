/-
# Finding an executable

A search path lists directories with colons between.  The first that holds an executable file of the
name wins; **an empty entry is the working directory**.  A name that has a slash in it is not
searched for, it is followed from the working directory.

What is found is a path, and it is the path as it was put together: below a relative entry it is
relative, and below the empty entry it is the bare name.
-/
import CodeTint.Error
import CodeTint.Host

namespace CodeTint

/-- The path of the working directory. -/
def Host.cwdPath (h : Host) : Path := ⟨"/" ++ "/".intercalate h.cwd⟩

/-- The directories that a search path lists. -/
def searchEntries (searchPath : String) : List Path :=
  (searchPath.toList.splitOn ':').map fun s => ⟨String.ofList s⟩

/-- Whether a name says itself where its file is. -/
def hasDirectory (name : String) : Bool := 1 < (Path.mk name).components.length

/-- **The paths where an executable may be**, in the order in which they are tried. -/
def Host.candidates (h : Host) (executable searchPath : String) : List Path :=
  if hasDirectory executable then [h.cwdPath.join ⟨executable⟩]
  else (searchEntries searchPath).map (fun dir => dir.join ⟨executable⟩)

/-- **Finds an executable.**  Without a search path, or with an empty one, nothing is found. -/
def Host.locate (h : Host) (executable : String) (searchPath : Option String) :
    Except ToolError Path :=
  match searchPath with
  | none | some "" => .error (.notFound executable)
  | some dirs =>
    match (h.candidates executable dirs).find? h.isExecutable with
    | some p => .ok p
    | none => .error (.notFound executable)

/-- The search path that the system takes where the environment has none. -/
def defaultSearchPath : String := "/bin:/usr/bin"

/-- The file that is started for a path: one with a slash in it is followed, **a bare name is looked
up on the search path of the environment**. -/
def Host.started? (h : Host) (p : Path) : Option Path :=
  if p.text.toList.contains '/' then if h.isExecutable p then some p else none
  else
    ((searchEntries (h.searchPath.getD defaultSearchPath)).map (fun dir => dir.join p)).find?
      h.isExecutable

/-- A path with the working directory taken off its front, if it lies below it. -/
def Host.relative (h : Host) (p : Path) : Path :=
  match Text.after? (h.cwdPath.text ++ "/").toList p.text.toList with
  | some rest =>
    match (rest.splitOn '/').dropWhile (fun s => s == [] || s == ['.']) with
    | [] => p
    | parts => ⟨String.ofList (['/'].intercalate parts)⟩
  | none => p

end CodeTint
