/-
# Paths

A path is a text; it is kept as it was given, since messages show it.  What it says are its
`components`: repeated slashes, a slash at the end and a `.` other than in front say nothing.

**Two paths are the same path if their components are** (`Path.same`), and they are put in order by
their components too.  So `site` and `site/` are the same path, `site` and `./site` are not, though
both lead to one place.  Where a path leads is another question, which only the files on the machine
can answer.
-/

namespace CodeTint

/-! ## 1. Components -/

/-- A step of a path: to the root, to the place it starts from, to the directory around, or to an
entry. -/
inductive Component where
  | root
  | here
  | up
  | name (s : String)
  deriving DecidableEq, Repr

/-- The rank of a kind of component. -/
def Component.rank : Component → Nat
  | .root => 0
  | .here => 1
  | .up => 2
  | .name _ => 3

/-- The order of components: by kind, and names by their characters. -/
def Component.le : Component → Component → Bool
  | .name a, .name b => a ≤ b
  | a, b => a.rank ≤ b.rank

/-- The order of lists of components, the first difference deciding. -/
def Component.listLe : List Component → List Component → Bool
  | [], _ => true
  | _ :: _, [] => false
  | a :: as, b :: bs => if a = b then listLe as bs else a.le b

/-- A path, as it was given. -/
structure Path where
  text : String
  deriving DecidableEq, Repr, Inhabited

namespace Path

/-- The stretches between the slashes. -/
def segments (p : Path) : List String := (p.text.toList.splitOn '/').map String.ofList

/-- Whether the path starts at the root. -/
def isAbsolute (p : Path) : Bool := "/".toList.isPrefixOf p.text.toList

/-- What a stretch that is not the first one says. -/
def component? (s : String) : Option Component :=
  if s = "" ∨ s = "." then none else if s = ".." then some .up else some (.name s)

/-- **The components of a path.** -/
def components (p : Path) : List Component :=
  match p.segments with
  | [] => []
  | s :: rest =>
    (if p.isAbsolute then [.root] else if s = "." then [.here] else (component? s).toList) ++
      rest.filterMap component?

/-- Whether two paths have the same components. -/
def same (p q : Path) : Bool := p.components == q.components

/-- The order of paths. -/
def le (p q : Path) : Bool := Component.listLe p.components q.components

/-! ## 2. Putting together and taking apart -/

/-- **A path behind another.**  An absolute one stands for itself. -/
def join (p : Path) (q : Path) : Path :=
  if q.isAbsolute then q
  else if p.text = "" ∨ p.text.endsWith "/" then ⟨p.text ++ q.text⟩
  else ⟨p.text ++ "/" ++ q.text⟩

/-- The components of the directory that holds a path's entry; a path to nowhere and the root have
none. -/
def parentComponents? (p : Path) : Option (List Component) :=
  match p.components.reverse with
  | [] => none
  | .root :: _ => none
  | _ :: front => some front.reverse

/-- The name of a path's entry, if the path ends in a name. -/
def fileName? (p : Path) : Option String :=
  match p.components.getLast? with
  | some (.name s) => some s
  | _ => none

/-- **The extension**: what follows the last dot of the entry's name, unless only that dot is in
front. -/
def extension? (p : Path) : Option String :=
  match p.fileName? with
  | none => none
  | some s =>
    let ext := s.toList.reverse.takeWhile (· != '.')
    match s.toList.reverse.drop ext.length with
    | [] => none
    | [_] => none
    | _ :: _ :: _ => some (String.ofList ext.reverse)

/-- A path cut off its front: the components behind `root`, if the path begins with it. -/
def dropFront? : List Component → List Component → Option (List Component)
  | [], cs => some cs
  | _ :: _, [] => none
  | r :: rs, c :: cs => if r = c then dropFront? rs cs else none

/-- Where the entry of a name in a directory is. -/
def child (p : Path) (name : String) : Path := p.join ⟨name⟩

end Path

end CodeTint
