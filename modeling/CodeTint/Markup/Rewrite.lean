/-
# Writing a document back with changes

An `Editor` looks at each start tag, with the tags around it, and says what becomes of the element:
an `Edit`.  Everything else is written back as it was.

* `Edit.tag` is written in place of the start tag.
* If there is new `content`, it is written behind that, and **all that stood in the element is
  dropped** up to the tag that ends it; no editing shows inside of it.
* `keepsEnd` says whether the element's end tag stays.  If one end tag ends several elements, it
  goes as soon as one of them does not keep it.

An element that is not open after its start tag has neither content nor end tag; of its edit only
the tag counts.

The editor still sees the start tags in dropped content and the ends of all elements, so that what
it counts agrees with a reading of the same document.
-/
import CodeTint.Markup.Event
import CodeTint.Markup.OpenElements

namespace CodeTint.Markup

/-! ## 1. Edits -/

/-- What becomes of one element. -/
structure Edit where
  tag : List Char
  content : Option (List Char)
  keepsEnd : Bool
  deriving DecidableEq, Repr

/-- The element stays as it is. -/
def Edit.keep (t : Tag) : Edit := ⟨t.raw, none, true⟩

/-- The element gets other content. -/
def Edit.fill (tag content : List Char) : Edit := ⟨tag, some content, true⟩

/-- The element, with all its content, gives way to a text. -/
def Edit.replace (s : List Char) : Edit := ⟨s, some [], false⟩

/-- The element's tags go, its content stays. -/
def Edit.unwrap : Edit := ⟨[], none, false⟩

/-- **One who changes a document.**  `start` gets the tags around, the start tag and whether its
element is open, and gives the edit with a note for the element; `finish` gets that note when the
element ends. -/
structure Editor (σ α : Type) where
  start : σ → List Tag → Tag → Bool → Edit × α × σ
  finish : α → σ → σ

/-! ## 2. The walk -/

variable {σ α : Type}

/-- What is remembered of an open element: the editor's note, whether the content is dropped, and
whether the end tag stays. -/
structure Mark (α : Type) where
  note : α
  hides : Bool
  keepsEnd : Bool
  deriving Repr

/-- Where the walk stands. -/
structure Editing (σ α : Type) where
  stack : List (Open (Mark α))
  state : σ

/-- Whether nothing around drops its content. -/
def isShown (stack : List (Open (Mark α))) : Bool := stack.all (fun o => !o.note.hides)

/-- The text if it is shown. -/
def shown (stack : List (Open (Mark α))) (s : List Char) : List Char :=
  if isShown stack then s else []

/-- What an edit writes at the start tag. -/
def Edit.opening (e : Edit) (isOpen : Bool) : List Char :=
  if isOpen then e.tag ++ e.content.getD [] else e.tag

/-- **One event**: what is written for it, and where the walk stands afterwards. -/
def Editor.step (ed : Editor σ α) (w : Editing σ α) : Event → List Char × Editing σ α
  | .start t isOpen =>
    let (edit, note, state) := ed.start w.state (tagsOf w.stack) t isOpen
    let stack :=
      if isOpen then ⟨t, ⟨note, edit.content.isSome, edit.keepsEnd⟩⟩ :: w.stack else w.stack
    (shown w.stack (edit.opening isOpen), ⟨stack, state⟩)
  | .finish raw key =>
    match endElement? key w.stack with
    | none => (shown w.stack raw, w)
    | some (ended, left) =>
      (shown left (if ended.all (fun o => o.note.keepsEnd) then raw else []),
        ⟨left, ended.foldl (fun s o => ed.finish o.note.note s) w.state⟩)
  | e => (shown w.stack e.raw, w)

/-- What is written for a sequence of events, and where the walk ends. -/
def Editor.walk (ed : Editor σ α) : Editing σ α → List Event → List Char × Editing σ α
  | w, [] => ([], w)
  | w, e :: es =>
    let (out, w') := ed.step w e
    let (rest, w'') := ed.walk w' es
    (out ++ rest, w'')

/-- **The document as the editor leaves it**, with the editor's last state. -/
def Editor.rewrite (ed : Editor σ α) (state : σ) (doc : List Char) :
    Except Ambiguity (List Char × σ) :=
  (events doc).map fun es =>
    let (out, w) := ed.walk ⟨[], state⟩ es
    (out, w.state)

/-! ## 3. Tags with a changed attribute -/

/-- A value as it stands between double quotes. -/
def quoteValue (s : List Char) : List Char :=
  s.flatMap fun c => if c = '"' then "&quot;".toList else [c]

/-- An attribute with a value, in double quotes. -/
def attrText (name value : List Char) : List Char :=
  name ++ '=' :: '"' :: quoteValue value ++ ['"']

/-- The attributes with one value set: the first of that name is written anew, under the name as it
stands there; if there is none, the attribute goes to the end. -/
def setAttr (key value : List Char) : List Attr → List (List Char)
  | [] => [attrText key value]
  | a :: as =>
    if a.key = key then attrText a.name value :: as.map Attr.raw
    else a.raw :: setAttr key value as

/-- **The start tag with one attribute set.**  It is written with one space before each attribute
and without a closing slash; the other attributes keep their spelling. -/
def Tag.withAttr (t : Tag) (key value : List Char) : List Char :=
  '<' :: t.name ++ (setAttr key value t.attrs).flatMap (' ' :: ·) ++ ['>']

end CodeTint.Markup
