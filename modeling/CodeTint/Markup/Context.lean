/-
# What a document's reader has to know about the elements around it

Two things about the elements decide how the text behind a tag is read, and both are followed from
tag to tag, without building a tree.

**The namespace** (`Context.current`).  `svg` and `math` begin foreign content.  There no element
holds text only, CDATA sections exist, and the slash at the end of a tag counts.  Some elements of
foreign content hold HTML again, some start tags drop out of it, one level at a time.

**The guard** (`Guard`).  Inside `select`, and after `frameset`, a document tree would ignore some
tags.  If the ignored tag is one whose text is read in a mode of its own, the text could be read in
two ways.  Then reading stops with an `Ambiguity` instead of taking a guess.
-/
import CodeTint.Markup.Token.Next

namespace CodeTint.Markup

/-- Whether a key is one of the names listed. -/
def isOneOf (names : List String) (key : List Char) : Bool := names.any (fun n => n.toList == key)

/-! ## 1. Elements with text of their own kind -/

/-- The elements whose text ends at their own end tag only, scripts apart. -/
def textElements : List String :=
  ["textarea", "title", "style", "iframe", "xmp", "noembed", "noframes", "noscript"]

/-- **The mode that the text of an element is read in**, in HTML. -/
def modeOf (key : List Char) : Mode :=
  if isOneOf textElements key then .textOf key
  else if key = "script".toList then .script
  else if key = "plaintext".toList then .plain
  else .content

/-! ## 2. The guard -/

/-- The text behind this tag could be read in two ways. -/
structure Ambiguity where
  key : List Char
  deriving DecidableEq, Repr

/-- Where tags may be ignored: nowhere, inside `select`, in a number of `template`s inside
`select`, or from `frameset` on. -/
inductive Guard where
  | off
  | inSelect
  | inTemplate (depth : Nat)
  | inFrameset
  deriving DecidableEq, Repr

/-- Stops at a tag whose text has a mode of its own, the one allowed name apart. -/
def Guard.check (allowed : List String) (key : List Char) (g : Guard) : Except Ambiguity Guard :=
  if modeOf key ≠ .content ∧ ¬ isOneOf allowed key then .error ⟨key⟩ else .ok g

/-- **The guard after a start tag.**  Some start tags end a `select` early, and then their text is
read as always. -/
def Guard.onStart (g : Guard) (key : List Char) : Except Ambiguity Guard :=
  match g with
  | .off =>
    if key = "select".toList then .ok .inSelect
    else if key = "frameset".toList then .ok .inFrameset
    else .ok .off
  | .inSelect =>
    if isOneOf ["select", "textarea", "input", "keygen"] key then .ok .off
    else if key = "template".toList then .ok (.inTemplate 0)
    else g.check ["script"] key
  | .inTemplate depth =>
    if key = "template".toList then .ok (.inTemplate (depth + 1)) else g.check [] key
  | .inFrameset => g.check ["noframes"] key

/-- The guard after an end tag. -/
def Guard.onEnd (g : Guard) (key : List Char) : Guard :=
  match g with
  | .inSelect => if key = "select".toList then .off else g
  | .inTemplate 0 => if key = "template".toList then .inSelect else g
  | .inTemplate (depth + 1) => if key = "template".toList then .inTemplate depth else g
  | _ => g

/-! ## 3. Namespaces -/

/-- The three vocabularies of a document. -/
inductive Namespace where
  | html
  | svg
  | mathml
  deriving DecidableEq, Repr

/-- The start tags that foreign content does not hold. -/
def htmlOnly : List String :=
  ["b", "big", "blockquote", "body", "br", "center", "code", "dd", "div", "dl", "dt", "em",
    "embed", "h1", "h2", "h3", "h4", "h5", "h6", "head", "hr", "i", "img", "li", "listing", "menu",
    "meta", "nobr", "ol", "p", "pre", "ruby", "s", "small", "span", "strong", "strike", "sub",
    "sup", "table", "tt", "u", "ul", "var"]

/-- The elements of a vocabulary that hold HTML. -/
def Namespace.holdsHtml (ns : Namespace) (key : List Char) : Bool :=
  match ns with
  | .html => false
  | .svg => isOneOf ["desc", "title", "foreignobject"] key
  | .mathml => isOneOf ["mi", "mo", "mn", "ms", "mtext"] key

/-- The name of the mathematical element that holds HTML if its encoding says so. -/
def annotationKey : List Char := "annotation-xml".toList

/-- Whether an annotation is written in HTML. -/
def Tag.hasHtmlEncoding (t : Tag) : Bool :=
  t.attrs.any fun a =>
    a.key == "encoding".toList &&
      isOneOf ["text/html", "application/xhtml+xml"] (Text.lower a.value)

/-- Whether a `font` tag is one that foreign content does not hold. -/
def Tag.hasFontAttr (t : Tag) : Bool := t.attrs.any fun a => isOneOf ["color", "size", "face"] a.key

/-! ## 4. The context -/

/-- **Where reading stands**: the namespace, those around it from the inside out, and the guard. -/
structure Context where
  current : Namespace
  outer : List Namespace
  guard : Guard
  deriving DecidableEq, Repr

/-- The context at the start of a document. -/
def Context.start : Context := ⟨.html, [], .off⟩

/-- Whether a CDATA section may begin here. -/
def Context.isForeign (c : Context) : Bool := c.current != .html

/-- Goes into a namespace. -/
def Context.enter (c : Context) (ns : Namespace) : Context :=
  { c with current := ns, outer := c.current :: c.outer }

/-- Goes back to the namespace around. -/
def Context.leave (c : Context) : Context :=
  match c.outer with
  | [] => c
  | ns :: outer => { c with current := ns, outer := outer }

/-- The context after a start tag in foreign content that is not `svg` or `math`. -/
def Context.onForeignStart (c : Context) (t : Tag) : Context :=
  if isOneOf htmlOnly t.key then c.leave
  else if c.current.holdsHtml t.key then if t.selfClosing then c else c.enter .html
  else if t.key = "font".toList then if t.hasFontAttr then c.leave else c
  else if c.current = .mathml ∧ t.key = annotationKey ∧ ¬ t.selfClosing ∧ t.hasHtmlEncoding then
    c.enter .html
  else c

/-- **The context after a start tag**, with the mode for the text behind it. -/
def Context.onStart (c : Context) (t : Tag) : Except Ambiguity (Context × Mode) :=
  match c.guard.onStart t.key with
  | .error e => .error e
  | .ok g =>
    let c := { c with guard := g }
    if t.key = "svg".toList then .ok (c.enter .svg, .content)
    else if t.key = "math".toList then .ok (c.enter .mathml, .content)
    else if c.current = .html then .ok (c, modeOf t.key)
    else .ok (c.onForeignStart t, .content)

/-- The context after an end tag in HTML: the element that held the HTML may end. -/
def Context.onHtmlEnd (c : Context) (key : List Char) : Context :=
  match c.outer with
  | [] => c
  | ns :: _ =>
    if ns.holdsHtml key || (ns == .mathml && key == annotationKey) then c.leave else c

/-- **The context after an end tag.** -/
def Context.onEnd (c : Context) (key : List Char) : Context :=
  let c := { c with guard := c.guard.onEnd key }
  match c.current with
  | .html => c.onHtmlEnd key
  | .svg => if isOneOf ["svg", "p", "br"] key then c.leave else c
  | .mathml => if isOneOf ["math", "p", "br"] key then c.leave else c

/-! ## 5. Which elements hold content -/

/-- The elements of HTML that never have content. -/
def contentless : List String :=
  ["area", "base", "basefont", "bgsound", "br", "col", "embed", "hr", "img", "input", "keygen",
    "link", "meta", "param", "source", "track", "wbr"]

/-- **Whether the element of a start tag is open after it**, in the namespace that it is in.  In
HTML the name decides, in foreign content the slash. -/
def Tag.opens (t : Tag) (ns : Namespace) : Bool :=
  match ns with
  | .html => !isOneOf contentless t.key
  | _ => !t.selfClosing

end CodeTint.Markup
