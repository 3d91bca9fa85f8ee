/-
# The three ways to close an element that has no content

HTML writes `<br>`, XHTML writes `<br />`, and XML writes `<br/>`.

* In **html** a void tag loses the slash if it has one.
* In **xhtml** every void tag gets a blank and the slash.
* In **xml** only a tag that has the slash is touched, since a vocabulary of XML may use a name such
  as `link` for an element with content.

A tag that is touched is written out anew: name and attribute names in lower case, every attribute
with a value in double quotes.  What `attr?` reads from it is what it read from the tag, up to the
spelling of a double quote.
-/
import CodeTint.Markup.Context
import CodeTint.Markup.Rewrite

namespace CodeTint.Markup

/-- The dialects that a document can be written in. -/
inductive Dialect where
  | html
  | xhtml
  | xml
  deriving DecidableEq, Repr, Inhabited

/-- The dialect's name. -/
def Dialect.name : Dialect → String
  | .html => "html"
  | .xhtml => "xhtml"
  | .xml => "xml"

/-- All dialects. -/
def Dialect.all : List Dialect := [.html, .xhtml, .xml]

/-- **The dialect of a name**, whatever its ASCII case. -/
def Dialect.ofName? (s : String) : Option Dialect :=
  Dialect.all.find? fun d => d.name.toList == Text.lower s.toList

/-- The elements that are written without an end tag. -/
def voidNames : List String :=
  ["area", "base", "br", "col", "embed", "hr", "img", "input", "link", "meta", "param", "source",
    "track", "wbr"]

/-- Whether a tag is one of those elements'. -/
def Tag.isVoid (t : Tag) : Bool := isOneOf voidNames t.key

/-- **How a dialect closes a void tag**; none if the tag is left as it is. -/
def Dialect.closing? (d : Dialect) (selfClosing : Bool) : Option (List Char) :=
  match d with
  | .html => if selfClosing then some ['>'] else none
  | .xhtml => some [' ', '/', '>']
  | .xml => if selfClosing then some ['/', '>'] else none

/-- The tag written out anew, with the given closing. -/
def Tag.writtenOut (t : Tag) (closing : List Char) : List Char :=
  '<' :: t.key ++ t.attrs.flatMap (fun a => ' ' :: attrText a.key a.value) ++ closing

/-- **A void tag in the dialect's form**; none if it is no void tag or is left as it is. -/
def Dialect.voidTag? (d : Dialect) (t : Tag) : Option (List Char) :=
  if t.isVoid then (d.closing? t.selfClosing).map t.writtenOut else none

end CodeTint.Markup
