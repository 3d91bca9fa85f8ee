/-
# A small library of grammars

A grammar cuts a source into lexemes and tags some of them.  The grammars here know what can be told
line by line or sign by sign: **line comments** for the languages that mark them with `#` or `//`,
and the **values of JSON**.  What a grammar does not know stays untagged.

**They are the library with which the program is run here** (`grammars`).  What is proved about the
program is proved for every library, if not said otherwise.
-/
import CodeTint.Highlight.Library
import CodeTint.Text.Blank

namespace CodeTint.Highlight

open CodeTint.Text

/-! ## 1. Names -/

/-- The languages with a grammar. -/
inductive Grammar where
  | bash | c | css | go | html | javascript | json | python | ruby | rust | toml | xml | yaml
  deriving DecidableEq, Repr

/-- The names that a grammar goes by. -/
def Grammar.names : Grammar → List String
  | .bash => ["bash", "sh", "shell"]
  | .c => ["c", "h"]
  | .css => ["css"]
  | .go => ["go", "golang"]
  | .html => ["html", "htm"]
  | .javascript => ["javascript", "cjs", "js", "jsx", "mjs"]
  | .json => ["json", "jsonc"]
  | .python => ["python", "py", "py3", "python3"]
  | .ruby => ["ruby", "rb"]
  | .rust => ["rust", "rs"]
  | .toml => ["toml"]
  | .xml => ["xml", "svg", "xsl", "xslt"]
  | .yaml => ["yaml", "yml"]

/-- All grammars. -/
def Grammar.all : List Grammar :=
  [.bash, .c, .css, .go, .html, .javascript, .json, .python, .ruby, .rust, .toml, .xml, .yaml]

/-- What begins a line comment. -/
def Grammar.commentMark? : Grammar → Option (List Char)
  | .bash | .python | .ruby | .toml | .yaml => some "#".toList
  | .c | .go | .javascript | .rust => some "//".toList
  | .css | .html | .json | .xml => none

/-! ## 2. Lexemes -/

/-- A stretch of source, with a tag if the grammar knows what it is. -/
structure Lexeme where
  tag : Option String
  text : List Char
  deriving DecidableEq, Repr

/-- The lexemes of a line: an indented comment, or plain text. -/
def lineLexemes (mark line : List Char) : List Lexeme :=
  let body := line.dropWhile isSpace
  if mark.isPrefixOf body then [⟨none, line.takeWhile isSpace⟩, ⟨some "c", body⟩]
  else [⟨none, line⟩]

/-- **The lexemes of a source with line comments.** -/
def commentLexemes (mark source : List Char) : List Lexeme :=
  ((source.splitOn '\n').map (lineLexemes mark)).intersperse [⟨none, ['\n']⟩] |>.flatten

/-- What is left of a string behind its opening quote, with the closing one, and what follows. -/
def stringBody : List Char → List Char × List Char
  | [] => ([], [])
  | '"' :: s => (['"'], s)
  | '\\' :: c :: s => let (a, b) := stringBody s; ('\\' :: c :: a, b)
  | c :: s => let (a, b) := stringBody s; (c :: a, b)

theorem stringBody_append (s : List Char) : (stringBody s).1 ++ (stringBody s).2 = s := by
  fun_induction stringBody s <;> simp_all

/-- The characters that a number goes on with. -/
def goesOnNumber (c : Char) : Bool :=
  c.isDigit || c == '+' || c == '-' || c == '.' || c == 'e' || c == 'E'

/-- **The lexemes of a JSON value**: strings, numbers, and the three constants are tagged. -/
def jsonLexemes : List Char → List Lexeme
  | [] => []
  | c :: s =>
    if c = '"' then ⟨some "s", c :: (stringBody s).1⟩ :: jsonLexemes (stringBody s).2
    else if c = '-' ∨ c.isDigit then
      ⟨some "n", c :: s.takeWhile goesOnNumber⟩ :: jsonLexemes (s.dropWhile goesOnNumber)
    else if c.isAlpha then
      ⟨some "co", c :: s.takeWhile Char.isAlpha⟩ :: jsonLexemes (s.dropWhile Char.isAlpha)
    else ⟨none, [c]⟩ :: jsonLexemes s
termination_by s => s.length
decreasing_by
  · have h := congrArg List.length (stringBody_append s)
    rw [List.length_append] at h
    simp only [List.length_cons]
    omega
  · exact Nat.lt_succ_of_le (List.dropWhile_suffix _).length_le
  · exact Nat.lt_succ_of_le (List.dropWhile_suffix _).length_le
  · exact Nat.lt_succ_self _

/-- The lexemes of a source. -/
def Grammar.lexemes (g : Grammar) (source : List Char) : List Lexeme :=
  match g, g.commentMark? with
  | .json, _ => jsonLexemes source
  | _, some mark => commentLexemes mark source
  | _, none => [⟨none, source⟩]

/-! ## 3. Spans -/

/-- The spans of the tagged lexemes, the first of which begins at byte `start`. -/
def spansFrom (start : Nat) : List Lexeme → List Span
  | [] => []
  | l :: ls =>
    let stop := start + Utf8.size l.text
    match l.tag with
    | some tag => ⟨start, stop, tag⟩ :: spansFrom stop ls
    | none => spansFrom stop ls

/-- **The spans that a grammar reports.** -/
def Grammar.spans (g : Grammar) (source : List Char) : List Span := spansFrom 0 (g.lexemes source)

/-! ## 4. The library -/

/-- The grammars that are at hand. -/
structure Highlighter where
  grammars : List Grammar
  deriving DecidableEq, Repr

/-- All of them. -/
def Highlighter.full : Highlighter := ⟨Grammar.all⟩

/-- **The grammar of a name.** -/
def Highlighter.grammar? (h : Highlighter) (language : String) : Option Grammar :=
  h.grammars.find? (fun g => g.names.contains language)

/-- Whether there is a grammar for a language. -/
def Highlighter.knows (h : Highlighter) (language : String) : Bool := (h.grammar? language).isSome

/-- **The source as markup**: rendered if there is a grammar for the language, escaped if not. -/
def Highlighter.colorize (h : Highlighter) (language : String) (source : List Char) : List Char :=
  match h.grammar? language with
  | some g => render source (g.spans source)
  | none => Markup.Entity.encode source

/-- The captures of spans; they are named by the tags. -/
def capturesOf (spans : List Span) : List Capture := spans.map fun s => ⟨s.start, s.stop, s.tag⟩

/-- What is read of a source in a language. -/
def Highlighter.read (h : Highlighter) (language : String) (source : List Char) :
    Except String (List Capture) :=
  match h.grammar? language with
  | some g => .ok (capturesOf (g.spans source))
  | none => .error ("no grammar for " ++ language)

/-- **The grammars as a library.**  They keep nothing, and do not fail on a language that they know. -/
instance grammars : Library where
  Store := Highlighter
  Scratch := Unit
  newStore := .full
  newScratch := ()
  find store language := (store.knows language, store)
  read store scratch language source := (store.read language source, store, scratch)
  tag? := some

end CodeTint.Highlight
