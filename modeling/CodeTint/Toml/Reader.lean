/-
# Reading a TOML document

A document is a sequence of lines: blank ones and comments, headers, and keys with values.  A header
says in which table the keys behind it are.  `parse?` gives the table of the whole document, or
nothing if it is not well formed.

A byte order mark in front does not count.
-/
import CodeTint.Toml.Scalar

namespace CodeTint.Toml

/-! ## 1. Keys -/

/-- The characters of a key without quotes. -/
def isBare (c : Char) : Bool := c.isAlphanum || c == '_' || c == '-'

/-- One key. -/
def key? (s : List Char) : Option (String × List Char) :=
  match s with
  | '"' :: _ => (shortString? s).map fun (k, r) => (String.ofList k, r)
  | '\'' :: _ => (shortString? s).map fun (k, r) => (String.ofList k, r)
  | _ =>
    match s.takeWhile isBare with
    | [] => none
    | k => some (String.ofList k, s.drop k.length)

/-- Keys with dots between, in a text of at most `fuel` characters. -/
def keys? : Nat → List Char → Option (List String × List Char)
  | 0, _ => none
  | fuel + 1, s => do
    let (k, r) ← key? (s.dropWhile isGap)
    let r := r.dropWhile isGap
    match r with
    | '.' :: r => do
      let (ks, r) ← keys? fuel r
      some (k :: ks, r)
    | _ => some ([k], r)

/-- A dotted key, with the blanks around it. -/
def dottedKey? (s : List Char) : Option (List String × List Char) := keys? (s.length + 1) s

/-! ## 2. Values -/

/-- The text behind a comment, which goes on to the end of its line; none if it holds a character
that may not be in it. -/
def afterComment? : List Char → Option (List Char)
  | '#' :: s =>
    let r := s.dropWhile isPlain
    if r = [] ∨ (afterLineEnd? r).isSome then some r else none
  | s => some s

/-- Blanks, line ends and comments between the values of an array. -/
def skipLines? : Nat → List Char → Option (List Char)
  | 0, s => some s
  | fuel + 1, s => do
    let r ← afterComment? (s.dropWhile isGap)
    match afterLineEnd? r with
    | some r => skipLines? fuel r
    | none => some r

mutual

/-- **A value**, in a text nested at most `fuel` deep. -/
def value? : Nat → List Char → Option (Value × List Char)
  | 0, _ => none
  | fuel + 1, s =>
    match s with
    | '"' :: _ => (string? s).map fun (t, r) => (.string (String.ofList t), r)
    | '\'' :: _ => (string? s).map fun (t, r) => (.string (String.ofList t), r)
    | 't' :: 'r' :: 'u' :: 'e' :: r => some (.boolean true, r)
    | 'f' :: 'a' :: 'l' :: 's' :: 'e' :: r => some (.boolean false, r)
    | '[' :: r => (values? fuel r).map fun (vs, r) => (.array vs, r)
    | '\x7b' :: r =>
      match r.dropWhile isGap with
      | '\x7d' :: r => some (.table [], r)
      | r => (pairs? fuel [] r).map fun (es, r) => (.table (tableOf es), r)
    | _ =>
      if beginsDatetime s then (datetime? s).map fun (d, r) => (.datetime d, r) else number? s

/-- The values of an array behind its bracket or behind a comma. -/
def values? : Nat → List Char → Option (List Value × List Char)
  | 0, _ => none
  | fuel + 1, s => do
    let r ← skipLines? s.length s
    match r with
    | ']' :: r => some ([], r)
    | r => do
      let (v, r) ← value? fuel r
      let r ← skipLines? r.length r
      match r with
      | ',' :: r => do
        let (vs, r) ← values? fuel r
        some (v :: vs, r)
      | ']' :: r => some ([v], r)
      | _ => none

/-- The pairs of an inline table, all on one line. -/
def pairs? : Nat → DraftEntries → List Char → Option (DraftEntries × List Char)
  | 0, _, _ => none
  | fuel + 1, es, s => do
    let (ks, r) ← dottedKey? s
    match r with
    | '=' :: r => do
      let (v, r) ← value? fuel (r.dropWhile isGap)
      let es ← putDotted ks v es
      match r.dropWhile isGap with
      | ',' :: r => pairs? fuel es r
      | '\x7d' :: r => some (es, r)
      | _ => none
    | _ => none

end

/-! ## 3. Lines -/

/-- Where reading stands: the tables so far, and the keys of the header that is in force. -/
structure Reading where
  root : DraftEntries
  header : List String

/-- The text behind the rest of a line, which is blank or a comment. -/
def afterRest? (s : List Char) : Option (List Char) := do
  let r ← afterComment? (s.dropWhile isGap)
  if r = [] then some [] else afterLineEnd? r

/-- A header behind its opening brackets. -/
def header? (listed : Bool) (w : Reading) (s : List Char) : Option (Reading × List Char) := do
  let (ks, r) ← dottedKey? s
  let r ←
    match listed, r with
    | false, ']' :: r => some r
    | true, ']' :: ']' :: r => some r
    | _, _ => none
  let root ← openHeader listed ks w.root
  some (⟨root, ks⟩, r)

/-- A key with its value. -/
def pair? (w : Reading) (s : List Char) : Option (Reading × List Char) := do
  let (ks, r) ← dottedKey? s
  match r with
  | '=' :: r => do
    let r := r.dropWhile isGap
    let (v, r) ← value? (2 * r.length + 2) r
    let root ← changeAt false (fun _ es => putDotted ks v es) .header w.root w.header
    some ({ w with root }, r)
  | _ => none

/-- What a line says. -/
def line? (w : Reading) (s : List Char) : Option (Reading × List Char) :=
  match s with
  | '[' :: '[' :: r => header? true w r
  | '[' :: r => header? false w r
  | '#' :: _ => some (w, s)
  | '\n' :: _ => some (w, s)
  | '\r' :: _ => some (w, s)
  | [] => some (w, s)
  | s => pair? w s

/-- The lines of a text of at most `fuel` lines. -/
def lines? : Nat → Reading → List Char → Option Reading
  | 0, w, _ => some w
  | _ + 1, w, [] => some w
  | fuel + 1, w, s => do
    let (w, r) ← line? w (s.dropWhile isGap)
    lines? fuel w (← afterRest? r)

/-- The text without the mark that may stand in front. -/
def withoutMark : List Char → List Char
  | '\uFEFF' :: s => s
  | s => s

/-- **The table of a document.** -/
def parse? (source : List Char) : Option Table :=
  let s := withoutMark source
  (lines? (s.length + 1) ⟨[], []⟩ s).map fun w => tableOf w.root

end CodeTint.Toml
