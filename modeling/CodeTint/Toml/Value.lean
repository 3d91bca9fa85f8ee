/-
# Values of a TOML document, and tables while they are built

A document is a table.  While it is read, its tables are drafts: each knows how it came about, for
that decides what may be added to it later.

* A table that a **header** opened is complete where its part of the document ends; dotted keys from
  elsewhere may not add to it.
* A table that a header only **implied**, on the way to one further in, may be opened once.
* A table that **dotted** keys made grows by dotted keys only, though headers may open tables inside
  of it.
-/
import CodeTint.Decimal.Binary64
import CodeTint.Toml.Datetime

namespace CodeTint.Toml

open CodeTint.Decimal

/-! ## 1. Values -/

/-- **A value.** -/
inductive Value where
  | string (s : String)
  | integer (n : Int)
  | float (x : Binary64)
  | boolean (b : Bool)
  | datetime (d : Datetime)
  | array (vs : List Value)
  | table (es : List (String × Value))

/-- A table: its entries, one for each key. -/
abbrev Table := List (String × Value)

/-! ## 2. Drafts -/

/-- How a table came about. -/
inductive Origin where
  | header
  | implied
  | dotted
  deriving DecidableEq, Repr

/-- A value, a table that may still grow, or a list of tables of which the first is the latest. -/
inductive Draft where
  | value (v : Value)
  | table (origin : Origin) (es : List (String × Draft))
  | tables (latest : List (String × Draft)) (earlier : List Value)

/-- The entries of a draft table. -/
abbrev DraftEntries := List (String × Draft)

/-- The entries with a key set. -/
def setKey (k : String) (d : Draft) (es : DraftEntries) : DraftEntries :=
  if es.any (fun e => e.1 == k) then es.map (fun e => if e.1 == k then (k, d) else e)
  else es ++ [(k, d)]

/-- **Changes the table at the end of a chain of keys.**  Tables on the way that are missing are
made, as dotted or as implied ones.  Dotted keys do not go through a table that a header opened. -/
def changeAt (dotted : Bool) (f : Origin → DraftEntries → Option DraftEntries) (origin : Origin)
    (es : DraftEntries) : List String → Option DraftEntries
  | [] => f origin es
  | k :: ks =>
    match es.lookup k with
    | none =>
      let made := if dotted then Origin.dotted else Origin.implied
      (changeAt dotted f made [] ks).map fun sub => setKey k (.table made sub) es
    | some (.value _) => none
    | some (.table o sub) =>
      if dotted ∧ o = .header then none
      else (changeAt dotted f o sub ks).map fun sub' => setKey k (.table o sub') es
    | some (.tables latest earlier) =>
      (changeAt dotted f .implied latest ks).map fun sub' => setKey k (.tables sub' earlier) es

/-- Sets a new key in a table.  A chain of keys ends in a table that dotted keys made, and a key
alone stands in one that they did not make. -/
def putNew (chained : Bool) (k : String) (v : Value) (origin : Origin) (es : DraftEntries) :
    Option DraftEntries :=
  if (origin == .dotted) == chained then
    match es.lookup k with
    | none => some (setKey k (.value v) es)
    | some _ => none
  else none

/-- **Sets the value of a dotted key** in a table. -/
def putDotted (keys : List String) (v : Value) (es : DraftEntries) : Option DraftEntries :=
  match keys.reverse with
  | [] => none
  | k :: front => changeAt true (putNew (!front.isEmpty) k v) .header es front.reverse

/-- Opens the table of a header. -/
def openTable (k : String) (_ : Origin) (es : DraftEntries) : Option DraftEntries :=
  match es.lookup k with
  | none => some (setKey k (.table .header []) es)
  | some (.table .implied sub) => some (setKey k (.table .header sub) es)
  | some _ => none

mutual

/-- The value of a draft. -/
def Draft.toValue : Draft → Value
  | .value v => v
  | .table _ es => .table (tableOf es)
  | .tables latest earlier => .array (earlier.reverse ++ [.table (tableOf latest)])

/-- **The table of a draft's entries.** -/
def tableOf : DraftEntries → Table
  | [] => []
  | (k, d) :: es => (k, d.toValue) :: tableOf es

end

/-- Opens one more table in the list of tables of a header. -/
def openTables (k : String) (_ : Origin) (es : DraftEntries) : Option DraftEntries :=
  match es.lookup k with
  | none => some (setKey k (.tables [] []) es)
  | some (.tables latest earlier) =>
    some (setKey k (.tables [] (.table (tableOf latest) :: earlier)) es)
  | some _ => none

/-- **Opens what a header names**, a table or one more of a list. -/
def openHeader (listed : Bool) (keys : List String) (es : DraftEntries) : Option DraftEntries :=
  match keys.reverse with
  | [] => none
  | k :: front =>
    changeAt false (if listed then openTables k else openTable k) .header es front.reverse

end CodeTint.Toml
