/-
# Options from a configuration file

A configuration file is a TOML document with these keys and no others, each of which may be missing:

* `syntax`, `default_colorizer`, `search_path`: strings;
* `outside_pre`: a boolean;
* `timeout_ms`: a positive integer;
* `colorizers`: a table of strings;
* `params`: a table of tables whose values are strings, booleans, integers or floats.  Each goes to
  its tool as text.

A date or a time counts as a table with one entry, its text (`table?`), so it may stand where a table
of strings may.

**Faults come up in an order**: first all that makes the file no such document, then a name of a
dialect that is none, then a timeout of zero.
-/
import CodeTint.Decimal.Shortest
import CodeTint.Error
import CodeTint.Options
import CodeTint.Toml.Reader

namespace CodeTint

open Toml (Value Table)

/-! ## 1. The shape of a file -/

/-- What a configuration file says, before names and numbers are looked into. -/
structure Config where
  dialect : Option String := none
  defaultColorizer : Option String := none
  outsidePre : Option Bool := none
  timeoutMs : Option Nat := none
  searchPath : Option String := none
  colorizers : List (String × String) := []
  params : List (String × List (String × String)) := []

namespace Config

/-- The text of a string. -/
def string? : Value → Option String
  | .string s => some s
  | _ => none

/-- The truth value of a boolean. -/
def boolean? : Value → Option Bool
  | .boolean b => some b
  | _ => none

/-- The number of an integer that is not negative. -/
def natural? : Value → Option Nat
  | .integer n => if 0 ≤ n then some n.toNat else none
  | _ => none

/-- **The text of a parameter's value.** -/
def scalar? : Value → Option String
  | .string s => some s
  | .boolean b => some (if b then "true" else "false")
  | .integer n => some (toString n)
  | .float x => some (String.ofList x.text)
  | .datetime _ => none
  | .array _ => none
  | .table _ => none

/-- The key that the text of a date or a time stands under. -/
def datetimeKey : String := "$__toml_private_datetime"

/-- **What counts as a table**: tables, and dates and times. -/
def table? : Value → Option Table
  | .table es => some es
  | .datetime d => some [(datetimeKey, .string d.text)]
  | _ => none

/-- The entries of what counts as a table, each value read by `f`. -/
def entries? {α : Type} (f : Value → Option α) (v : Value) : Option (List (String × α)) := do
  let es ← table? v
  es.mapM fun (k, v) => (f v).map (k, ·)

/-- **One key of a file**, none if there is no such key or the value is not of its kind. -/
def put? (c : Config) (key : String) (v : Value) : Option Config :=
  match key with
  | "syntax" => (string? v).map fun s => { c with dialect := some s }
  | "default_colorizer" => (string? v).map fun s => { c with defaultColorizer := some s }
  | "outside_pre" => (boolean? v).map fun b => { c with outsidePre := some b }
  | "timeout_ms" => (natural? v).map fun n => { c with timeoutMs := some n }
  | "search_path" => (string? v).map fun s => { c with searchPath := some s }
  | "colorizers" => (entries? string? v).map fun es => { c with colorizers := es }
  | "params" => (entries? (entries? scalar?) v).map fun es => { c with params := es }
  | _ => none

/-- A key of a file, or what is wrong with it. -/
def put (c : Config) (e : String × Value) : Except ConfigFault Config :=
  match c.put? e.1 e.2 with
  | some c => .ok c
  | none => .error (.malformed ("unknown field or wrong type: " ++ e.1))

/-- **What a table says**, if it has the shape of a configuration file. -/
def ofTable (t : Table) : Except ConfigFault Config := t.foldlM put {}

/-- What a document says. -/
def ofSource (source : List Char) : Except ConfigFault Config :=
  match Toml.parse? source with
  | some t => ofTable t
  | none => .error (.malformed "not a TOML document")

/-! ## 2. Its options -/

/-- The dialect of a name. -/
def dialectOf (name : String) : Except Error Markup.Dialect :=
  match Markup.Dialect.ofName? name with
  | some d => .ok d
  | none => .error (.unknownDialect name)

/-- The timeout of so many milliseconds. -/
def timeoutOf (ms : Nat) : Except Error Duration :=
  if ms = 0 then .error (.invalidConfig .zeroTimeout) else .ok (.ofMillis ms)

/-- **The options of a configuration**; what it does not say is as always. -/
def options (c : Config) : Except Error Options := do
  let usual : Options := {}
  let dialect ← c.dialect.mapM dialectOf
  let timeout ← c.timeoutMs.mapM timeoutOf
  pure
    { dialect := dialect.getD usual.dialect
      defaultColorizer := c.defaultColorizer.getD usual.defaultColorizer
      colorizers := Dict.ofList c.colorizers
      params := (Dict.ofList c.params).map Dict.ofList
      outsidePre := c.outsidePre.getD usual.outsidePre
      searchPath := c.searchPath
      timeout := timeout }

end Config

/-- **The options that a configuration file gives.** -/
def Options.ofToml (source : List Char) : Except Error Options :=
  match Config.ofSource source with
  | .error fault => .error (.invalidConfig fault)
  | .ok c => c.options

end CodeTint
