/-
# The command line

Without a path, or with `-`, a document is read from the input and written to the output or to a
file.  With a path, the documents there are colorized.  Options come from a configuration file and
from flags; **a flag wins over the file**, and what neither says is as always.

The exit code is zero if everything went well, as far as the program is told, and one if not.  If the
options are no good nothing is read or written.
-/
import CodeTint.Batch
import CodeTint.Highlight.Grammar
import CodeTint.Host.Outlet
import CodeTint.Options.Config
import CodeTint.Tool.Shell

namespace CodeTint.CommandLine

/-! ## 1. Routes -/

/-- Why a command was not carried out: its outermost reason, with the error behind it if there is
one. -/
structure Refusal where
  message : String
  cause : Option Error
  deriving Repr

/-- The language and the colorizer in a pair `language=colorizer`. -/
def route? (pair : List Char) : Option (String × String) :=
  let language := Text.trim (pair.takeWhile (· != '='))
  match pair.dropWhile (· != '=') with
  | '=' :: colorizer =>
    if language = [] then none
    else some (String.ofList language, String.ofList (Text.trim colorizer))
  | _ => none

/-- One pair, or what is wrong with it. -/
def route (pair : List Char) : Except Refusal (String × String) :=
  match route? pair with
  | some r => .ok r
  | none => .error ⟨"expected language=colorizer, got `" ++ String.ofList pair ++ "`", none⟩

/-- **The pairs of a list** `language=colorizer,language=colorizer`; blank ones do not count. -/
def parseRoutes (list : List Char) : Except Refusal (List (String × String)) :=
  (((list.splitOn ',').map Text.trim).filter (fun pair => !pair.isEmpty)).mapM route

/-! ## 2. Flags -/

/-- What a command line says. -/
structure Flags where
  input : Option String := none
  output : Option String := none
  config : Option String := none
  dialect : Option String := none
  defaultColorizer : Option String := none
  colorizers : Option String := none
  outsidePre : Bool := false
  timeoutMs : Option Nat := none
  verbose : Bool := false
  deriving Repr

/-- The number that a text writes, if it fits into 64 bits. -/
def number? (s : String) : Option Nat :=
  let digits := match s.toList with
    | '+' :: ds => ds
    | ds => ds
  if digits = [] ∨ ¬ digits.all Char.isDigit then none
  else
    let n := digits.foldl (fun n c => n * 10 + (c.toNat - 48)) 0
    if n < Nat.pow 2 64 then some n else none

/-- A flag with its value. -/
def Flags.setValue? (f : Flags) (name value : String) : Option Flags :=
  match name with
  | "--output" | "-o" => some { f with output := some value }
  | "--config" | "-c" => some { f with config := some value }
  | "--syntax" | "-s" => some { f with dialect := some value }
  | "--default-colorizer" => some { f with defaultColorizer := some value }
  | "--colorizers" => some { f with colorizers := some value }
  | "--timeout-ms" => (number? value).map fun n => { f with timeoutMs := some n }
  | _ => none

/-- A flag without a value. -/
def Flags.set? (f : Flags) (name : String) : Option Flags :=
  match name with
  | "--outside-pre" => some { f with outsidePre := true }
  | "--verbose" | "-v" => some { f with verbose := true }
  | _ => none

/-- An argument that is no flag: the input, of which there is one. -/
def Flags.setInput? (f : Flags) (s : String) : Option Flags :=
  match f.input with
  | none => some { f with input := some s }
  | some _ => none

/-- Whether an argument is a flag. -/
def isFlag (arg : String) : Bool := "-".toList.isPrefixOf arg.toList && arg != "-"

/-- **What a list of arguments says**, if it is a command line. -/
def Flags.parse? (f : Flags) : List String → Option Flags
  | [] => some f
  | arg :: rest =>
    if isFlag arg then
      match f.set? arg with
      | some f => f.parse? rest
      | none =>
        match arg.toList.dropWhile (· != '=') with
        | '=' :: value =>
          match f.setValue? (String.ofList (arg.toList.takeWhile (· != '='))) (String.ofList value) with
          | some f => f.parse? rest
          | none => none
        | _ =>
          match rest with
          | value :: rest =>
            match f.setValue? arg value with
            | some f => f.parse? rest
            | none => none
          | [] => none
    else
      match f.setInput? arg with
      | some f => f.parse? rest
      | none => none

/-! ## 3. Options -/

/-- An error of the options as a refusal. -/
def Refusal.ofError (e : Error) : Refusal := ⟨e.message, some e⟩

/-- The options of the configuration file, or the usual ones without one. -/
def Flags.configured (f : Flags) (h : Host) : Except Refusal Options :=
  match f.config with
  | none => .ok {}
  | some p =>
    match (h.read? ⟨p⟩).bind Text.Utf8.decode? with
    | none => .error ⟨"failed to read config " ++ p, none⟩
    | some source =>
      match Options.ofToml source with
      | .error e => .error ⟨"failed to load config " ++ p, some e⟩
      | .ok o => .ok o

/-- **The options of a command line.** -/
def Flags.options (f : Flags) (h : Host) : Except Refusal Options := do
  let o ← f.configured h
  let dialect ←
    match f.dialect with
    | none => pure o.dialect
    | some name => (Config.dialectOf name).mapError Refusal.ofError
  let routes ←
    match f.colorizers with
    | none => pure []
    | some list => parseRoutes list.toList
  let timeout ←
    match f.timeoutMs with
    | none => pure o.timeout
    | some 0 => .error ⟨"--timeout-ms must be positive", none⟩
    | some ms => pure (some (.ofMillis ms))
  pure
    { o with
      dialect
      defaultColorizer := f.defaultColorizer.getD o.defaultColorizer
      colorizers := routes.foldl (fun d r => d.insert r.1 r.2) o.colorizers
      outsidePre := o.outsidePre || f.outsidePre
      timeout }

/-! ## 4. Commands -/

/-- **What a command did**: its exit code, what was taken of its output, and the machine after it. -/
structure Outcome where
  code : Nat
  written : List UInt8
  host : Host

/-- The output as a text. -/
def Outcome.stdout (out : Outcome) : List Char := Text.Utf8.repair out.written

/-- A command that went wrong before it wrote anything. -/
def Outcome.failed (h : Host) : Outcome := ⟨1, [], h⟩

/-- What was written, and whether that went well. -/
def Outcome.put (h : Host) (r : List UInt8 × Bool) : Outcome := ⟨if r.2 then 0 else 1, r.1, h⟩

/-- The paths that stand for the output itself. -/
def outputPaths : List Path := [⟨"/dev/stdout"⟩, ⟨"/dev/fd/1"⟩, ⟨"/proc/self/fd/1"⟩]

/-- Whether a path stands for the output itself and not for a file. -/
def isOutput (p : Path) : Bool := outputPaths.any p.same

/-- Writes a document to the output or to a file.  By a path the output is written to past its
buffer. -/
def deliver (outlet : Outlet) (h : Host) (output : Option String) (bytes : List UInt8) : Outcome :=
  match output with
  | none => .put h (outlet.print bytes)
  | some p =>
    if isOutput ⟨p⟩ then .put h (outlet.write [] bytes)
    else
      match h.write? ⟨p⟩ bytes with
      | some h => ⟨0, [], h⟩
      | none => .failed h

variable [Highlight.Library] [Programs]

/-- Colorizes the document on the input. -/
def filter (outlet : Outlet) (h : Host) (o : Options) (output : Option String)
    (stdin : List UInt8) : Outcome :=
  match Text.Utf8.decode? stdin with
  | none => .failed h
  | some doc =>
    match colorizeOnce h o doc with
    | .error _ => .failed h
    | .ok c => deliver outlet h output (Text.Utf8.encode c.html)

/-- Colorizes the documents at a path. -/
def process (h : Host) (o : Options) (input : String) (output : Option String) : Outcome :=
  match (Batch.Job.mk ⟨input⟩ (output.map Path.mk) o).run h with
  | (h, .error _) => .failed h
  | (h, .ok stats) => ⟨if stats.success then 0 else 1, [], h⟩

/-- **A command carried out**, with the flags that it has. -/
def carryOut (outlet : Outlet) (h : Host) (f : Flags) (stdin : List UInt8) : Outcome :=
  match f.options h with
  | .error _ => .failed h
  | .ok o =>
    match f.input with
    | none | some "-" => filter outlet h o f.output stdin
    | some input => process h o input f.output

/-- **A command line carried out**, where all output is taken. -/
def run (h : Host) (args : List String) (stdin : List UInt8) : Outcome :=
  match Flags.parse? {} args with
  | none => .failed h
  | some f => carryOut .boundless h f stdin

end CodeTint.CommandLine
