/-
# What can go wrong

An `Error` ends the work on a document: nothing of the document is written then.  The three kinds
say who can mend it: the one who wrote the settings, the one who installed the tools, or the author
of the document.

Errors are told apart by their causes; the wording is in `message` alone.
-/
import CodeTint.Duration
import CodeTint.Text.Blank
import CodeTint.Markup.Context

namespace CodeTint

/-! ## 1. Tools -/

/-- Why a call of an external tool gave no output. -/
inductive ToolError where
  | notFound (executable : String)
  | failed (executable : String) (code : Option Int) (complaint : List Char)
  | timeout (executable : String) (limit : Duration)
  | io (executable : String) (cause : String)
  deriving DecidableEq, Repr

/-- The executable that was to be run. -/
def ToolError.executable : ToolError → String
  | .notFound e => e
  | .failed e _ _ => e
  | .timeout e _ => e
  | .io e _ => e

/-- How a process ended; a process that a signal ended has no code. -/
def exitText : Option Int → String
  | some code => "status " ++ toString code
  | none => "no status (killed by signal)"

/-- The complaint of a tool behind its status, if there is more to it than blanks. -/
def complaintText (complaint : List Char) : String :=
  match Text.trim complaint with
  | [] => ""
  | s => ": " ++ String.ofList s

/-- The wording of a tool's error. -/
def ToolError.message : ToolError → String
  | .notFound e => "`" ++ e ++ "` not found in search path"
  | .failed e code complaint => "`" ++ e ++ "` exited with " ++ exitText code ++ complaintText complaint
  | .timeout e limit => "`" ++ e ++ "` timed out after " ++ toString limit.millis ++ "ms"
  | .io e cause => "failed to run `" ++ e ++ "`: " ++ cause

/-! ## 2. Runs -/

/-- What is wrong with a configuration. -/
inductive ConfigFault where
  | zeroTimeout
  | malformed (reason : String)
  deriving DecidableEq, Repr

/-- The wording of a fault. -/
def ConfigFault.message : ConfigFault → String
  | .zeroTimeout => "`timeout_ms` must be positive"
  | .malformed reason => reason

/-- **Why a document was not colorized.** -/
inductive Error where
  | unknownDialect (name : String)
  | unknownColorizer (colorizer language : String)
  | invalidConfig (fault : ConfigFault)
  | tool (language : String) (cause : ToolError)
  | highlight (language reason : String)
  | ambiguous (cause : Markup.Ambiguity)
  deriving DecidableEq, Repr

/-- Who can mend an error. -/
inductive ErrorKind where
  | configuration
  | execution
  | document
  deriving DecidableEq, Repr

/-- The kind of an error. -/
def Error.kind : Error → ErrorKind
  | .unknownDialect _ => .configuration
  | .unknownColorizer _ _ => .configuration
  | .invalidConfig _ => .configuration
  | .tool _ _ => .execution
  | .highlight _ _ => .execution
  | .ambiguous _ => .document

/-- The executable that an error is about, if it is about one. -/
def Error.executable? : Error → Option String
  | .tool _ cause => some cause.executable
  | _ => none

/-- The wording of an error. -/
def Error.message : Error → String
  | .unknownDialect name => "unknown syntax `" ++ name ++ "` (expected one of: html, xhtml, xml)"
  | .unknownColorizer colorizer language =>
    "no colorizer named `" ++ colorizer ++ "` (requested for language `" ++ language ++ "`)"
  | .invalidConfig fault => "invalid configuration: " ++ fault.message
  | .tool language cause => "failed to colorize " ++ language ++ " code: " ++ cause.message
  | .highlight language reason => "failed to highlight " ++ language ++ " code: " ++ reason
  | .ambiguous cause =>
    "failed to rewrite document: text after `" ++ String.ofList cause.key ++ "` is ambiguous"

end CodeTint
