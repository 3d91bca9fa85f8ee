/-
# Calling an external tool

A call finds the executable, starts it, and talks to it (`Exchange`).  **What comes of a program is a
parameter** (`Programs`): starting the file of an executable, on arguments and an input, gives an
exchange of any kind, or fails.
-/
import CodeTint.Text.Utf8
import CodeTint.Tool.Exchange
import CodeTint.Tool.Locate

namespace CodeTint

/-- **A call of a tool.** -/
structure Invocation where
  executable : String
  arguments : List String
  input : List Char
  searchPath : Option String
  timeout : Option Duration
  deriving Repr

/-- **What programs do.** -/
class Programs where
  /-- Starts the program in a file: what is seen of it, or why it could not be started. -/
  start : (file : List UInt8) → (arguments : List String) → (input : List UInt8) →
    Except String Exchange

/-- What a call of a program gives that is at a path.  A process that never ends gives what a late one
does. -/
def Host.converse [Programs] (h : Host) (call : Invocation) (p : Path) :
    Except ToolError (List Char) :=
  match h.read? p with
  | none => .error (.io call.executable "No such file or directory (os error 2)")
  | some file =>
    match Programs.start file call.arguments (Text.Utf8.encode call.input) with
    | .error cause => .error (.io call.executable cause)
    | .ok exchange =>
      (exchange.result? call.executable call.timeout (call.timeout.map Duration.nanos)).getD
        (.error (.timeout call.executable (call.timeout.getD ⟨0⟩)))

/-- **Calls a tool** and gives what it wrote. -/
def Host.invoke [Programs] (h : Host) (call : Invocation) : Except ToolError (List Char) :=
  match h.locate call.executable call.searchPath with
  | .error e => .error e
  | .ok found =>
    match h.started? found with
    | none => .error (.io call.executable "No such file or directory (os error 2)")
    | some p => h.converse call p

end CodeTint
