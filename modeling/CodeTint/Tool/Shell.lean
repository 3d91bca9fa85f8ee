/-
# Scripts as programs

**The programs with which tools are run here are scripts** (`scripts`): an executable file is read as
a script of the shell.  What is proved about the program is proved for all programs, if not said
otherwise.

How a script runs is known beforehand, and so is the exchange with it: everything is over at the moment
when the script is, and looks are taken every ten milliseconds from the start on.
-/
import CodeTint.Host.Script
import CodeTint.Tool.Invoke

namespace CodeTint

/-- The time between two looks. -/
def pollInterval : Nat := 10000000

/-- The time that a process takes, beside the time it is asleep. -/
def startupNanos : Nat := 1000000

/-- The looks at something that is over at a given moment. -/
def pollsUntil (moment : Nat) : List Poll :=
  (List.range (moment / pollInterval + 2)).map fun k =>
    ⟨moment ≤ k * pollInterval, k * pollInterval⟩

/-- The exit that an ending is. -/
def Script.Ending.exit : Script.Ending → Exit
  | .status n => ⟨some n⟩
  | .signal => ⟨none⟩

/-- The exchange with a script that ran like this. -/
def Script.Outcome.exchange (o : Script.Outcome) : Exchange :=
  let polls := pollsUntil (startupNanos + o.millis * 1000000)
  ⟨polls, .ok o.ending.exit, polls, .done, polls, .ok o.out, polls, .ok o.err⟩

/-- What begins a file that the shell runs. -/
def shellLead : List Char := "#!/bin/sh\n".toList

/-- The script in a file, if the shell runs it. -/
def scriptIn? (file : List UInt8) : Option (List Char) :=
  Text.after? shellLead (Text.Utf8.repair file)

/-- **Scripts as programs.**  A file that is no script cannot be started. -/
instance scripts : Programs where
  start file arguments input :=
    match scriptIn? file with
    | none => .error "Exec format error (os error 8)"
    | some script => .ok (Script.run script arguments input).exchange

end CodeTint
