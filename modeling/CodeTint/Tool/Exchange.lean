/-
# Talking to a process

A process is fed its input, and what it writes on its two streams is read; all three go on beside
the process.  Then one waits for four things in turn: that the process ends, that its input is
written, and that either stream is read to its end.

Waiting is done by looking again and again (`Poll`).  **What was found over at a look is never late**,
however late the look was; only after a look that found it unfinished does the clock decide.  Without
a deadline the clock does not matter.

`Exchange.result?` puts together what came of it.  It is none while something is still going on.
-/
import CodeTint.Error
import CodeTint.Text.Utf8

namespace CodeTint

/-! ## 1. Waiting -/

/-- One look: whether it was over, and what the clock showed right after. -/
structure Poll where
  ended : Bool
  clock : Nat
  deriving DecidableEq, Repr

/-- What came of waiting. -/
inductive Wait where
  | ended
  | expired
  | going
  deriving DecidableEq, Repr

/-- **Waits through a sequence of looks**, up to the deadline if there is one. -/
def await (deadline : Option Nat) : List Poll → Wait
  | [] => .going
  | p :: ps =>
    if p.ended then .ended
    else if deadline.any (· ≤ p.clock) then .expired
    else await deadline ps

/-! ## 2. The exchange -/

/-- How a process ended: with a code, or by a signal. -/
structure Exit where
  code : Option Int
  deriving DecidableEq, Repr

/-- Whether the process says that all went well. -/
def Exit.success (e : Exit) : Bool := e.code == some 0

/-- What came of feeding a process.  One that stops reading early breaks the pipe; that is its own
affair. -/
inductive Feeding where
  | done
  | brokenPipe
  | failed (cause : String)
  deriving DecidableEq, Repr

/-- **All that is seen of a process**: the looks at each of the four things, and what each gave. -/
structure Exchange where
  exitPolls : List Poll
  exit : Except String Exit
  inputPolls : List Poll
  input : Feeding
  outPolls : List Poll
  out : Except String (List UInt8)
  errPolls : List Poll
  err : Except String (List UInt8)

/-- Whether any of several waits expired, and whether any goes on. -/
def Wait.join : List Wait → Wait
  | [] => .ended
  | .ended :: ws => Wait.join ws
  | .expired :: _ => .expired
  | .going :: ws => if Wait.join ws = .expired then .expired else .going

/-- What came of the process once all waiting is over. -/
def Exchange.settled (x : Exchange) (executable : String) (exit : Exit) :
    Except ToolError (List Char) :=
  match x.out, x.err with
  | .error cause, _ => .error (.io executable cause)
  | _, .error cause => .error (.io executable cause)
  | .ok out, .ok err =>
    if exit.success then
      match x.input with
      | .failed cause => .error (.io executable cause)
      | _ => .ok (Text.Utf8.repair out)
    else .error (.failed executable exit.code (Text.Utf8.repair err))

/-- **What a call gives**: the output of the process, or why there is none. -/
def Exchange.result? (x : Exchange) (executable : String) (limit : Option Duration)
    (deadline : Option Nat) : Option (Except ToolError (List Char)) :=
  let late : Except ToolError (List Char) := .error (.timeout executable (limit.getD ⟨0⟩))
  match await deadline x.exitPolls with
  | .going => none
  | .expired => some late
  | .ended =>
    match x.exit with
    | .error cause => some (.error (.io executable cause))
    | .ok exit =>
      match Wait.join
          [await deadline x.inputPolls, await deadline x.outPolls, await deadline x.errPolls] with
      | .going => none
      | .expired => some late
      | .ended => some (x.settled executable exit)

end CodeTint
