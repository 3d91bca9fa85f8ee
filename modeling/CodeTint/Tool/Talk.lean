/-
# A talk with a process, turn by turn

While a call waits for a process, five things go on side by side: the process runs, one thread feeds
it, two threads read what it writes, and the clock runs.  A `Talk` is the state of all of them at
one moment; **a schedule says what happens next** (`Turn`), in any order.

What the caller does takes turns like everything else.  It looks at one thing after the other
(`Part`); if it finds one unfinished and there is a deadline, it reads the clock at its next turn,
and anything may happen in between.  **On a process that it gave up on it waits no longer than until
it is gone; on a thread that it gave up on it does not wait at all, but it still looks at the
others.**
-/
import CodeTint.Tool.Shell
import Mathlib.Logic.Function.Basic

namespace CodeTint

/-! ## 1. What is waited for -/

/-- The streams that a process writes. -/
inductive Stream where
  | out
  | err
  deriving DecidableEq, Repr

/-- **What a call waits for.** -/
inductive Part where
  | exit
  | input
  | stream (s : Stream)
  deriving DecidableEq, Repr

/-- The order in which it is waited for. -/
def Part.rank : Part → Nat
  | .exit => 0
  | .input => 1
  | .stream .out => 2
  | .stream .err => 3

/-- What comes of a part in the end. -/
abbrev Part.Value : Part → Type
  | .exit => Except String Exit
  | .input => Feeding
  | .stream _ => Except String (List UInt8)

/-- What was read from a stream so far, and how reading came to its end. -/
structure Reading where
  got : List UInt8 := []
  ended : Option (Except String Unit) := none

/-- Reading comes to more bytes. -/
def Reading.deliver (r : Reading) (bytes : List UInt8) : Reading :=
  if r.ended.isSome then r else { r with got := r.got ++ bytes }

/-- Reading comes to its end, that of the stream or a failure. -/
def Reading.close (r : Reading) (how : Except String Unit) : Reading :=
  if r.ended.isSome then r else { r with ended := some how }

/-- **What reading gives**, once it is over: all that was got, or the failure. -/
def Reading.result? (r : Reading) : Option (Except String (List UInt8)) :=
  r.ended.map fun how => how.map fun _ => r.got

/-! ## 2. What happens beside the caller -/

/-- How far the process, its threads and the clock have come. -/
structure Scene where
  clock : Nat
  exit : Option (Except String Exit) := none
  input : Option Feeding := none
  reading : Stream → Reading := fun _ => {}

/-- **One turn**: of the clock, the process, a thread or the caller. -/
inductive Turn where
  | passes (nanos : Nat)
  | exits (how : Except String Exit)
  | feeds (how : Feeding)
  | delivers (s : Stream) (bytes : List UInt8)
  | closes (s : Stream) (how : Except String Unit)
  | calls

namespace Scene

/-- The scene after a turn; what has come to its end does not do so again. -/
def after (s : Scene) : Turn → Scene
  | .passes nanos => { s with clock := s.clock + nanos }
  | .exits how => { s with exit := s.exit <|> some how }
  | .feeds how => { s with input := s.input <|> some how }
  | .delivers x bytes =>
    { s with reading := Function.update s.reading x ((s.reading x).deliver bytes) }
  | .closes x how => { s with reading := Function.update s.reading x ((s.reading x).close how) }
  | .calls => s

/-- What came of a part, if it is over. -/
def over? (s : Scene) : (p : Part) → Option p.Value
  | .exit => s.exit
  | .input => s.input
  | .stream x => (s.reading x).result?

end Scene

/-- The bytes that a stream delivers in the course of turns, up to its end. -/
def delivered (x : Stream) : List Turn → List UInt8
  | [] => []
  | .delivers y bytes :: turns => (if x = y then bytes else []) ++ delivered x turns
  | .closes y _ :: turns => if x = y then [] else delivered x turns
  | .passes _ :: turns | .exits _ :: turns | .feeds _ :: turns | .calls :: turns =>
    delivered x turns

/-! ## 3. The caller -/

/-- What the caller is about to do: look at a part, read the clock for a part that it found
unfinished, or wait for a process to be gone that it has killed. -/
inductive Stage where
  | look (p : Part)
  | clock (p : Part)
  | reap
  | done (r : Except ToolError (List Char))

/-- **A talk at one moment**: the scene, the caller's stage, its looks at each part, and what it has
got from each.  From a part that it gave up on it has got nothing. -/
structure Talk where
  call : Invocation
  begun : Nat
  scene : Scene
  stage : Stage := .look .exit
  looks : Part → List Poll := fun _ => []
  notes : (p : Part) → Option p.Value := fun _ => none

namespace Talk

/-- A talk at its start. -/
def start (call : Invocation) (begun : Nat) : Talk := { call, begun, scene := { clock := begun } }

/-- The moment from which on nothing unfinished is waited for. -/
def deadline (t : Talk) : Option Nat := t.call.timeout.map fun limit => t.begun + limit.nanos

/-- The error of a call that took too long. -/
def late (t : Talk) : Except ToolError (List Char) :=
  .error (.timeout t.call.executable (t.call.timeout.getD ⟨0⟩))

/-- What the call gives once every part was waited for. -/
def conclusion (t : Talk) : Except ToolError (List Char) :=
  match t.notes .exit, t.notes .input, t.notes (.stream .out), t.notes (.stream .err) with
  | some (.ok exit), some input, some out, some err =>
    Exchange.settled ⟨[], .ok exit, [], input, [], out, [], err⟩ t.call.executable exit
  | _, _, _, _ => t.late

/-- Goes on behind a part. -/
def moveOn (t : Talk) : Part → Talk
  | .exit => { t with stage := .look .input }
  | .input => { t with stage := .look (.stream .out) }
  | .stream .out => { t with stage := .look (.stream .err) }
  | .stream .err => { t with stage := .done t.conclusion }

/-- Keeps a look in mind. -/
def keep (t : Talk) (p : Part) (poll : Poll) : Talk :=
  { t with looks := Function.update t.looks p (t.looks p ++ [poll]) }

/-- Notes what a part gives that is found over. -/
def note (t : Talk) (p : Part) (v : p.Value) : Talk :=
  { t.keep p ⟨true, t.scene.clock⟩ with notes := Function.update t.notes p (some v) }

/-- Takes what a part gives that is found over; if waiting for the process failed, that is all. -/
def take (t : Talk) : (p : Part) → p.Value → Talk
  | .exit, .error cause =>
    { t.note .exit (.error cause) with stage := .done (.error (.io t.call.executable cause)) }
  | p, v => (t.note p v).moveOn p

/-- Gives a part up. -/
def giveUp (t : Talk) : Part → Talk
  | .exit => { t with stage := .reap }
  | p => t.moveOn p

/-- **The next thing that the caller does.** -/
def act (t : Talk) : Talk :=
  match t.stage with
  | .look p =>
    match t.scene.over? p with
    | some v => t.take p v
    -- without a deadline the caller is at rest until the part is over
    | none => if t.deadline.isSome then { t with stage := .clock p } else t
  | .clock p =>
    let seen := t.keep p ⟨false, t.scene.clock⟩
    if t.deadline.any (· ≤ t.scene.clock) then seen.giveUp p else { seen with stage := .look p }
  | .reap => if t.scene.exit.isSome then { t with stage := .done t.late } else t
  | .done _ => t

/-- One turn. -/
def step (t : Talk) : Turn → Talk
  | .calls => t.act
  | turn => { t with scene := t.scene.after turn }

/-- **Goes through a schedule.** -/
def run (t : Talk) (turns : List Turn) : Talk := turns.foldl step t

/-- What the call gives, once it is done. -/
def result? (t : Talk) : Option (Except ToolError (List Char)) :=
  match t.stage with
  | .done r => some r
  | _ => none

/-- **What was seen of the process**, as an exchange. -/
def exchange (t : Talk) : Exchange :=
  ⟨t.looks .exit, (t.notes .exit).getD (.error ""), t.looks .input, (t.notes .input).getD .done,
    t.looks (.stream .out), (t.notes (.stream .out)).getD (.ok []),
    t.looks (.stream .err), (t.notes (.stream .err)).getD (.ok [])⟩

end Talk

/-! ## 4. The talk with a script -/

/-- One look, and the time until the next. -/
def pollRound : List Turn := [.calls, .calls, .passes pollInterval]

namespace Script.Outcome

/-- How many looks are taken before a script is over. -/
def rounds (o : Outcome) : Nat :=
  (startupNanos + o.millis * 1000000 + (pollInterval - 1)) / pollInterval

/-- The turns once a script is over: all comes to its end, and the caller looks at it. -/
def lastTurns (o : Outcome) : List Turn :=
  [.exits (.ok o.ending.exit), .feeds .done, .delivers .out o.out, .closes .out (.ok ()),
    .delivers .err o.err, .closes .err (.ok ()), .calls, .calls, .calls, .calls]

/-- **The turns in the talk with a script that ran like this.** -/
def schedule (o : Outcome) : List Turn :=
  (List.replicate o.rounds pollRound).flatten ++ o.lastTurns

end Script.Outcome

end CodeTint
