/-
# Scripts that stand for programs

An executable file of a `Host` is a shell script.  This module runs the small part of the shell that
filters of text need: words with quotes and parameters, commands one after the other, output sent to
another stream, and the commands `printf`, `echo`, `read`, `cat`, `wc`, `sleep`, `kill`, `exec` and
`exit`.

**A run is a function** of the script, its arguments and its input (`Script.run`).  It tells what
came out on either stream, how the process ended, and how much time it spent asleep.
-/
import CodeTint.Text.Blank
import CodeTint.Text.Utf8

namespace CodeTint.Script

open CodeTint.Text

/-! ## 1. Words -/

/-- A part of a word: text, a variable, one argument, all arguments, their number, the status of the
last command, or the number of the process. -/
inductive Part where
  | text (s : List Char)
  | var (name : List Char)
  | arg (n : Nat)
  | args
  | count
  | status
  | self
  deriving DecidableEq, Repr

/-- Where output goes. -/
inductive Sink where
  | out
  | err
  | nowhere
  deriving DecidableEq, Repr

/-- A token of a script: a word, an end of a command with the condition for the next one, or a
stream sent elsewhere. -/
inductive Token where
  | word (ps : List Part)
  | stop (onSuccess : Option Bool)
  | send (stream : Sink) (target : Sink)
  deriving DecidableEq, Repr

/-- The characters of a variable's name. -/
def isVarChar (c : Char) : Bool := c.isAlphanum || c == '_'

/-- What a dollar sign begins, and what follows. -/
def parameter? : List Char → Option (Part × List Char)
  | '@' :: s => some (.args, s)
  | '*' :: s => some (.args, s)
  | '#' :: s => some (.count, s)
  | '$' :: s => some (.self, s)
  | '?' :: s => some (.status, s)
  | c :: s =>
    if c.isDigit then some (.arg (c.toNat - 48), s)
    else if isVarChar c then some (.var (c :: s.takeWhile isVarChar), s.dropWhile isVarChar)
    else none
  | [] => none

/-- The word read so far, if there is one. -/
def finished (word : Option (List Part)) : List Token :=
  match word with
  | some ps => [.word ps.reverse]
  | none => []

/-- The word read so far with one more part. -/
def extend (word : Option (List Part)) (p : Part) : Option (List Part) := some (p :: word.getD [])

/-- The characters that end a word outside of quotes. -/
def endsWord (c : Char) : Bool := isSpace c || c == ';' || c == '&' || c == '|' || c == '>'

/-- The stream that a sign `>` speaks of, going by the word right in front of it. -/
def streamOf (word : Option (List Part)) : Sink × Option (List Part) :=
  match word with
  | some [.text ['2']] => (.err, none)
  | some [.text ['1']] => (.out, none)
  | w => (.out, w)

/-- Where a sign `>` sends, going by what follows it; a file other than a stream is no place that
anything could be read from later. -/
def sinkOf (target : List Char) : Sink :=
  if target = "&2".toList then .err else if target = "&1".toList then .out else .nowhere

/-- The part that begins with `c` inside double quotes, and what follows it. -/
def quotedPart (c : Char) (s : List Char) : Part × List Char :=
  match c, s with
  | '\\', d :: r =>
    if d ∈ ['$', '"', '\\', Char.ofNat 96] then (.text [d], r) else (.text [c], s)
  | '$', _ => (parameter? s).getD (.text [c], s)
  | _, _ => (.text [c], s)

/-- The part that begins with `c` outside of quotes, and what follows it. -/
def barePart (c : Char) (s : List Char) : Part × List Char :=
  match c, s with
  | '\'', _ => (.text (s.takeWhile (· != '\'')), (s.dropWhile (· != '\'')).drop 1)
  | '\\', d :: r => (.text [d], r)
  | '$', _ => (parameter? s).getD (.text [c], s)
  | _, _ => (.text [c], s)

/-- The tokens of a text of at most `fuel` characters.  `quoted` says that a double quote is open. -/
def tokensIn : Nat → Bool → Option (List Part) → List Char → List Token
  | 0, _, word, _ => finished word
  | _ + 1, _, word, [] => finished word
  | fuel + 1, quoted, word, c :: s =>
    if c = '"' then tokensIn fuel (!quoted) (extend word (.text [])) s
    else if quoted then
      let (p, r) := quotedPart c s
      tokensIn fuel true (extend word p) r
    else if c = ';' ∨ c = '\n' then finished word ++ .stop none :: tokensIn fuel false none s
    else if isSpace c then finished word ++ tokensIn fuel false none s
    else if c = '#' ∧ word.isNone then tokensIn fuel false none (s.dropWhile (· != '\n'))
    else if c = '&' ∧ s.head? = some '&' then
      finished word ++ .stop (some true) :: tokensIn fuel false none (s.drop 1)
    else if c = '|' ∧ s.head? = some '|' then
      finished word ++ .stop (some false) :: tokensIn fuel false none (s.drop 1)
    else if c = '>' then
      let (stream, word) := streamOf word
      let r := s.dropWhile (· == ' ')
      finished word ++ .send stream (sinkOf (r.take 1 ++ (r.drop 1).takeWhile (!endsWord ·))) ::
        tokensIn fuel false none ((r.drop 1).dropWhile (!endsWord ·))
    else
      let (p, r) := barePart c s
      tokensIn fuel false (extend word p) r

/-- **The tokens of a script.** -/
def tokens (s : List Char) : List Token := tokensIn s.length false none s

/-! ## 2. Commands -/

/-- A command: its words, where its output goes, and the condition on the status before it. -/
structure Command where
  words : List (List Part)
  out : Sink
  err : Sink
  onSuccess : Option Bool
  deriving DecidableEq, Repr

/-- A command without words. -/
def Command.empty (onSuccess : Option Bool) : Command := ⟨[], .out, .err, onSuccess⟩

/-- The commands that tokens make up. -/
def commandsFrom (c : Command) : List Token → List Command
  | [] => [c]
  | .word ps :: ts => commandsFrom { c with words := c.words ++ [ps] } ts
  | .send .err target :: ts => commandsFrom { c with err := target } ts
  | .send _ target :: ts => commandsFrom { c with out := target } ts
  | .stop cond :: ts => c :: commandsFrom (.empty cond) ts

/-- **The commands of a script.** -/
def commands (s : List Char) : List Command :=
  (commandsFrom (.empty none) (tokens s)).filter (fun c => !c.words.isEmpty)

/-! ## 3. The process -/

/-- How a process ended: with a status, or by a signal. -/
inductive Ending where
  | status (n : Nat)
  | signal
  deriving DecidableEq, Repr

/-- **A running process.** -/
structure Machine where
  args : List (List Char)
  vars : List (List Char × List Char)
  input : List UInt8
  out : List UInt8
  err : List UInt8
  status : Nat
  asleep : Nat
  ending : Option Ending
  deriving Repr

/-- A field, and those before it, extended by a part of a word. -/
def Machine.expandPart (m : Machine) (fields : List (List Char)) (p : Part) : List (List Char) :=
  let last := fields.getLast?.getD []
  let grown (s : List Char) := fields.dropLast ++ [last ++ s]
  match p with
  | .text s => grown s
  | .var name => grown ((m.vars.lookup name).getD [])
  | .arg 0 => grown []
  | .arg (n + 1) => grown (m.args[n]?.getD [])
  | .count => grown (toString m.args.length).toList
  | .status => grown (toString m.status).toList
  | .self => grown ['1']
  | .args =>
    match m.args with
    | [] => fields
    | a :: as => grown a ++ as

/-- The fields that a word becomes; all arguments become none if there are none. -/
def Machine.expand (m : Machine) (word : List Part) : List (List Char) :=
  let ps := word.filter (· ≠ .text [])
  if ps = [.args] ∧ m.args = [] then [] else word.foldl m.expandPart [[]]

/-- Puts bytes onto a stream. -/
def Machine.put (m : Machine) (target : Sink) (bytes : List UInt8) : Machine :=
  match target with
  | .out => { m with out := m.out ++ bytes }
  | .err => { m with err := m.err ++ bytes }
  | .nowhere => m

/-! ## 4. Formats -/

/-- The byte of up to three octal digits. -/
def octalByte (ds : List Char) : UInt8 := UInt8.ofNat (ds.foldl (fun n d => n * 8 + (d.toNat - 48)) 0)

/-- Whether a character is an octal digit. -/
def isOctal (c : Char) : Bool := '0' ≤ c && c ≤ '7'

/-- The bytes of what follows a backslash, and the rest. -/
def escape (s : List Char) : List UInt8 × List Char :=
  let digits := (s.take 3).takeWhile isOctal
  if digits ≠ [] then ([octalByte digits], s.drop digits.length)
  else match s with
    | 'n' :: r => ([10], r)
    | 't' :: r => ([9], r)
    | 'r' :: r => ([13], r)
    | 'a' :: r => ([7], r)
    | 'b' :: r => ([8], r)
    | 'f' :: r => ([12], r)
    | 'v' :: r => ([11], r)
    | '\\' :: r => ([92], r)
    | r => ([92], r)

/-- A format of at most `fuel` characters filled once, with the arguments that are left. -/
def fillIn : Nat → List Char → List (List Char) → List UInt8 × List (List Char)
  | 0, _, args => ([], args)
  | _ + 1, [], args => ([], args)
  | fuel + 1, '\\' :: s, args =>
    let (bytes, r) := escape s
    let (rest, left) := fillIn fuel r args
    (bytes ++ rest, left)
  | fuel + 1, '%' :: '%' :: s, args =>
    let (rest, left) := fillIn fuel s args
    (37 :: rest, left)
  | fuel + 1, '%' :: c :: s, args =>
    let arg := args.head?.getD []
    let text :=
      if c = 'd' then (if arg = [] then ['0'] else arg) else if c = 'c' then arg.take 1 else arg
    let (rest, left) := fillIn fuel s (args.drop 1)
    (Utf8.encode text ++ rest, left)
  | fuel + 1, c :: s, args =>
    let (rest, left) := fillIn fuel s args
    (Utf8.encode [c] ++ rest, left)

/-- **A format filled with arguments**, as often as there are arguments left, and once at least. -/
def fill : Nat → List Char → List (List Char) → List UInt8
  | 0, _, _ => []
  | fuel + 1, format, args =>
    let (bytes, left) := fillIn format.length format args
    if left = [] ∨ left.length = args.length then bytes else bytes ++ fill fuel format left

/-- A text with its backslashes read. -/
def unescape : Nat → List Char → List UInt8
  | 0, _ => []
  | _ + 1, [] => []
  | fuel + 1, '\\' :: s => let (bytes, r) := escape s; bytes ++ unescape fuel r
  | fuel + 1, c :: s => Utf8.encode [c] ++ unescape fuel s

/-! ## 5. Running -/

/-- A number that a text writes, zero if it writes none. -/
def number (s : List Char) : Nat := (String.ofList s).toNat?.getD 0

/-- The lines, words and bytes of a text. -/
def countsOf (input : List UInt8) : Nat × Nat × Nat :=
  (input.count 10, (words (Utf8.repair input)).length, input.length)

/-- One command, once its words are fields. -/
def Machine.perform (m : Machine) (target : Sink) : List (List Char) → Machine
  | [] => m
  | name :: args =>
    let done (m : Machine) : Machine := { m with status := 0 }
    match String.ofList name with
    | "printf" =>
      done (m.put target (fill (args.length + 1) (args.head?.getD []) (args.drop 1)))
    | "echo" =>
      let text := [' '].intercalate args
      done (m.put target (unescape text.length text ++ [10]))
    | "read" =>
      let line := m.input.takeWhile (· != 10)
      let rest := m.input.dropWhile (· != 10)
      let value := (trim (Utf8.repair line))
      { m with
        input := rest.drop 1
        vars := (args.head?.getD [], value) :: m.vars
        status := if rest.isEmpty then 1 else 0 }
    | "/bin/cat" => done { m.put target m.input with input := [] }
    | "/bin/wc" =>
      let (lines, ws, bytes) := countsOf m.input
      let shown :=
        match args with
        | ['-', 'l'] :: _ => [lines]
        | ['-', 'w'] :: _ => [ws]
        | ['-', 'c'] :: _ => [bytes]
        | _ => [lines, ws, bytes]
      let text := " ".intercalate (shown.map toString)
      done { m.put target (Utf8.encode text.toList ++ [10]) with input := [] }
    | "/bin/sleep" => done { m with asleep := m.asleep + number (args.head?.getD []) * 1000 }
    | "kill" => { m with ending := some .signal }
    | "exit" =>
      { m with ending := some (.status (match args with | [] => m.status | a :: _ => number a % 256)) }
    | "true" => done m
    | ":" => done m
    | "false" => { m with status := 1 }
    | _ => { m.put .err (Utf8.encode (name ++ ": not found\n".toList)) with status := 127 }

/-- Whether the status so far lets a command run. -/
def Machine.allows (m : Machine) (onSuccess : Option Bool) : Bool :=
  match onSuccess with
  | none => true
  | some wanted => (m.status == 0) == wanted

/-- **One command.**  `exec` runs what is behind it and ends with its status. -/
def Machine.step (m : Machine) (c : Command) : Machine :=
  if m.ending.isSome ∨ ¬ m.allows c.onSuccess then m
  else
    match c.words.flatMap m.expand with
    | ['e', 'x', 'e', 'c'] :: fields =>
      let m := m.perform c.out fields
      { m with ending := m.ending <|> some (.status m.status) }
    | fields => m.perform c.out fields

/-- What a process leaves behind. -/
structure Outcome where
  ending : Ending
  out : List UInt8
  err : List UInt8
  millis : Nat
  deriving Repr

/-- **A script run to its end**, on arguments and input. -/
def run (script : List Char) (args : List String) (input : List UInt8) : Outcome :=
  let start : Machine := ⟨args.map String.toList, [], input, [], [], 0, 0, none⟩
  let m := (commands script).foldl Machine.step start
  ⟨m.ending.getD (.status m.status), m.out, m.err, m.asleep⟩

end CodeTint.Script
