/-
# Colorizing the documents of a directory

A `Job` names a document or a directory, and perhaps another place for the outcome.  With another
place, everything is copied there first and the documents are colorized there; without one, or with
the same path, they are colorized where they are.

**A document that fails does not stop the others**: it stays as it was and is listed at the end.  Only
what concerns the input as a whole, a missing input or a copy that fails, ends the job.
-/
import CodeTint.Session

namespace CodeTint.Batch

/-! ## 1. Failures and counts -/

/-- What can go wrong with a file. -/
inductive FileError where
  | missing (p : Path)
  | io (p : Path)
  | colorize (p : Path) (cause : Error)
  deriving Repr

/-- The file that an error is about. -/
def FileError.path : FileError → Path
  | .missing p => p
  | .io p => p
  | .colorize p _ => p

/-- The wording of an error. -/
def FileError.message : FileError → String
  | .missing p => "input does not exist: " ++ p.text
  | .io p => p.text ++ ": cannot be read or written"
  | .colorize p cause => p.text ++ ": " ++ cause.message

/-- **What a job did.**  Blocks and bytes are those of the documents that went well.  The counts are
exact; a machine's counters start over at 2⁶⁴, which nothing that is counted here comes near. -/
structure Stats where
  processed : Nat := 0
  changed : Nat := 0
  colorized : Nat := 0
  skipped : Nat := 0
  bytesIn : Nat := 0
  bytesOut : Nat := 0
  failures : List FileError := []

/-- Whether all documents went well. -/
def Stats.success (s : Stats) : Bool := s.failures.isEmpty

/-- By how many percent the documents grew. -/
def Stats.inflation (s : Stats) : Float :=
  if s.bytesIn = 0 then 0.0
  else (s.bytesOut.toFloat - s.bytesIn.toFloat) / s.bytesIn.toFloat * 100.0

/-- How many megabytes were read in a second. -/
def Stats.throughput (s : Stats) (spent : Duration) : Float :=
  if spent.seconds == 0.0 then 0.0
  else (s.bytesIn.toFloat / (1024.0 * 1024.0)) / spent.seconds

/-! ## 2. One document -/

open Highlight (Library)

variable [Library] [Programs]

/-- What came of one document. -/
structure FileOutcome where
  colorized : Nat
  skipped : Nat
  bytesIn : Nat
  bytesOut : Nat
  changed : Bool

/-- **One document, where it is.**  It is written only if it changed. -/
def processFile (h : Host) (s : Session) (p : Path) :
    Host × Session × Except FileError FileOutcome :=
  match (h.read? p).bind Text.Utf8.decode? with
  | none => (h, s, .error (.io p))
  | some doc =>
    match s.run h h.searchPath doc with
    | (.error e, s) => (h, s, .error (.colorize p e))
    | (.ok c, s) =>
      let changed := c.html != doc
      let outcome : FileOutcome :=
        ⟨c.colorized, c.skipped, Text.Utf8.size doc, Text.Utf8.size c.html, changed⟩
      if changed then
        match h.write? p (Text.Utf8.encode c.html) with
        | some h => (h, s, .ok outcome)
        | none => (h, s, .error (.io p))
      else (h, s, .ok outcome)

/-- The counts with one more document. -/
def Stats.add (st : Stats) : Except FileError FileOutcome → Stats
  | .ok o =>
    { st with
      processed := st.processed + 1
      changed := st.changed + (if o.changed then 1 else 0)
      colorized := st.colorized + o.colorized
      skipped := st.skipped + o.skipped
      bytesIn := st.bytesIn + o.bytesIn
      bytesOut := st.bytesOut + o.bytesOut }
  | .error e => { st with failures := st.failures ++ [e] }

/-- Documents one after the other. -/
def processFiles (h : Host) (s : Session) (st : Stats) : List Path → Host × Stats
  | [] => (h, st)
  | p :: ps =>
    let (h, s, r) := processFile h s p
    processFiles h s (st.add r) ps

/-! ## 3. A job -/

/-- **What is to be done.** -/
structure Job where
  input : Path
  output : Option Path
  options : Options

/-- The extensions of documents. -/
def documentExtensions : List String := ["html", "htm", "xhtml", "xml"]

/-- **Whether a path is a document's**, by its extension in any case. -/
def isDocument (p : Path) : Bool :=
  match p.extension? with
  | some ext => documentExtensions.any (fun e => e.toList == Text.lower ext.toList)
  | none => false

/-- The documents below a path, in the order of their paths. -/
def documentsBelow (h : Host) (p : Path) : List Path :=
  ((h.filesBelow p).filter isDocument).mergeSort Path.le

/-- The other place that a job names, if it names another. -/
def Job.elsewhere? (j : Job) : Option Path :=
  match j.output with
  | some out => if out.same j.input then none else some out
  | none => none

/-- **Brings everything to where it is colorized**, and gives the documents there. -/
def Job.prepare (j : Job) (h : Host) : Host × Except FileError (List Path) :=
  if h.isDir j.input then
    match j.elsewhere? with
    | none => (h, .ok (documentsBelow h j.input))
    | some out =>
      match h.copyTree j.input out with
      | (h, none) => (h, .ok (documentsBelow h out))
      | (h, some failed) => (h, .error (.io failed))
  else
    match j.elsewhere? with
    | none => (h, .ok [j.input])
    | some out =>
      match h.copyFile j.input out with
      | (h, true) => (h, .ok [out])
      | (h, false) => (h, .error (.io out))

/-- The counts with the failures in the order of their paths. -/
def Stats.sorted (s : Stats) : Stats :=
  { s with failures := s.failures.mergeSort (fun a b => a.path.le b.path) }

/-- **Does a job**: one document after the other, with one session that has a new store.  Sharing them
out among several, which share that store, comes to the same (`Batch.Pool`). -/
def Job.run (j : Job) (h : Host) : Host × Except FileError Stats :=
  if h.exists? j.input then
    match j.prepare h with
    | (h, .error e) => (h, .error e)
    | (h, .ok files) =>
      let (h, st) :=
        processFiles h (.withStore j.options h.searchPath Library.newStore) {} files
      (h, .ok st.sorted)
  else (h, .error (.missing j.input))

end CodeTint.Batch
