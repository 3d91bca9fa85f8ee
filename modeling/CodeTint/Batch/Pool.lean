/-
# Documents shared out among workers

A `Pool` colorizes documents with several workers that go on side by side.  Each worker has a session
of its own, which it uses for all its documents.  The machine, the counts and the store of grammars are
shared; **what one worker's run does to the store, the next one finds there** (`Pool.step`).

**A worker does one thing at a time** (`Worker.step`): it reads a document, runs its session on it,
writes the outcome, or makes one entry in the counts.  Between two things of one worker the others may
do any number of theirs; which worker comes next is said by a schedule (`Pool.run`).
-/
import CodeTint.Batch

namespace CodeTint.Batch

/-! ## 1. Entries -/

/-- What is counted. -/
inductive Counter where
  | processed
  | changed
  | colorized
  | skipped
  | bytesIn
  | bytesOut
  deriving DecidableEq, Repr

/-- **One entry**: a number is added to one count, or a failure is listed. -/
inductive Entry where
  | count (c : Counter) (n : Nat)
  | failure (e : FileError)
  deriving Repr

/-- The counts with an entry made. -/
def Stats.enter (st : Stats) : Entry → Stats
  | .count .processed n => { st with processed := st.processed + n }
  | .count .changed n => { st with changed := st.changed + n }
  | .count .colorized n => { st with colorized := st.colorized + n }
  | .count .skipped n => { st with skipped := st.skipped + n }
  | .count .bytesIn n => { st with bytesIn := st.bytesIn + n }
  | .count .bytesOut n => { st with bytesOut := st.bytesOut + n }
  | .failure e => { st with failures := st.failures ++ [e] }

/-- **The entries for what came of a document**, in the order in which they are made. -/
def entries : Except FileError FileOutcome → List Entry
  | .ok o =>
    .count .processed 1 :: (if o.changed then [.count .changed 1] else []) ++
      [.count .colorized o.colorized, .count .skipped o.skipped, .count .bytesIn o.bytesIn,
        .count .bytesOut o.bytesOut]
  | .error e => [.failure e]

/-! ## 2. Workers -/

open Highlight (Library)

variable [Library]

/-- What a worker is at: entries that are still to be made, a document that it has read, or one that
its session has colorized and that is to be written. -/
inductive Phase where
  | entering (es : List Entry)
  | loaded (p : Path) (doc : List Char)
  | colorized (p : Path) (doc : List Char) (c : Document.Colorized)

/-- **A worker**: its session, what it is at, and the documents that it has not begun. -/
structure Worker where
  session : Session
  phase : Phase
  queue : List Path

/-- What came of a document that was colorized. -/
def outcomeOf (doc : List Char) (c : Document.Colorized) : FileOutcome :=
  ⟨c.colorized, c.skipped, Text.Utf8.size doc, Text.Utf8.size c.html, c.html != doc⟩

/-- **Writes a document that was colorized**, if it changed. -/
def writeBack (h : Host) (p : Path) (doc : List Char) (c : Document.Colorized) :
    Host × Except FileError FileOutcome :=
  if c.html != doc then
    match h.write? p (Text.Utf8.encode c.html) with
    | some h => (h, .ok (outcomeOf doc c))
    | none => (h, .error (.io p))
  else (h, .ok (outcomeOf doc c))

/-- **The next thing that a worker does.**  One that has nothing left to do does nothing. -/
def Worker.step [Programs] (h : Host) (st : Stats) (w : Worker) : Host × Stats × Worker :=
  match w.phase with
  | .entering (e :: es) => (h, st.enter e, { w with phase := .entering es })
  | .entering [] =>
    match w.queue with
    | [] => (h, st, w)
    | p :: ps =>
      match (h.read? p).bind Text.Utf8.decode? with
      | none => (h, st, { w with phase := .entering (entries (.error (.io p))), queue := ps })
      | some doc => (h, st, { w with phase := .loaded p doc, queue := ps })
  | .loaded p doc =>
    match w.session.run h h.searchPath doc with
    | (.error e, s) =>
      (h, st, { w with session := s, phase := .entering (entries (.error (.colorize p e))) })
    | (.ok c, s) => (h, st, { w with session := s, phase := .colorized p doc c })
  | .colorized p doc c =>
    let (h, r) := writeBack h p doc c
    (h, st, { w with phase := .entering (entries r) })

section

variable [Programs] {h : Host} {st : Stats} {s : Session} {ps : List Path}

theorem Worker.step_entry (e : Entry) (es : List Entry) :
    Worker.step h st ⟨s, .entering (e :: es), ps⟩ = (h, st.enter e, ⟨s, .entering es, ps⟩) := rfl

theorem Worker.step_rest : Worker.step h st ⟨s, .entering [], []⟩ = (h, st, ⟨s, .entering [], []⟩) :=
  rfl

theorem Worker.step_next (p : Path) : Worker.step h st ⟨s, .entering [], p :: ps⟩
    = match (h.read? p).bind Text.Utf8.decode? with
      | none => (h, st, ⟨s, .entering (entries (.error (.io p))), ps⟩)
      | some doc => (h, st, ⟨s, .loaded p doc, ps⟩) := rfl

theorem Worker.step_loaded (p : Path) (doc : List Char) : Worker.step h st ⟨s, .loaded p doc, ps⟩
    = match s.run h h.searchPath doc with
      | (.error e, s) => (h, st, ⟨s, .entering (entries (.error (.colorize p e))), ps⟩)
      | (.ok c, s) => (h, st, ⟨s, .colorized p doc c, ps⟩) := rfl

theorem Worker.step_colorized (p : Path) (doc : List Char) (c : Document.Colorized) :
    Worker.step h st ⟨s, .colorized p doc c, ps⟩
      = ((writeBack h p doc c).1, st, ⟨s, .entering (entries (writeBack h p doc c).2), ps⟩) := rfl

end

/-- Whether a worker has nothing left to do. -/
def Worker.isDone (w : Worker) : Bool :=
  match w.phase, w.queue with
  | .entering [], [] => true
  | _, _ => false

/-! ## 3. Pools -/

/-- **Workers on one machine and with one store of grammars**, with one account of what came of the
documents. -/
structure Pool where
  host : Host
  stats : Stats
  store : Library.Store
  workers : List Worker

/-- A pool at its start: each worker has a new session and its share of the documents. -/
def Pool.start (h : Host) (o : Options) (shares : List (List Path)) : Pool :=
  ⟨h, {}, Library.newStore,
    shares.map fun ps => ⟨.withStore o h.searchPath Library.newStore, .entering [], ps⟩⟩

/-- A worker that finds the store as it is now. -/
def Worker.seeStore (w : Worker) (store : Library.Store) : Worker :=
  { w with session := w.session.seeStore store }

variable [Programs]

/-- One worker does its next thing, with the store as the others have left it. -/
def Pool.step (pool : Pool) (i : Nat) : Pool :=
  match pool.workers[i]? with
  | none => pool
  | some w =>
    let (h, st, w) := (w.seeStore pool.store).step pool.host pool.stats
    ⟨h, st, w.session.store.getD pool.store, pool.workers.set i w⟩

/-- **Goes through a schedule**: it says whose turn is next. -/
def Pool.run (pool : Pool) (schedule : List Nat) : Pool := schedule.foldl Pool.step pool

/-- Whether all is done. -/
def Pool.isDone (pool : Pool) : Bool := pool.workers.all Worker.isDone

/-! ## 4. One document after the other -/

/-- **Each document with a session of its own**, one after the other. -/
def processEach (h : Host) (o : Options) (st : Stats) : List Path → Host × Stats
  | [] => (h, st)
  | p :: ps =>
    let (h, _, r) := processFile h (.create o h.searchPath) p
    processEach h o (st.add r) ps

end CodeTint.Batch
