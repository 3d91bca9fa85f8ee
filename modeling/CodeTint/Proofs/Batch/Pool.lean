/-
# What a step of a worker does to the account

While workers colorize documents side by side, the counts are behind: some entries have been made, some
are still to be made by the worker that has the document in hand, and those of the documents that are
not written yet are still to come.  **All of them together are always the entries of all documents**,
each once (`Pool.Sound`).  A step only moves one from what is owed to what is made; a document that is
written moves from those to do to those done, and its file from what it was to what it is to be.

For this to go through every step, what comes of a document must not depend on when its turn comes.
It is read by one worker and by no other; with a lawful library the session does not show what it ran
before, or what others did to the store; and tools answer alike as long as nothing but documents
changes, which is asked for here (`htools`).
-/
import CodeTint.Batch.Pool
import CodeTint.Proofs.Batch.Directory
import Mathlib.Data.List.Pairwise
import Mathlib.Data.List.Perm.Basic

namespace CodeTint.Batch

open CodeTint.Text

/-! ## 1. Entries -/

/-- The value of a count. -/
def Stats.get (st : Stats) : Counter → Nat
  | .processed => st.processed
  | .changed => st.changed
  | .colorized => st.colorized
  | .skipped => st.skipped
  | .bytesIn => st.bytesIn
  | .bytesOut => st.bytesOut

/-- What an entry adds to a count. -/
def Entry.amount (c : Counter) : Entry → Nat
  | .count c' n => if c' = c then n else 0
  | .failure _ => 0

/-- The failure that an entry lists. -/
def Entry.failure? : Entry → Option FileError
  | .count _ _ => none
  | .failure e => some e

theorem Stats.get_enter (st : Stats) (e : Entry) (c : Counter) :
    (st.enter e).get c = st.get c + e.amount c := by
  cases e with
  | count c' n => cases c' <;> cases c <;> rfl
  | failure e => cases c <;> rfl

theorem Stats.failures_enter (st : Stats) (e : Entry) :
    (st.enter e).failures = st.failures ++ e.failure?.toList := by
  cases e with
  | count c n => cases c <;> exact (List.append_nil _).symm
  | failure e => rfl

/-- The counts and the failures are all there is. -/
theorem Stats.ext_get {st st' : Stats} (hget : ∀ c, st.get c = st'.get c)
    (hf : st.failures = st'.failures) : st = st' := by
  obtain ⟨p, c, b, s, i, o, f⟩ := st
  obtain ⟨p', c', b', s', i', o', f'⟩ := st'
  cases (hget .processed : p = p')
  cases (hget .changed : c = c')
  cases (hget .colorized : b = b')
  cases (hget .skipped : s = s')
  cases (hget .bytesIn : i = i')
  cases (hget .bytesOut : o = o')
  cases (hf : f = f')
  rfl

theorem get_foldl_enter (log : List Entry) (st : Stats) (c : Counter) :
    (log.foldl Stats.enter st).get c = log.foldl (fun n e => n + e.amount c) (st.get c) := by
  induction log generalizing st with
  | nil => rfl
  | cons e log ih => rw [List.foldl_cons, ih, Stats.get_enter, List.foldl_cons]

theorem failures_foldl_enter (log : List Entry) (st : Stats) :
    (log.foldl Stats.enter st).failures = st.failures ++ log.filterMap Entry.failure? := by
  induction log generalizing st with
  | nil => exact (List.append_nil _).symm
  | cons e log ih =>
    rw [List.foldl_cons, ih, Stats.failures_enter, List.filterMap_cons, List.append_assoc]
    cases e.failure? <;> rfl

/-- The entries of a document list its failure, if it has one. -/
theorem filterMap_failure?_entries (r : Except FileError FileOutcome) :
    (entries r).filterMap Entry.failure? = (failed r).toList := by
  cases r with
  | error e => rfl
  | ok o =>
    obtain ⟨colorized, skipped, bytesIn, bytesOut, changed⟩ := o
    cases changed <;> rfl

/-- **The entries of a document make up what it adds.** -/
theorem foldl_enter_entries (st : Stats) (r : Except FileError FileOutcome) :
    (entries r).foldl Stats.enter st = st.add r := by
  cases r with
  | error e => rfl
  | ok o =>
    obtain ⟨colorized, skipped, bytesIn, bytesOut, changed⟩ := o
    cases changed <;> rfl

theorem foldl_enter_flatMap {α : Type} (f : α → Except FileError FileOutcome) (xs : List α)
    (st : Stats) :
    (xs.flatMap fun x => entries (f x)).foldl Stats.enter st
      = xs.foldl (fun st x => st.add (f x)) st := by
  rw [List.foldl_flatMap]
  simp only [foldl_enter_entries]

/-- A list with at most one failure for each path has one order by paths. -/
theorem mergeSort_failures {fs fs' : List FileError} (hperm : fs.Perm fs')
    (hd : fs.Pairwise fun e e' => e.path.same e'.path = false) :
    fs.mergeSort (fun a b => a.path.le b.path) = fs'.mergeSort (fun a b => a.path.le b.path) := by
  have hsorted : ∀ l : List FileError,
      (l.mergeSort fun a b => a.path.le b.path).Pairwise fun a b => a.path.le b.path = true :=
    List.pairwise_mergeSort (fun _ _ _ => Component.listLe_trans)
      fun a b => Component.listLe_total a.path.components b.path.components
  have hsymm : Std.Symm fun e e' : FileError => e.path.same e'.path = false :=
    ⟨fun e e' h => by rw [Path.same, BEq.comm]; exact h⟩
  refine List.Perm.eq_of_pairwise (fun a b ha hb hab hba => ?_) (hsorted _) (hsorted _)
    ((List.mergeSort_perm _ _).trans (hperm.trans (List.mergeSort_perm _ _).symm))
  by_contra hne
  have ha := List.mem_mergeSort.mp ha
  have hb := hperm.mem_iff.mpr (List.mem_mergeSort.mp hb)
  have hdiff := hd.forall ha hb hne
  rw [Path.same, Component.listLe_antisymm hab hba, beq_self_eq_true] at hdiff
  cases hdiff

/-- **The order in which entries are made does not show**, once the failures are sorted. -/
theorem sorted_congr {log log' : List Entry} (hperm : log.Perm log')
    (hd : (log.filterMap Entry.failure?).Pairwise fun e e' => e.path.same e'.path = false) :
    (log.foldl Stats.enter {}).sorted = (log'.foldl Stats.enter {}).sorted := by
  refine Stats.ext_get (fun c => ?_) ?_
  · have hget : ∀ st : Stats, st.sorted.get c = st.get c := fun st => by cases c <;> rfl
    rw [hget, hget, get_foldl_enter, get_foldl_enter]
    refine hperm.foldl_eq' (fun x _ y _ n => ?_) _
    rw [Nat.add_right_comm]
  · show List.mergeSort _ _ = List.mergeSort _ _
    rw [failures_foldl_enter, failures_foldl_enter]
    exact mergeSort_failures (hperm.filterMap _) hd

/-! ## 2. What comes of a document -/

/-- A document whose path leads to a file. -/
theorem read?_eq_bytes? {h : Host} {p : Path} {v : Location} (hv : h.place? p = some v) :
    h.read? p = h.files.bytes? v := by
  refine Option.ext fun bytes => ?_
  rw [Host.read?_eq_some, Node.bytes?_eq_some]
  constructor
  · rintro ⟨t, x, ht, hx⟩
    rw [hv, Option.some.injEq] at ht
    exact ⟨x, ht ▸ hx⟩
  · rintro ⟨x, hx⟩
    exact ⟨v, x, hv, hx⟩

/-- **A file that is there is written**, and set to the colorized text. -/
theorem writeBack_spec {g : Host} {places : Location → Prop} {p : Path} {v : Location}
    {bytes : List UInt8} {doc : List Char} (hp : g.place? p = some v)
    (hb : g.files.bytes? v = some bytes)
    (hdoc : Utf8.decode? bytes = some doc) (c : Document.Colorized) (hv : places v) :
    ∃ g', writeBack g p doc c = (g', .ok (outcomeOf doc c)) ∧
      g.SetsFile g' v (Utf8.encode c.html) ∧ Host.SameBut places g g' := by
  rw [writeBack]
  split
  · obtain ⟨g', hw⟩ := exists_write? hp hb (Utf8.encode c.html)
    obtain ⟨v', hv', hset⟩ := Host.write?_setsFile hw
    rw [hp] at hv'
    cases hv'
    rw [hw]
    exact ⟨g', rfl, hset, .of_write? hp hv hw⟩
  · next hc =>
    have hc : c.html = doc := by simpa using hc
    refine ⟨g, rfl, ?_, .refl _ _⟩
    rw [hc, Utf8.encode_of_decode? hdoc]
    exact setsFile_self hb

section

variable [Highlight.Library] [Programs]

/-- **What comes of a document alone**, with a session of its own. -/
def alone (h : Host) (o : Options) (p : Path) : Except FileError FileOutcome :=
  (processFile h (.create o h.searchPath) p).2.2

/-- A document is read, run and written. -/
theorem processFile_eq (h : Host) (s : Session) (p : Path) : processFile h s p
    = match (h.read? p).bind Utf8.decode? with
      | none => (h, s, .error (.io p))
      | some doc =>
        match s.run h h.searchPath doc with
        | (.error e, s') => (h, s', .error (.colorize p e))
        | (.ok c, s') => ((writeBack h p doc c).1, s', (writeBack h p doc c).2) := by
  rw [processFile]
  cases (h.read? p).bind Utf8.decode? with
  | none => rfl
  | some doc =>
    dsimp only
    generalize s.run h h.searchPath doc = x
    obtain ⟨r, s'⟩ := x
    cases r with
    | error e => rfl
    | ok c =>
      dsimp only
      rw [writeBack, outcomeOf]
      split
      · cases h.write? p (Utf8.encode c.html) <;> rfl
      · rfl

/-- What comes of a document, from what its run comes to. -/
theorem outcome_processFile (h : Host) (s : Session) (p : Path) : (processFile h s p).2.2
    = match (h.read? p).bind Utf8.decode? with
      | none => .error (.io p)
      | some doc =>
        match (s.run h h.searchPath doc).1 with
        | .error e => .error (.colorize p e)
        | .ok c => (writeBack h p doc c).2 := by
  rw [processFile_eq]
  cases (h.read? p).bind Utf8.decode? with
  | none => rfl
  | some doc =>
    dsimp only
    generalize s.run h h.searchPath doc = x
    obtain ⟨r, s'⟩ := x
    cases r <;> rfl

theorem alone_eq (h : Host) (o : Options) (p : Path) : alone h o p
    = match (h.read? p).bind Utf8.decode? with
      | none => .error (.io p)
      | some doc =>
        match colorizeOnce h o doc with
        | .error e => .error (.colorize p e)
        | .ok c => (writeBack h p doc c).2 :=
  outcome_processFile h _ p

/-- A new session that has been given its store does what one does that has its own. -/
theorem outcome_withStore (h : Host) (o : Options) (p : Path) :
    (processFile h (.withStore o h.searchPath Highlight.Library.newStore) p).2.2
      = alone h o p := by
  rw [alone, outcome_processFile, outcome_processFile]
  simp only [Session.run_new]

theorem alone_of_error {h : Host} {o : Options} {p : Path} {doc : List Char} {e : Error}
    (hdoc : (h.read? p).bind Utf8.decode? = some doc) (he : colorizeOnce h o doc = .error e) :
    alone h o p = .error (.colorize p e) := by
  rw [alone_eq, hdoc]
  dsimp only
  rw [he]

theorem alone_of_ok {h : Host} {o : Options} {p : Path} {doc : List Char}
    {c : Document.Colorized} (hdoc : (h.read? p).bind Utf8.decode? = some doc)
    (hc : colorizeOnce h o doc = .ok c) : alone h o p = (writeBack h p doc c).2 := by
  rw [alone_eq, hdoc]
  dsimp only
  rw [hc]

/-- A failure is one of its document. -/
theorem path_of_alone {h : Host} {o : Options} {p : Path} {e : FileError}
    (he : alone h o p = .error e) : e.path = p := by
  rw [alone_eq] at he
  split at he
  · cases he; rfl
  · split at he
    · cases he; rfl
    · rw [writeBack] at he
      split at he
      · split at he
        · cases he
        · cases he; rfl
      · cases he

/-- **The files when some documents are done**: those are finished, all other files are as they
were. -/
def filesDone (h : Host) (o : Options) (done : List Path) (v : Location) : Option (List UInt8) :=
  if ∃ p ∈ done, h.place? p = some v then (h.files.bytes? v).map (finished h o)
  else h.files.bytes? v

/-! ## 3. One step of a worker -/

/-- The places that some paths lead to. -/
def leadsTo (h : Host) (paths : List Path) (v : Location) : Prop :=
  ∃ p ∈ paths, h.place? p = some v

/-- The documents that a phase has in hand and has not written. -/
def Phase.unwritten : Phase → List Path
  | .entering _ => []
  | .loaded p _ => [p]
  | .colorized p _ _ => [p]

/-- The entries that a phase has to make for a document that is written. -/
def Phase.unentered : Phase → List Entry
  | .entering es => es
  | .loaded _ _ => []
  | .colorized _ _ _ => []

/-- The documents that a worker has not written. -/
def Worker.todo (w : Worker) : List Path := w.phase.unwritten ++ w.queue

/-- The entries of some documents. -/
def entriesFor (h : Host) (o : Options) (ps : List Path) : List Entry :=
  ps.flatMap fun p => entries (alone h o p)

/-- **The entries that a worker is still to make.** -/
def Worker.owed (h : Host) (o : Options) (w : Worker) : List Entry :=
  w.phase.unentered ++ entriesFor h o w.todo

theorem entriesFor_cons (h : Host) (o : Options) (p : Path) (ps : List Path) :
    entriesFor h o (p :: ps) = entries (alone h o p) ++ entriesFor h o ps := List.flatMap_cons

/-- What a phase says of its document: it was read as it was on machine `h`, and colorized as it is
there. -/
def Phase.IsFaithful (h : Host) (o : Options) : Phase → Prop
  | .entering _ => True
  | .loaded p doc => (h.read? p).bind Utf8.decode? = some doc
  | .colorized p doc c =>
    (h.read? p).bind Utf8.decode? = some doc ∧ colorizeOnce h o doc = .ok c

/-- **A worker on its way**: its session is ready for the next run, and its phase is faithful. -/
structure Worker.Sound (h : Host) (o : Options) (w : Worker) : Prop where
  ready : w.session.Ready o
  faithful : w.phase.IsFaithful h o

/-- **What one step of a worker does**: it makes the entries `made` and has done with the documents
`done`; of either there is one at most. -/
structure Worker.Stepped (h : Host) (o : Options) (g : Host) (st : Stats) (w : Worker)
    (made : List Entry) (done : List Path) (g' : Host) (st' : Stats) (w' : Worker) : Prop where
  sound : w'.Sound h o
  same : Host.SameBut (leadsTo h w.todo) g g'
  stats : st' = made.foldl Stats.enter st
  owed : w.owed h o = made ++ w'.owed h o
  todo : w.todo = done ++ w'.todo
  files : ∀ v, g'.files.bytes? v
    = if ∃ p ∈ done, h.place? p = some v then (h.files.bytes? v).map (finished h o)
      else g.files.bytes? v

section

variable {h g : Host} {o : Options} {st : Stats} {s : Session} {p : Path} {ps : List Path}
  {doc : List Char} {places : Location → Prop}

/-- A document that is finished without being written. -/
theorem finished_unwritten
    (hp : ∀ v bytes, h.place? p = some v → h.files.bytes? v = some bytes →
      finished h o bytes = bytes)
    (hunwritten : ∀ v, h.place? p = some v → g.files.bytes? v = h.files.bytes? v) (v : Location) :
    g.files.bytes? v
      = if ∃ q ∈ [p], h.place? q = some v then (h.files.bytes? v).map (finished h o)
        else g.files.bytes? v := by
  simp only [List.mem_singleton, exists_eq_left]
  split
  · next hv =>
    rw [hunwritten v hv]
    cases hb : h.files.bytes? v with
    | none => rfl
    | some bytes => rw [Option.map_some, hp v bytes hv hb]
  · rfl

/-- **A document is read.** -/
theorem Worker.step_next_spec (hsame : Host.SameBut places h g) (hs : s.Ready o)
    (hunwritten : ∀ v, h.place? p = some v → g.files.bytes? v = h.files.bytes? v) :
    ∃ made done g' st' w', Worker.step g st ⟨s, .entering [], p :: ps⟩ = (g', st', w') ∧
      Worker.Stepped h o g st ⟨s, .entering [], p :: ps⟩ made done g' st' w' := by
  have hread : g.read? p = h.read? p := by
    cases hv : h.place? p with
    | none => rw [Host.read?, Host.read?, Host.node?, Host.node?, ← hsame.place?_eq, hv]; rfl
    | some v => rw [read?_eq_bytes? hv, read?_eq_bytes? (hsame.place?_eq p ▸ hv), hunwritten v hv]
  rw [step_next, hread]
  cases hdoc : (h.read? p).bind Utf8.decode? with
  | some doc =>
    exact ⟨[], [], _, _, _, rfl, ⟨hs, hdoc⟩, .refl _ _, rfl, rfl, rfl, fun v => by simp⟩
  | none =>
    refine ⟨[], [p], _, _, _, rfl, ⟨hs, trivial⟩, .refl _ _, rfl, ?_, rfl,
      finished_unwritten (fun v bytes hv hb => ?_) hunwritten⟩
    · show entriesFor h o (p :: ps) = entries (.error (.io p)) ++ entriesFor h o ps
      rw [entriesFor_cons, alone_eq, hdoc]
    · rw [read?_eq_bytes? hv, hb, Option.bind_some] at hdoc
      rw [finished, hdoc]

/-- **The session runs on a document.** -/
theorem Worker.step_loaded_spec [LawfulLibrary] (hsame : Host.SameBut places h g)
    (htools : Registry.SameTools g h) (hs : s.Ready o) (hdoc : (h.read? p).bind Utf8.decode? = some doc)
    (hunwritten : ∀ v, h.place? p = some v → g.files.bytes? v = h.files.bytes? v) :
    ∃ made done g' st' w', Worker.step g st ⟨s, .loaded p doc, ps⟩ = (g', st', w') ∧
      Worker.Stepped h o g st ⟨s, .loaded p doc, ps⟩ made done g' st' w' := by
  have hready := hs.run g h.searchPath doc
  have hrun : (s.run g h.searchPath doc).1 = colorizeOnce h o doc :=
    Session.run_eq htools hs h.searchPath doc
  rw [step_loaded, ← hsame.searchPath]
  generalize s.run g h.searchPath doc = x at hrun hready
  obtain ⟨r, s'⟩ := x
  cases r with
  | ok c =>
    exact ⟨[], [], _, _, _, rfl, ⟨hready, hdoc, hrun.symm⟩, .refl _ _, rfl, rfl, rfl,
      fun v => by simp⟩
  | error e =>
    dsimp only at hrun
    refine ⟨[], [p], _, _, _, rfl, ⟨hready, trivial⟩, .refl _ _, rfl, ?_, rfl,
      finished_unwritten (fun v bytes hv hb => ?_) hunwritten⟩
    · show entriesFor h o (p :: ps) = entries (.error (.colorize p e)) ++ entriesFor h o ps
      rw [entriesFor_cons, alone_of_error hdoc hrun.symm]
    · rw [read?_eq_bytes? hv, hb, Option.bind_some] at hdoc
      exact finished_of_error hdoc hrun.symm

/-- **A document is written.** -/
theorem Worker.step_colorized_spec (hsame : Host.SameBut places h g) (hs : s.Ready o)
    {c : Document.Colorized} (hdoc : (h.read? p).bind Utf8.decode? = some doc)
    (hc : colorizeOnce h o doc = .ok c)
    (hunwritten : ∀ v, h.place? p = some v → g.files.bytes? v = h.files.bytes? v) :
    ∃ made done g' st' w', Worker.step g st ⟨s, .colorized p doc c, ps⟩ = (g', st', w') ∧
      Worker.Stepped h o g st ⟨s, .colorized p doc c, ps⟩ made done g' st' w' := by
  obtain ⟨bytes, hread, hbytes⟩ := Option.bind_eq_some_iff.mp hdoc
  obtain ⟨v, x, hv, hx⟩ := Host.read?_eq_some.mp hread
  have hb : h.files.bytes? v = some bytes := Node.bytes?_eq_some.mpr ⟨x, hx⟩
  have hlead : leadsTo h (p :: ps) v := ⟨p, List.mem_cons_self, hv⟩
  obtain ⟨h', hwrite, -, -⟩ := writeBack_spec hv hb hbytes c hlead
  obtain ⟨g', hwrite', hset, hsame'⟩ := writeBack_spec (hsame.place?_eq p ▸ hv)
    ((hunwritten v hv).trans hb) hbytes c hlead
  refine ⟨[], [p], g', st, ⟨s, .entering (entries (.ok (outcomeOf doc c))), ps⟩, ?_,
    ⟨hs, trivial⟩, hsame', rfl, ?_, rfl, fun u => ?_⟩
  · rw [step_colorized, hwrite']
  · show entriesFor h o (p :: ps) = entries (.ok (outcomeOf doc c)) ++ entriesFor h o ps
    rw [entriesFor_cons, alone_of_ok hdoc hc, hwrite]
  · simp only [List.mem_singleton, exists_eq_left, hv, Option.some.injEq]
    split
    · next hu =>
      rw [← hu, hset.there, hb, Option.map_some, finished_of_ok hbytes hc]
    · next hu => exact hset.others u (Ne.symm hu)

/-- **Every step of a worker is accounted for.** -/
theorem Worker.step_spec [LawfulLibrary] {w : Worker} (hsame : Host.SameBut places h g)
    (htools : Registry.SameTools g h) (hw : w.Sound h o)
    (hunwritten : ∀ p ∈ w.todo, ∀ v, h.place? p = some v → g.files.bytes? v = h.files.bytes? v) :
    ∃ made done g' st' w', w.step g st = (g', st', w') ∧
      w.Stepped h o g st made done g' st' w' := by
  obtain ⟨s, phase, ps⟩ := w
  cases phase with
  | loaded p doc =>
    exact step_loaded_spec hsame htools hw.ready hw.faithful (hunwritten p List.mem_cons_self)
  | colorized p doc c =>
    exact step_colorized_spec hsame hw.ready hw.faithful.1 hw.faithful.2
      (hunwritten p List.mem_cons_self)
  | entering es =>
    cases es with
    | cons e es =>
      exact ⟨[e], [], g, _, _, step_entry e es, ⟨hw.ready, trivial⟩, .refl _ _, rfl, rfl, rfl,
        fun v => by simp⟩
    | nil =>
      cases ps with
      | cons p ps =>
        exact step_next_spec hsame hw.ready (hunwritten p List.mem_cons_self)
      | nil =>
        exact ⟨[], [], g, st, _, step_rest, hw, .refl _ _, rfl, rfl, rfl, fun v => by simp⟩

end

end

/-! ## 4. One step of a pool -/

section

variable {α β : Type} (f : α → List β) {l : List α} {i : Nat} {a : α}

/-- What the members of a list give, one of them in front. -/
theorem flatMap_perm_eraseIdx (h : l[i]? = some a) :
    (l.flatMap f).Perm (f a ++ (l.eraseIdx i).flatMap f) := by
  obtain ⟨hi, rfl⟩ := List.getElem?_eq_some_iff.mp h
  exact ((List.getElem_cons_eraseIdx_perm hi).flatMap_right f).symm

theorem flatMap_set_perm_eraseIdx (h : l[i]? = some a) (b : α) :
    ((l.set i b).flatMap f).Perm (f b ++ (l.eraseIdx i).flatMap f) := by
  obtain ⟨hi, -⟩ := List.getElem?_eq_some_iff.mp h
  exact (List.set_perm_cons_eraseIdx hi b).flatMap_right f

end

section

variable [Highlight.Library] [Programs]

/-- **No two of some paths lead to one place.** -/
def Apart (h : Host) (paths : List Path) : Prop :=
  paths.Pairwise fun p q => ∀ v, h.place? p = some v → h.place? q ≠ some v

/-- **What holds of a pool on its way.**  The machine differs from the one at the start in the files of
documents only; the store is one that there can be, and every worker is sound; the entries made and the
entries owed are together those of all documents; and the documents that are done are finished, the
others as they were. -/
structure Pool.Sound (h : Host) (o : Options) (paths : List Path) (pool : Pool) : Prop where
  same : Host.SameBut (leadsTo h paths) h pool.host
  store : ∃ shared : SharedStore, shared.store = pool.store
  workers : ∀ w ∈ pool.workers, w.Sound h o
  entered : ∃ log : List Entry, pool.stats = log.foldl Stats.enter {} ∧
    (log ++ pool.workers.flatMap (Worker.owed h o)).Perm (entriesFor h o paths)
  written : ∃ done : List Path, (done ++ pool.workers.flatMap Worker.todo).Perm paths ∧
    ∀ v, pool.host.files.bytes? v = filesDone h o done v

/-- One more set of documents is done. -/
theorem filesDone_append (h : Host) (o : Options) (done more : List Path) (v : Location) :
    filesDone h o (done ++ more) v
      = if ∃ p ∈ more, h.place? p = some v then (h.files.bytes? v).map (finished h o)
        else filesDone h o done v := by
  rw [filesDone, filesDone]
  by_cases hmore : ∃ p ∈ more, h.place? p = some v
  · obtain ⟨p, hp, hv⟩ := hmore
    rw [if_pos ⟨p, List.mem_append_right _ hp, hv⟩, if_pos ⟨p, hp, hv⟩]
  · rw [if_neg hmore]
    refine if_congr ⟨?_, ?_⟩ rfl rfl
    · rintro ⟨p, hp, hv⟩
      rcases List.mem_append.mp hp with hp | hp
      · exact ⟨p, hp, hv⟩
      · exact absurd ⟨p, hp, hv⟩ hmore
    · rintro ⟨p, hp, hv⟩
      exact ⟨p, List.mem_append_left _ hp, hv⟩

/-- **A worker leaves a store that there can be**, its own or the one that was there. -/
theorem Worker.Sound.exists_store {h : Host} {o : Options} {w : Worker} (hw : w.Sound h o)
    (shared : SharedStore) : ∃ left : SharedStore, left.store = w.session.store.getD shared.store := by
  cases hs : w.session.store with
  | none => exact ⟨shared, rfl⟩
  | some store => exact ⟨hw.ready.reached.sharedStore, hw.ready.store store hs⟩

/-- It is sound whatever others do to the store. -/
theorem Worker.Sound.seeStore {h : Host} {o : Options} {w : Worker} (hw : w.Sound h o)
    (shared : SharedStore) : (w.seeStore shared.store).Sound h o :=
  ⟨hw.ready.seeStore shared, hw.faithful⟩

variable {h : Host} {o : Options} {paths : List Path} {pool : Pool}

/-- **A step of any worker keeps a pool sound.** -/
theorem Pool.Sound.step [LawfulLibrary] (hapart : Apart h paths)
    (htools : ∀ g, Host.SameBut (leadsTo h paths) h g → Registry.SameTools g h)
    (hs : pool.Sound h o paths) (i : Nat) : (pool.step i).Sound h o paths := by
  rw [Pool.step]
  cases hw : pool.workers[i]? with
  | none => exact hs
  | some w =>
    obtain ⟨log, hlog, hentries⟩ := hs.entered
    obtain ⟨done, hdone, hfiles⟩ := hs.written
    obtain ⟨shared, hshared⟩ := hs.store
    have hmem := List.mem_of_getElem? hw
    -- the documents of this worker and those that are done lead to different places
    have htodo := flatMap_perm_eraseIdx Worker.todo hw
    have hpart : Apart h (done ++ (w.todo ++ (pool.workers.eraseIdx i).flatMap Worker.todo)) :=
      hapart.perm ((htodo.append_left done).symm.trans hdone).symm
        fun hpq v hq hp => hpq v hp hq
    have hunwritten : ∀ p ∈ w.todo, ∀ v, h.place? p = some v →
        pool.host.files.bytes? v = h.files.bytes? v := by
      intro p hp v hv
      rw [hfiles, filesDone, if_neg]
      rintro ⟨q, hq, hqv⟩
      exact (List.pairwise_append.mp hpart).2.2 q hq p (List.mem_append_left _ hp) v hqv hv
    obtain ⟨made, more, g', st', w', hstep, hstepped⟩ :=
      Worker.step_spec hs.same (htools _ hs.same) ((hs.workers w hmem).seeStore shared) hunwritten
    dsimp only
    rw [← hshared, hstep]
    refine ⟨hs.same.trans ?_, hstepped.sound.exists_store shared, fun x hx => ?_,
      ⟨log ++ made, ?_, ?_⟩, ⟨done ++ more, ?_, fun v => ?_⟩⟩
    · -- the worker writes documents of the pool only
      obtain ⟨hcwd, hpath, hdirs, hothers⟩ := hstepped.same
      refine ⟨hcwd, hpath, hdirs, fun u hu => hothers u fun ⟨p, hp, hpu⟩ => hu ⟨p, ?_, hpu⟩⟩
      exact hdone.subset (List.mem_append_right _
        (htodo.symm.subset (List.mem_append_left _ hp)))
    · rcases List.mem_or_eq_of_mem_set hx with hx | rfl
      · exact hs.workers x hx
      · exact hstepped.sound
    · rw [hstepped.stats, hlog, List.foldl_append]
    · refine .trans ?_ hentries
      rw [List.append_assoc]
      refine .append_left log ((flatMap_set_perm_eraseIdx _ hw w').append_left made |>.trans ?_)
      rw [← List.append_assoc, ← hstepped.owed]
      exact (flatMap_perm_eraseIdx (Worker.owed h o) hw).symm
    · refine .trans ?_ hdone
      rw [List.append_assoc]
      refine .append_left done ((flatMap_set_perm_eraseIdx _ hw w').append_left more |>.trans ?_)
      rw [← List.append_assoc, ← hstepped.todo]
      exact htodo.symm
    · rw [hstepped.files, filesDone_append, hfiles]

/-- **Whatever the schedule, a pool stays sound.** -/
theorem Pool.Sound.run [LawfulLibrary] (hapart : Apart h paths)
    (htools : ∀ g, Host.SameBut (leadsTo h paths) h g → Registry.SameTools g h)
    (hs : pool.Sound h o paths) (schedule : List Nat) : (pool.run schedule).Sound h o paths := by
  induction schedule generalizing pool with
  | nil => exact hs
  | cons i schedule ih => exact ih (hs.step hapart htools i)

end

end CodeTint.Batch
