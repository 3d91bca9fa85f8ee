/-
# The schedule of a batch does not show

Documents are shared out among workers in any way, and the workers take their turns in any order.
This file proves that **the account and the files at the end are always the same**, those of colorizing
one document after the other, each with a session of its own (`schedule_independent`).

A pool that is done owes nothing, so its entries are those of all documents and its documents are
finished (`Pool.Sound.stats_of_isDone`, `Pool.Sound.files_of_isDone`), whatever the schedule was.
Colorizing one document after the other is what a pool with a single worker does (`run_document`), so
it comes to the same.  And every schedule can be gone on with until all is done (`exists_isDone`).
-/
import CodeTint.Proofs.Batch.Pool

namespace CodeTint.Batch

open CodeTint.Text

/-! ## 1. Pools that are done -/

theorem length_entries_le (r : Except FileError FileOutcome) : (entries r).length ≤ 6 := by
  cases r with
  | error e => exact Nat.succ_le_succ (Nat.zero_le _)
  | ok o =>
    obtain ⟨colorized, skipped, bytesIn, bytesOut, changed⟩ := o
    cases changed with
    | false => exact Nat.le_succ 5
    | true => exact Nat.le_refl 6

section

variable [Highlight.Library]

theorem Worker.eq_of_isDone {w : Worker} (hw : w.isDone = true) :
    w.phase = .entering [] ∧ w.queue = [] := by
  rw [isDone] at hw
  split at hw
  · next hp hq => exact ⟨hp, hq⟩
  · cases hw

variable [Programs] {h g g' : Host} {o : Options} {st st' : Stats} {s : Session} {paths : List Path}
  {store : Highlight.Library.Store} {pool : Pool}

/-- A pool that is done has nothing to do and owes nothing. -/
theorem Pool.todo_of_isDone (hdone : pool.isDone = true) :
    pool.workers.flatMap Worker.todo = [] ∧ pool.workers.flatMap (Worker.owed h o) = [] := by
  have hall := List.all_eq_true.mp hdone
  constructor
  all_goals
    refine List.flatMap_eq_nil_iff.mpr fun w hw => ?_
    obtain ⟨hp, hq⟩ := Worker.eq_of_isDone (hall w hw)
  · rw [Worker.todo, hp, hq]; rfl
  · rw [Worker.owed, Worker.todo, hp, hq]; rfl

/-- Each document fails at most once, under its own path. -/
theorem pairwise_failures (hdiff : paths.Pairwise fun p q => p.same q = false) :
    ((entriesFor h o paths).filterMap Entry.failure?).Pairwise
      fun e e' => e.path.same e'.path = false := by
  have hpath : ∀ p, ∀ e ∈ (entries (alone h o p)).filterMap Entry.failure?, e.path = p := by
    intro p e he
    rw [filterMap_failure?_entries, Option.mem_toList] at he
    cases ha : alone h o p with
    | ok out => rw [ha] at he; cases he
    | error e' =>
      rw [ha] at he
      cases he
      exact path_of_alone ha
  induction paths with
  | nil => exact List.Pairwise.nil
  | cons p ps ih =>
    rw [List.pairwise_cons] at hdiff
    rw [entriesFor_cons, List.filterMap_append, List.pairwise_append]
    refine ⟨?_, ih hdiff.2, fun e he e' he' => ?_⟩
    · rw [filterMap_failure?_entries]
      cases failed (alone h o p) with
      | none => exact List.Pairwise.nil
      | some e => exact List.pairwise_singleton _ _
    · obtain ⟨x, hx, hfail⟩ := List.mem_filterMap.mp he'
      obtain ⟨q, hq, hxq⟩ := List.mem_flatMap.mp hx
      rw [hpath p e he, hpath q e' (List.mem_filterMap.mpr ⟨x, hxq, hfail⟩)]
      exact hdiff.1 q hq

/-- **What documents come to**, each of which is done alone on the machine as it is at the start: only
one that goes well adds to the counts. -/
def account (h : Host) (o : Options) (paths : List Path) : Stats :=
  paths.foldl (fun (st : Stats) p => st.add (alone h o p)) {}

/-- **The account of a pool that is done**: what each document adds alone, once each. -/
theorem Pool.Sound.stats_of_isDone (hs : pool.Sound h o paths) (hdone : pool.isDone = true)
    (hdiff : paths.Pairwise fun p q => p.same q = false) :
    pool.stats.sorted = (account h o paths).sorted := by
  obtain ⟨log, hlog, hentries⟩ := hs.entered
  rw [(todo_of_isDone hdone).2, List.append_nil] at hentries
  rw [hlog, account, ← foldl_enter_flatMap, ← entriesFor]
  exact (sorted_congr hentries.symm (pairwise_failures hdiff)).symm

/-- **The files of a pool that is done**: all documents are finished. -/
theorem Pool.Sound.files_of_isDone (hs : pool.Sound h o paths) (hdone : pool.isDone = true)
    (v : Location) : pool.host.files.bytes? v = filesDone h o paths v := by
  obtain ⟨done, hperm, hfiles⟩ := hs.written
  rw [(todo_of_isDone (h := h) (o := o) hdone).1, List.append_nil] at hperm
  rw [hfiles, filesDone, filesDone]
  exact if_congr (exists_congr fun p => and_congr hperm.mem_iff Iff.rfl) rfl rfl

/-- **A pool at its start is sound.** -/
theorem Pool.sound_start {shares : List (List Path)} (hshares : shares.flatten.Perm paths) :
    (Pool.start h o shares).Sound h o paths where
  same := .refl _ h
  store := ⟨.new, rfl⟩
  workers := by
    intro w hw
    obtain ⟨ps, -, rfl⟩ := List.mem_map.mp hw
    exact ⟨Session.ready_withStore o h.searchPath, trivial⟩
  entered := by
    refine ⟨[], rfl, ?_⟩
    have hall : (Pool.start h o shares).workers.flatMap (Worker.owed h o)
        = entriesFor h o shares.flatten := by
      rw [Pool.start, List.flatMap_map, entriesFor, ← List.flatMap_id, List.flatMap_assoc]
      rfl
    rw [List.nil_append, hall]
    exact hshares.flatMap_right _
  written := by
    refine ⟨[], ?_, fun v => ?_⟩
    · rw [List.nil_append, Pool.start, List.flatMap_map]
      show (shares.flatMap id).Perm paths
      rwa [List.flatMap_id]
    · rw [filesDone, if_neg]
      · rfl
      · rintro ⟨p, hp, -⟩
        cases hp

/-! ## 2. One document after the other -/

theorem Pool.run_append (pool : Pool) (a b : List Nat) : pool.run (a ++ b) = (pool.run a).run b :=
  List.foldl_append

/-- A worker alone that finds nothing new in the store takes its turn. -/
theorem Pool.run_alone {w : Worker} (hw : w.seeStore store = w) (rest : List Nat) :
    (Pool.mk g st store [w]).run (0 :: rest)
      = (Pool.mk (w.step g st).1 (w.step g st).2.1 ((w.step g st).2.2.session.store.getD store)
          [(w.step g st).2.2]).run rest := by
  have hstep : (Pool.mk g st store [w]).step 0
      = ⟨(w.step g st).1, (w.step g st).2.1, (w.step g st).2.2.session.store.getD store,
          [(w.step g st).2.2]⟩ := by
    rw [Pool.step]
    dsimp only [List.getElem?_cons_zero]
    rw [hw]
    rfl
  rw [Pool.run, List.foldl_cons, hstep, Pool.run]

/-- A worker alone takes a turn in which its session does not run. -/
theorem Pool.run_alone_same {phase : Phase} {queue : List Path} {w' : Worker}
    (hs : Registry.seeStore s store = s)
    (hstep : Worker.step g st ⟨s, phase, queue⟩ = (g', st', w')) (hw' : w'.session = s)
    (rest : List Nat) : (Pool.mk g st store [⟨s, phase, queue⟩]).run (0 :: rest)
      = (Pool.mk g' st' store [w']).run rest := by
  have hsee : Worker.seeStore ⟨s, phase, queue⟩ store = ⟨s, phase, queue⟩ := by
    rw [Worker.seeStore, hs]
  rw [Pool.run_alone hsee, hstep]
  dsimp only
  rw [hw', Registry.getD_store_of_seeStore hs]

/-- A worker alone makes its entries. -/
theorem run_entries (hs : Registry.seeStore s store = s) (st : Stats) (es : List Entry)
    (ps : List Path) :
    (Pool.mk g st store [⟨s, .entering es, ps⟩]).run (List.replicate es.length 0)
      = ⟨g, es.foldl Stats.enter st, store, [⟨s, .entering [], ps⟩]⟩ := by
  induction es generalizing st with
  | nil => rfl
  | cons e es ih =>
    rw [List.length_cons, List.replicate_succ, Pool.run_alone_same hs (Worker.step_entry e es) rfl,
      List.foldl_cons]
    exact ih _

/-- **A worker alone does with a document what is done with one document**, and enters what came of
it.  Its session finds nothing new in the store, before and after. -/
theorem run_document (hready : s.Ready o) (hs : Registry.seeStore s store = s) (g : Host)
    (st : Stats) (p : Path) (ps : List Path) :
    ∃ schedule store', (Pool.mk g st store [⟨s, .entering [], p :: ps⟩]).run schedule
        = ⟨(processFile g s p).1, st.add (processFile g s p).2.2, store',
            [⟨(processFile g s p).2.1, .entering [], ps⟩]⟩ ∧
      Registry.seeStore (processFile g s p).2.1 store' = (processFile g s p).2.1 := by
  -- it is enough to come to where the entries are made
  suffices h : ∃ front store', (Pool.mk g st store [⟨s, .entering [], p :: ps⟩]).run front
        = ⟨(processFile g s p).1, st, store',
            [⟨(processFile g s p).2.1, .entering (entries (processFile g s p).2.2), ps⟩]⟩ ∧
      Registry.seeStore (processFile g s p).2.1 store' = (processFile g s p).2.1 by
    obtain ⟨front, store', hfront, hs'⟩ := h
    refine ⟨front ++ List.replicate (entries (processFile g s p).2.2).length 0, store', ?_, hs'⟩
    rw [Pool.run_append, hfront, run_entries hs', foldl_enter_entries]
  rw [processFile_eq]
  have hnext := @Worker.step_next _ _ g st s ps p
  cases hdoc : (g.read? p).bind Utf8.decode? with
  | none =>
    rw [hdoc] at hnext
    exact ⟨[0], store, Pool.run_alone_same hs hnext rfl [], hs⟩
  | some doc =>
    rw [hdoc] at hnext
    have hsee : Worker.seeStore ⟨s, .loaded p doc, ps⟩ store = ⟨s, .loaded p doc, ps⟩ := by
      rw [Worker.seeStore, hs]
    have hloaded := @Worker.step_loaded _ _ g st s ps p doc
    -- what the run leaves in the store is what its session has
    have hseen : Registry.seeStore (s.run g g.searchPath doc).2
        ((s.run g g.searchPath doc).2.store.getD store) = (s.run g g.searchPath doc).2 :=
      Registry.seeStore_self (hready.run g g.searchPath doc).store store
    dsimp only
    generalize s.run g g.searchPath doc = x at hloaded hseen ⊢
    obtain ⟨r, s'⟩ := x
    cases r with
    | error e =>
      refine ⟨[0, 0], _, ?_, hseen⟩
      rw [Pool.run_alone_same hs hnext rfl, Pool.run_alone hsee, hloaded]
      rfl
    | ok c =>
      refine ⟨[0, 0, 0], _, ?_, hseen⟩
      rw [Pool.run_alone_same hs hnext rfl, Pool.run_alone hsee, hloaded]
      exact Pool.run_alone_same hseen (Worker.step_colorized p doc c) rfl []

section

variable [LawfulLibrary] (hapart : Apart h paths)
  (htools : ∀ g, Host.SameBut (leadsTo h paths) h g → Registry.SameTools g h)

include hapart htools

/-- **Documents one after the other, with one session**, are a pool with one worker. -/
theorem processFiles_sound {ps : List Path} (hseen : Registry.seeStore s store = s)
    (hs : (Pool.mk g st store [⟨s, .entering [], ps⟩]).Sound h o paths) :
    ∃ store' s', (Pool.mk (processFiles g s st ps).1 (processFiles g s st ps).2 store'
      [⟨s', .entering [], []⟩]).Sound h o paths := by
  induction ps generalizing g st s store with
  | nil => exact ⟨store, s, hs⟩
  | cons p ps ih =>
    have hready := (hs.workers _ List.mem_cons_self).ready
    obtain ⟨schedule, store', hrun, hseen'⟩ := run_document hready hseen g st p ps
    have hnext := hs.run hapart htools schedule
    rw [hrun] at hnext
    exact ih hseen' hnext

/-- **With a new session for each document** it is one too, since a new session is as ready as a used
one. -/
theorem processEach_sound {ps : List Path}
    (hs : (Pool.mk g st store [⟨s, .entering [], ps⟩]).Sound h o paths) :
    ∃ store' s', (Pool.mk (processEach g o st ps).1 (processEach g o st ps).2 store'
      [⟨s', .entering [], []⟩]).Sound h o paths := by
  induction ps generalizing g st s store with
  | nil => exact ⟨store, s, hs⟩
  | cons p ps ih =>
    have hready := Session.ready_create o g.searchPath
    have hnew : (Pool.mk g st store
        [⟨.create o g.searchPath, .entering [], p :: ps⟩]).Sound h o paths := by
      refine ⟨hs.same, hs.store, fun w hw => ?_, hs.entered, hs.written⟩
      rw [List.mem_singleton.mp hw]
      exact ⟨hready, trivial⟩
    obtain ⟨schedule, store', hrun, -⟩ := run_document hready rfl g st p ps
    have hnext := hnew.run hapart htools schedule
    rw [hrun] at hnext
    exact ih hnext

end

/-! ## 3. Schedules that come to an end -/

/-- How many turns a worker needs at most. -/
def Worker.left (w : Worker) : Nat :=
  (match w.phase with
    | .entering es => es.length
    | .loaded _ _ => 8
    | .colorized _ _ _ => 7) + 9 * w.queue.length

/-- **Every turn of a worker that is not done brings it nearer to its end.** -/
theorem Worker.left_step {w : Worker} (hw : w.isDone = false) : (w.step g st).2.2.left < w.left := by
  obtain ⟨s, phase, ps⟩ := w
  cases phase with
  | loaded p doc =>
    rw [step_loaded]
    generalize s.run g g.searchPath doc = x
    obtain ⟨r, s'⟩ := x
    cases r with
    | error e =>
      have := length_entries_le (.error (.colorize p e))
      simp only [left]
      omega
    | ok c =>
      simp only [left]
      omega
  | colorized p doc c =>
    rw [step_colorized]
    have := length_entries_le (writeBack g p doc c).2
    simp only [left]
    omega
  | entering es =>
    cases es with
    | cons e es =>
      rw [step_entry]
      simp only [left, List.length_cons]
      omega
    | nil =>
      cases ps with
      | nil => cases hw
      | cons p ps =>
        rw [step_next]
        cases (g.read? p).bind Utf8.decode? with
        | none =>
          have := length_entries_le (.error (.io p))
          simp only [left, List.length_cons]
          omega
        | some doc =>
          simp only [left, List.length_cons, List.length_nil]
          omega

/-- **Every pool comes to its end**, if the right workers have their turns. -/
theorem exists_isDone (pool : Pool) : ∃ schedule, (pool.run schedule).isDone = true := by
  induction hn : (pool.workers.map Worker.left).sum using Nat.strongRecOn generalizing pool with
  | ind n ih =>
    cases hdone : pool.isDone with
    | true => exact ⟨[], hdone⟩
    | false =>
      obtain ⟨w, hw, hleft⟩ := List.all_eq_false.mp hdone
      obtain ⟨i, hi, rfl⟩ := List.mem_iff_getElem.mp hw
      let w := pool.workers[i].seeStore pool.store
      have hworkers : (pool.step i).workers
          = pool.workers.set i (w.step pool.host pool.stats).2.2 := by
        rw [Pool.step, List.getElem?_eq_getElem hi]
      have hless : ((pool.step i).workers.map Worker.left).sum < n := by
        have hset := ((List.set_perm_cons_eraseIdx hi
          (w.step pool.host pool.stats).2.2).map Worker.left).sum_nat
        have hget := ((List.getElem_cons_eraseIdx_perm hi).map Worker.left).sum_nat
        have hlt : (w.step pool.host pool.stats).2.2.left < pool.workers[i].left :=
          Worker.left_step (Bool.eq_false_iff.mpr hleft)
        rw [hworkers]
        simp only [List.map_cons, List.sum_cons] at hset hget ⊢
        omega
      obtain ⟨schedule, hend⟩ := ih _ hless (pool.step i) rfl
      exact ⟨i :: schedule, hend⟩

/-! ## 4. Any schedule -/

/-- **The schedule does not show**, with a lawful library and whatever programs do.  Let documents be
shared out among workers in any way, and let the workers take their turns in any order.  However far
they have come, they can go on until all is done.  When all is done, the account and the files are
those of colorizing one document after the other, each with a session of its own, and those of doing so
with a single session.  And the account is what each document comes to alone, on the machine as it was
at the start.

No two paths are the same path or lead to one place; and tools answer alike as long as nothing but
the documents changes. -/
theorem schedule_independent [LawfulLibrary] {shares : List (List Path)}
    (hdiff : paths.Pairwise fun p q => p.same q = false) (hapart : Apart h paths)
    (htools : ∀ g, Host.SameBut (leadsTo h paths) h g → Registry.SameTools g h)
    (hshares : shares.flatten.Perm paths) (schedule : List Nat) :
    (∃ more, ((Pool.start h o shares).run (schedule ++ more)).isDone = true) ∧
      (((Pool.start h o shares).run schedule).isDone = true →
        let pool := (Pool.start h o shares).run schedule
        let each := processEach h o {} paths
        let inTurn := processFiles h (.withStore o h.searchPath Highlight.Library.newStore) {} paths
        pool.stats.sorted = each.2.sorted ∧ pool.stats.sorted = inTurn.2.sorted ∧
          pool.stats.sorted = (account h o paths).sorted ∧
          ∀ v, pool.host.files.bytes? v = each.1.files.bytes? v ∧
            pool.host.files.bytes? v = inTurn.1.files.bytes? v) := by
  constructor
  · obtain ⟨more, hmore⟩ := exists_isDone ((Pool.start h o shares).run schedule)
    exact ⟨more, by rw [Pool.run_append]; exact hmore⟩
  · intro hdone
    have hs : ((Pool.start h o shares).run schedule).Sound h o paths :=
      (Pool.sound_start hshares).run hapart htools schedule
    have hone : (Pool.start h o [paths]).Sound h o paths :=
      Pool.sound_start (by rw [List.flatten_singleton])
    obtain ⟨_, _, heach⟩ := processEach_sound hapart htools hone
    obtain ⟨_, _, hturn⟩ := processFiles_sound hapart htools rfl hone
    have hstats := hs.stats_of_isDone hdone hdiff
    refine ⟨hstats.trans (heach.stats_of_isDone rfl hdiff).symm,
      hstats.trans (hturn.stats_of_isDone rfl hdiff).symm, hstats, fun v => ?_⟩
    have hfiles := hs.files_of_isDone hdone v
    exact ⟨hfiles.trans (heach.files_of_isDone rfl v).symm,
      hfiles.trans (hturn.files_of_isDone rfl v).symm⟩

end

/-- **Documents found by their names** do not change what tools answer. -/
theorem sameTools_of_documents [Programs] {h : Host} {paths : List Path}
    (hdocs : ∀ v, leadsTo h paths v → isDocumentAt v = true) :
    ∀ g, Host.SameBut (leadsTo h paths) h g → Registry.SameTools g h := by
  intro g hg
  have hsame : SameButDocuments g h := by
    refine ⟨hg.cwd.symm, hg.searchPath.symm, fun u => (hg.dirs u).symm, fun u hu => ?_⟩
    refine (hg.others u fun hlead => ?_).symm
    rw [hdocs u hlead] at hu
    cases hu
  exact hsame.sameTools

/-- Three documents below `site`, one of which is not well-formed. -/
def threeDocuments : List Path :=
  [⟨"site/index.html"⟩, ⟨"site/posts/bad.htm"⟩, ⟨"site/posts/feed.XML"⟩]

/-- Two workers take turns; the first has two of the documents. -/
theorem schedule_independent_shelf :
    let pool := (Pool.start shelf {} [[⟨"site/posts/feed.XML"⟩, ⟨"site/posts/bad.htm"⟩],
      [⟨"site/index.html"⟩]]).run ((List.range 30).map (· % 2))
    pool.isDone = true ∧
      pool.stats.sorted = (processEach shelf {} {} threeDocuments).2.sorted ∧
      ∀ v, pool.host.files.bytes? v = (processEach shelf {} {} threeDocuments).1.files.bytes? v := by
  intro pool
  have hplaces : threeDocuments.map shelf.place?
      = [some ["site", "index.html"], some ["site", "posts", "bad.htm"],
        some ["site", "posts", "feed.XML"]] := by decide +kernel
  have hlead : ∀ p ∈ threeDocuments, ∀ v, shelf.place? p = some v →
      some v ∈ threeDocuments.map shelf.place? := fun p hp v hv => List.mem_map.mpr ⟨p, hp, hv⟩
  have hdocs : ∀ v, leadsTo shelf threeDocuments v → isDocumentAt v = true := by
    rintro v ⟨p, hp, hv⟩
    have hmem := hlead p hp v hv
    rw [hplaces] at hmem
    simp only [List.mem_cons, Option.some.injEq, List.not_mem_nil, or_false] at hmem
    rcases hmem with rfl | rfl | rfl <;> decide +kernel
  have hapart : Apart shelf threeDocuments := by
    have hnodup : (threeDocuments.map shelf.place?).Nodup := by rw [hplaces]; decide
    exact (List.pairwise_map.mp hnodup).imp fun hne v hp hq => hne (hp.trans hq.symm)
  have hdone : pool.isDone = true := by decide +kernel
  obtain ⟨heach, -, -, hfiles⟩ := (schedule_independent (o := {})
    (by decide +kernel) hapart (sameTools_of_documents hdocs) (by decide +kernel)
    ((List.range 30).map (· % 2))).2 hdone
  exact ⟨hdone, heach, fun v => (hfiles v).1⟩

end CodeTint.Batch
