/-
# A session starts every run anew

A session keeps its registry from run to run.  What a run can see of earlier ones is the backend that
works in process, and, if the store is shared, what others have done to the store; all else is made
anew.  So if the library is lawful, **a run of a session gives what colorizing a document with nothing
kept gives** (`Session.run_eq`), on every machine that answers the calls of tools alike.  By induction
this goes for every history of runs, with tools and the search path changed between them
(`Session.reuse_invisible`).

Registries are compared by any relation between their backends that questions keep
(`BuiltinBackend.Interchangeable`).  With the relation of being the same, nothing is asked of the
library, and a session that is new runs like any other new one (`Session.run_new`).
-/
import CodeTint.Proofs.Document.Engines
import CodeTint.Proofs.Registry
import CodeTint.Proofs.Tool.Invoke
import CodeTint.Session
import CodeTint.Tool.Shell

namespace CodeTint

/-! ## 1. Backends that answer alike -/

/-- **Whether two machines answer the calls of tools alike.** -/
def Registry.SameTools [Programs] (h h' : Host) : Prop :=
  ∀ call : Invocation, (∃ t : Tool, call.executable = t.executable) → h.invoke call = h'.invoke call

theorem Registry.sameTools_refl [Programs] (h : Host) : SameTools h h := fun _ _ => rfl

section

variable [Highlight.Library]

/-- **Backends that are related answer alike**, and every question leaves them related. -/
structure BuiltinBackend.Interchangeable (R : BuiltinBackend → BuiltinBackend → Prop) : Prop where
  knows {b b'} (h : R b b') (language : String) : b.knows language = b'.knows language
  sought {b b'} (h : R b b') (language : String) : R (b.sought language) (b'.sought language)
  read {b b'} (h : R b b') (language : String) (source : List Char) :
    (b.read language source).1 = (b'.read language source).1 ∧
      R (b.read language source).2 (b'.read language source).2

section

variable {R : BuiltinBackend → BuiltinBackend → Prop}

theorem BuiltinBackend.Interchangeable.colorize (hR : Interchangeable R) {b b' : BuiltinBackend}
    (h : R b b') (source : List Char) (language : String) :
    (b.colorize source language).1 = (b'.colorize source language).1 ∧
      R (b.colorize source language).2 (b'.colorize source language).2 := by
  obtain ⟨hread, hafter⟩ := hR.read (hR.sought h language) language source
  rw [colorize_fst, colorize_fst, colorize_snd, colorize_snd, hR.knows h, hread]
  refine ⟨rfl, ?_⟩
  split
  · exact hafter
  · exact hR.sought h language

/-- A backend is interchangeable with itself. -/
theorem BuiltinBackend.interchangeable_same :
    Interchangeable fun b b' : BuiltinBackend => b = b' ∧ b.Reached where
  knows h language := by rw [h.1]
  sought h language := ⟨by rw [h.1], h.2.sought language⟩
  read h language source := ⟨by rw [h.1], by rw [h.1], h.2.read language source⟩

/-- **With a lawful library all backends that there can be are interchangeable.** -/
theorem BuiltinBackend.interchangeable_reached [LawfulLibrary] :
    Interchangeable fun b b' : BuiltinBackend => b.Reached ∧ b'.Reached where
  knows h language := by rw [h.1.knows_eq, h.2.knows_eq]
  sought h language := ⟨h.1.sought language, h.2.sought language⟩
  read h language source :=
    ⟨by rw [LawfulLibrary.read_eq h.1, LawfulLibrary.read_eq h.2], h.1.read language source,
      h.2.read language source⟩

/-- Two backends are the same tool, or two that work in process and are related. -/
inductive Backend.Alike (R : BuiltinBackend → BuiltinBackend → Prop) : Backend → Backend → Prop
  | builtin {b b' : BuiltinBackend} (h : R b b') : Alike R (.builtin b) (.builtin b')
  | external (b : ToolBackend) : Alike R (.external b) (.external b)

theorem Backend.Alike.supports (hR : BuiltinBackend.Interchangeable R) {b b' : Backend}
    (h : Alike R b b') (language : String) :
    (b.supports language).1 = (b'.supports language).1 ∧
      Alike R (b.supports language).2 (b'.supports language).2 := by
  cases h with
  | builtin h => exact ⟨hR.knows h language, .builtin (hR.sought h language)⟩
  | external b => exact ⟨rfl, .external b⟩

/-! ## 2. Registries that answer alike -/

/-- **Two registries answer alike**: they have the given options and the same search path and tools,
their backends that work in process, made or not, are related, and each has the store that is
shared. -/
structure Registry.Alike (o : Options) (R : BuiltinBackend → BuiltinBackend → Prop)
    (r r' : Registry) : Prop where
  options : r.options = o
  options' : r'.options = o
  searchPath : r.searchPath = r'.searchPath
  pygmentize : r.pygmentize = r'.pygmentize
  highlight : r.highlight = r'.highlight
  builtin : R r.builtinBackend r'.builtinBackend
  store : r.UsesStore
  store' : r'.UsesStore

theorem Backend.Alike.colorize [Programs] {h h' : Host} (ht : Registry.SameTools h h')
    (hR : BuiltinBackend.Interchangeable R) {b b' : Backend} (hb : Alike R b b')
    (source : List Char) (language : String) :
    (b.colorize h source language).1 = (b'.colorize h' source language).1 ∧
      Alike R (b.colorize h source language).2 (b'.colorize h' source language).2 := by
  cases hb with
  | builtin hb =>
    obtain ⟨hanswer, hafter⟩ := hR.colorize hb source language
    exact ⟨hanswer, .builtin hafter⟩
  | external b =>
    refine ⟨?_, .external b⟩
    show b.colorize h source language = b.colorize h' source language
    rw [ToolBackend.colorize, ToolBackend.colorize, ht _ ⟨b.tool, rfl⟩]

namespace Registry

variable {o : Options} {r r' : Registry}

theorem Alike.colorizerFor (h : Alike o R r r') (language : String) :
    r.colorizerFor language = r'.colorizerFor language :=
  colorizerFor_congr (h.options.trans h.options'.symm) language

/-- They have backends for a colorizer that are alike, and stay alike when these are made. -/
theorem Alike.backend (h : Alike o R r r') (c : Colorizer) :
    Backend.Alike R (r.backend c).1 (r'.backend c).1 ∧
      Alike o R (r.backend c).2 (r'.backend c).2 := by
  cases c with
  | builtin =>
    exact ⟨.builtin h.builtin,
      h.options, h.options', h.searchPath, h.pygmentize, h.highlight, h.builtin, h.store, h.store'⟩
  | tool t =>
    have hfresh : r.freshBackend t = r'.freshBackend t := by
      rw [freshBackend, freshBackend, h.options, h.options', h.searchPath]
    have hkept : r.kept? t = r'.kept? t := by
      cases t
      · exact h.pygmentize
      · exact h.highlight
    rw [Registry.backend, Registry.backend, hfresh, hkept]
    refine ⟨.external _, ?_⟩
    cases t
    · exact ⟨h.options, h.options', h.searchPath, rfl, h.highlight, h.builtin, h.store, h.store'⟩
    · exact ⟨h.options, h.options', h.searchPath, h.pygmentize, rfl, h.builtin, h.store, h.store'⟩

theorem Alike.put (h : Alike o R r r') {b b' : Backend} (hb : Backend.Alike R b b') :
    Alike o R (r.put b) (r'.put b') := by
  cases hb with
  | builtin hb =>
    exact ⟨h.options, h.options', h.searchPath, h.pygmentize, h.highlight, hb, usesStore_put r _,
      usesStore_put r' _⟩
  | external b => exact h

/-- **Registries that are alike are engines that answer alike.** -/
theorem engine_agree [Programs] {h h' : Host} (ht : SameTools h h')
    (hR : BuiltinBackend.Interchangeable R) (o : Options) :
    Document.Engine.Agree (Alike o R) (engine h) (engine h') where
  recognizes := by
    intro language r r' hr
    show ((recognizes _).outcome r).1 = ((recognizes _).outcome r').1 ∧ _
    rw [engine, engine, outcome_recognizes, outcome_recognizes, hr.colorizerFor]
    cases r'.colorizerFor (String.ofList language) with
    | error e => exact ⟨rfl, hr⟩
    | ok c =>
      obtain ⟨hb, halike⟩ := hr.backend c
      obtain ⟨hanswer, hafter⟩ := hb.supports hR (String.ofList language)
      exact ⟨congrArg Except.ok hanswer, halike.put hafter⟩
  colorize := by
    intro source language r r' hr
    show ((colorize h _ _).outcome r).1 = ((colorize h' _ _).outcome r').1 ∧ _
    rw [engine, engine, outcome_colorize, outcome_colorize, hr.colorizerFor]
    cases r'.colorizerFor (String.ofList language) with
    | error e => exact ⟨rfl, hr⟩
    | ok c =>
      obtain ⟨hb, halike⟩ := hr.backend c
      obtain ⟨hanswer, hafter⟩ := hb.colorize ht hR source (String.ofList language)
      exact ⟨hanswer, halike.put hafter⟩

end Registry

end

/-! ## 3. One run -/

namespace Session

variable {o : Options} {s s' : Session}

/-- **A session for some options, between two runs.** -/
structure Ready (o : Options) (s : Session) : Prop where
  options : s.options = o
  reached : s.builtinBackend.Reached
  store : s.UsesStore

/-- A session is ready when it is made, whatever store it shares. -/
theorem ready_make (shared : Option SharedStore) (o : Options) (ambient : Option String) :
    (make (shared.map SharedStore.store) o ambient).Ready o :=
  ⟨rfl, Registry.reached_make shared o ambient, Registry.usesStore_make _ o ambient⟩

theorem ready_create (o : Options) (ambient : Option String) : (create o ambient).Ready o :=
  ready_make none o ambient

theorem ready_withStore (o : Options) (ambient : Option String) :
    (withStore o ambient Highlight.Library.newStore).Ready o :=
  ready_make (some .new) o ambient

/-- It still is when others have used the store. -/
theorem Ready.seeStore (hs : s.Ready o) (store : SharedStore) :
    Ready o (Registry.seeStore s store.store) :=
  ⟨(Registry.seeStore_options s _).trans hs.options, Registry.reached_seeStore hs.reached store,
    Registry.usesStore_seeStore hs.store _⟩

variable [Programs] {h g : Host}

/-- **Sessions for the same options run alike** if their backends that work in process are
interchangeable, and are alike again after that. -/
theorem run_agree {R : BuiltinBackend → BuiltinBackend → Prop}
    (hR : BuiltinBackend.Interchangeable R) (ht : Registry.SameTools g h) (hs : s.Ready o)
    (hs' : s'.Ready o) (hb : R s.builtinBackend s'.builtinBackend) (ambient : Option String)
    (doc : List Char) :
    (s.run g ambient doc).1 = (s'.run h ambient doc).1 ∧
      Registry.Alike o R (s.run g ambient doc).2 (s'.run h ambient doc).2 := by
  have halike : Registry.Alike o R (s.startRun ambient) (s'.startRun ambient) :=
    ⟨hs.options, hs'.options, by rw [Registry.startRun, Registry.startRun, hs.options, hs'.options],
      rfl, rfl, hb, hs.store, hs'.store⟩
  rw [run, run, hs.options, hs'.options]
  exact Document.colorize_agree (Registry.engine_agree ht hR o) o doc _ _ halike

/-- **A run leaves a session ready for the next**, whether it went well or not. -/
theorem Ready.run (hs : s.Ready o) (g : Host) (ambient : Option String) (doc : List Char) :
    (s.run g ambient doc).2.Ready o := by
  obtain ⟨-, halike⟩ := run_agree BuiltinBackend.interchangeable_same (Registry.sameTools_refl g)
    hs hs ⟨rfl, hs.reached⟩ ambient doc
  exact ⟨halike.options, halike.builtin.2, halike.store⟩

/-- **A new session runs like any other new one**, with a store that it was given or with its own. -/
theorem run_new (host : Host) (o : Options) (made ambient : Option String) (doc : List Char) :
    ((withStore o made Highlight.Library.newStore).run host ambient doc).1
      = ((create o ambient).run host ambient doc).1 := by
  have hs := ready_withStore o made
  have hsame : (withStore o made Highlight.Library.newStore).builtinBackend
      = (create o ambient).builtinBackend := rfl
  exact (run_agree BuiltinBackend.interchangeable_same (Registry.sameTools_refl host) hs
    (ready_create o ambient) ⟨hsame, hs.reached⟩ ambient doc).1

/-- **What went before a run does not show in it**, if the library is lawful. -/
theorem run_eq [LawfulLibrary] (ht : Registry.SameTools g h) (hs : s.Ready o)
    (ambient : Option String) (doc : List Char) :
    (s.run g ambient doc).1 = ((create o ambient).run h ambient doc).1 := by
  have hnew := ready_create o ambient
  exact (run_agree BuiltinBackend.interchangeable_reached ht hs hnew ⟨hs.reached, hnew.reached⟩
    ambient doc).1

/-! ## 4. Sessions that have run before -/

/-- **A run that was made**: the machine as it was then, the search path of the environment, the
document, and the store as others had left it. -/
structure Visit where
  host : Host
  environment : Option String
  doc : List Char
  store : SharedStore

/-- A session that makes a run.  If it shares its store, it finds it as others have left it. -/
def visit (s : Session) (v : Visit) : Except Error Document.Colorized × Session :=
  run v.host v.environment v.doc (s.seeStore v.store.store)

/-- A session after some runs, whether they went well or not. -/
def afterRuns (s : Session) (visits : List Visit) : Session :=
  visits.foldl (fun s v => (s.visit v).2) s

theorem Ready.visit (hs : s.Ready o) (v : Visit) : (s.visit v).2.Ready o :=
  (hs.seeStore v.store).run v.host v.environment v.doc

/-- **Runs leave a session ready**, each in turn. -/
theorem Ready.afterRuns (hs : s.Ready o) (visits : List Visit) : (s.afterRuns visits).Ready o := by
  induction visits generalizing s with
  | nil => exact hs
  | cons v visits ih => exact ih (hs.visit v)

/-- **What was run before does not show.**  Let the library be lawful.  A session that was made with
some options, with a shared store or without one, and has run on any documents, on whatever machines
and under whatever search paths, gives for the next document what a session gives that was just made
with these options, and what colorizing the document once gives.  It has the options that it was made
with, before that run and after it. -/
theorem reuse_invisible [LawfulLibrary] (shared shared' : Option SharedStore) (o : Options)
    (made made' : Option String) (visits : List Visit) (next : Visit) :
    let s := (make (shared.map SharedStore.store) o made).afterRuns visits
    let new := make (shared'.map SharedStore.store) o made'
    (s.visit next).1 = (new.run next.host next.environment next.doc).1 ∧
      (next.environment = next.host.searchPath →
        (s.visit next).1 = colorizeOnce next.host o next.doc) ∧
      s.options = o ∧ (s.visit next).2.options = o := by
  intro s new
  have hs : s.Ready o := (ready_make shared o made).afterRuns visits
  have htools := Registry.sameTools_refl next.host
  have hused := run_eq htools (hs.seeStore next.store) next.environment next.doc
  have hnew := run_eq htools (ready_make shared' o made') next.environment next.doc
  refine ⟨hused.trans hnew.symm, fun he => ?_, hs.options, (hs.visit next).options⟩
  rw [colorizeOnce, ← he]
  exact hused

end Session

end

namespace Session

/-- A machine with no tool on it. -/
def emptyDesk : Host := ⟨.dir [], [], none⟩

/-- A machine with a tool on its search path. -/
def toolDesk : Host :=
  ⟨.dir [("bin", .dir [("highlight",
    .file (Text.Utf8.encode "#!/bin/sh\nprintf b\n".toList) true)])], [], some "bin"⟩

/-- A document for the tool. -/
def note : List Char := "<pre><code class=\"language-k\">a</code></pre>".toList

/-- A session fails while the tool is missing.  Later it gives what a document gives that is colorized
once. -/
theorem reuse_invisible_toolDesk :
    let o : Options := { defaultColorizer := "simon_highlight" }
    let s := make (some Highlight.Library.newStore) o none
    let early : Visit := ⟨emptyDesk, none, note, .new⟩
    let next : Visit := ⟨toolDesk, some "bin", note, .new⟩
    (s.visit early).1.toOption = none ∧
      ((s.afterRuns [early]).visit next).1 = colorizeOnce toolDesk o note ∧
      ((s.afterRuns [early]).visit next).1.toOption.map Document.Colorized.html
        = some "<pre><code class=\"language-k\">b</code></pre>".toList := by
  intro o s early next
  obtain ⟨-, honce, -, -⟩ := reuse_invisible (some .new) none o none none [early] next
  have honce : ((s.afterRuns [early]).visit next).1 = colorizeOnce toolDesk o note := honce rfl
  refine ⟨by decide +kernel, honce, ?_⟩
  rw [honce]
  decide +kernel

end Session

end CodeTint
