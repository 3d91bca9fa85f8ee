/-
# A job for a directory

A job for a directory brings the tree to where it is colorized, lists the documents there, and
colorizes one after the other.  This file says what all of it leaves on the machine
(`directory_job`): every file of the input is below the root of the job, **the documents colorized as
each would be alone, all else as it was**.

Three things could make one file depend on another, and none does.

* **Copying**: the copies are made from files that are still what they were (`Host.copyTree_spec`).
* **The session**: what went before a run does not show in it, if the library is lawful
  (`Session.run_eq`).
* **The tools**: their files do not have the names of documents, so a document that is written is no
  tool's (`SameButDocuments`).
-/
import CodeTint.Proofs.Batch.SingleFile
import CodeTint.Proofs.Host.Copy
import CodeTint.Proofs.Session

namespace CodeTint.Batch

open CodeTint.Text

/-! ## 1. Documents by their names -/

/-- **Whether a place has a document's name.** -/
def isDocumentAt (place : Location) : Bool :=
  match place.getLast? with
  | some name => isDocument ⟨name⟩
  | none => false

/-- The name of a path's entry decides whether it is a document's. -/
theorem isDocument_congr {p q : Path} (h : p.fileName? = q.fileName?) :
    isDocument p = isDocument q := by
  rw [isDocument, isDocument, Path.extension?, Path.extension?, h]

theorem isDocument_of_fileName? {p : Path} {name : String} (hn : isEntryName name = true)
    (h : p.fileName? = some name) : isDocument p = isDocument ⟨name⟩ := by
  refine isDocument_congr ?_
  rw [h, Path.fileName?, Path.components_relative (Path.isAbsolute_name hn), Path.segments_name hn]
  · rw [List.filterMap_cons, Path.component?_of_isEntryName hn]
    rfl
  · rw [Path.segments_name hn, List.head?_cons, ne_eq, Option.some.injEq]
    rintro rfl
    cases hn

theorem isDocumentAt_append (t : Location) {r : Location} (hr : r ≠ []) :
    isDocumentAt (t ++ r) = isDocumentAt r := by
  rw [isDocumentAt, isDocumentAt, List.getLast?_append_of_ne_nil _ hr]

/-- **A path below another is a document's if its place has a document's name.** -/
theorem isDocument_below (p : Path) {r : Location} (hr : r ≠ [])
    (hn : ∀ s ∈ r, isEntryName s = true) : isDocument (Host.below p r) = isDocumentAt r := by
  obtain ⟨front, name, rfl⟩ := (List.eq_nil_or_concat' r).resolve_left hr
  have hname : (Host.below p (front ++ [name])).fileName? = some name := by
    rw [Path.fileName?, Host.components_below p hn, List.map_append, List.map_singleton,
      ← List.append_assoc, List.getLast?_append, List.getLast?_singleton]
    rfl
  rw [isDocument_of_fileName? (hn name (by simp)) hname, isDocumentAt, List.getLast?_append,
    List.getLast?_singleton]
  rfl

/-- **The documents below a path** are listed once each. -/
theorem documentsBelow_spec {h : Host} {p : Path} {t : Location}
    (hd : h.files.isDistinct = true) (hp : h.place? p = some t) (ht : h.files.bytes? t = none)
    (hn : ∀ r, (h.files.bytes? (t ++ r)).isSome = true → ∀ s ∈ r, isEntryName s = true) :
    ∃ docs : List Location, docs.Nodup ∧
      (∀ r, r ∈ docs ↔ (h.files.bytes? (t ++ r)).isSome = true ∧ isDocumentAt r = true) ∧
      documentsBelow h p = docs.map (Host.below p) := by
  obtain ⟨names, hnodup, hmem, hfiles⟩ := Host.filesBelow_spec hd hp ht
  refine ⟨(names.filter isDocumentAt).mergeSort fun a b => (Host.below p a).le (Host.below p b),
    (List.mergeSort_perm _ _).nodup_iff.mpr (hnodup.filter _), fun r => ?_, ?_⟩
  · rw [List.mem_mergeSort, List.mem_filter, hmem]
  · have hfilter : (names.map (Host.below p)).filter isDocument
        = (names.filter isDocumentAt).map (Host.below p) := by
      rw [List.filter_map]
      refine congrArg _ (List.filter_congr fun r hr => ?_)
      have hfile := (hmem r).mp hr
      refine isDocument_below p ?_ (hn r hfile)
      rintro rfl
      rw [List.append_nil, ht] at hfile
      cases hfile
    rw [documentsBelow, hfiles, hfilter]
    exact (List.map_mergeSort (f := Host.below p) (s := Path.le) fun _ _ _ _ => rfl).symm

/-! ## 2. Machines that differ in documents only -/

/-- **Two machines differ in nothing but what is written in files with the names of documents.** -/
structure SameButDocuments (h h' : Host) : Prop where
  cwd : h.cwd = h'.cwd
  searchPath : h.searchPath = h'.searchPath
  dirs : ∀ u, h.files.kindAt? u = some .dir ↔ h'.files.kindAt? u = some .dir
  others : ∀ u, isDocumentAt u = false → h.files.kindAt? u = h'.files.kindAt? u

namespace SameButDocuments

variable {h h' h'' : Host}

theorem refl (h : Host) : SameButDocuments h h := ⟨rfl, rfl, fun _ => Iff.rfl, fun _ _ => rfl⟩

theorem trans (h₁ : SameButDocuments h h') (h₂ : SameButDocuments h' h'') :
    SameButDocuments h h'' :=
  ⟨h₁.cwd.trans h₂.cwd, h₁.searchPath.trans h₂.searchPath,
    fun u => (h₁.dirs u).trans (h₂.dirs u), fun u hu => (h₁.others u hu).trans (h₂.others u hu)⟩

/-- On both a path leads to the same place. -/
theorem place?_eq (hs : SameButDocuments h h') (p : Path) : h.place? p = h'.place? p :=
  Host.place?_congr hs.cwd hs.searchPath hs.dirs p

/-- A file whose name is no document's is the same. -/
theorem seesAlike (hs : SameButDocuments h h') {name : String}
    (hdoc : isDocument ⟨name⟩ = false) : h.SeesAlike name h' := by
  have hkind : ∀ (p : Path) t, p.fileName? = some name → h'.place? p = some t →
      h.files.kindAt? t = h'.files.kindAt? t := by
    intro p t hname ht
    refine hs.others t ?_
    have hlast : p.components.getLast? = some (.name name) := by
      rw [Path.fileName?] at hname
      split at hname
      · next s hl => cases hname; exact hl
      · cases hname
    obtain ⟨front, hfront⟩ := List.getLast?_eq_some_iff.mp hlast
    rw [Host.place?_eq_followed ht, hfront, Host.followed_append, isDocumentAt]
    show (match (Host.followed h'.cwd front ++ [name]).getLast? with
      | some name => isDocument ⟨name⟩
      | none => false) = false
    rw [List.getLast?_append, List.getLast?_singleton]
    exact hdoc
  refine ⟨hs.cwd, hs.searchPath, fun p hp => ?_, fun p hp => ?_⟩
  · rw [Bool.eq_iff_iff, Host.isExecutable_iff, Host.isExecutable_iff, hs.place?_eq]
    refine exists_congr fun t => exists_congr fun b => and_congr_right fun ht => ?_
    rw [hkind p t hp ht]
  · refine Option.ext fun b => ?_
    rw [Host.read?_eq_some, Host.read?_eq_some, hs.place?_eq]
    refine exists_congr fun t => exists_congr fun x => and_congr_right fun ht => ?_
    rw [hkind p t hp ht]

/-- **They answer the calls of tools alike.** -/
theorem sameTools [Programs] (hs : SameButDocuments h h') : Registry.SameTools h h' := by
  rintro call ⟨t, ht⟩
  refine Host.invoke_congr ?_ ?_ (hs.seesAlike ?_)
  all_goals
    rw [ht]
    cases t <;> decide

end SameButDocuments

theorem sameButDocuments_iff {h h' : Host} :
    SameButDocuments h h' ↔ h.SameBut (fun u => isDocumentAt u = true) h' := by
  constructor
  · intro hs
    exact ⟨hs.cwd, hs.searchPath, hs.dirs, fun u hu => hs.others u (Bool.eq_false_iff.mpr hu)⟩
  · intro hs
    exact ⟨hs.cwd, hs.searchPath, hs.dirs, fun u hu => hs.others u (Bool.eq_false_iff.mp hu)⟩

/-- Writing a document changes nothing else. -/
theorem sameButDocuments_of_write? {h h' : Host} {p : Path} {u : Location} {bytes : List UInt8}
    (hu : h.place? p = some u) (hdoc : isDocumentAt u = true) (hw : h.write? p bytes = some h') :
    SameButDocuments h h' :=
  sameButDocuments_iff.mpr (.of_write? hu hdoc hw)

/-- **A file that is there can be written.** -/
theorem exists_write? {h : Host} {p : Path} {u : Location} (hu : h.place? p = some u)
    {old : List UInt8} (hb : h.files.bytes? u = some old) (bytes : List UInt8) :
    ∃ h', h.write? p bytes = some h' := by
  refine Host.exists_write?_iff.mpr ⟨u, hu, fun hdir => ?_⟩
  rw [Node.bytes?_eq_none_of_dir hdir] at hb
  cases hb

/-! ## 3. What becomes of a document -/

/-- The failure that the outcome of a document is. -/
def failed : Except FileError FileOutcome → Option FileError
  | .ok _ => none
  | .error e => some e

/-- A file that is left as it is. -/
theorem setsFile_self {h : Host} {u : Location} {bytes : List UInt8}
    (hb : h.files.bytes? u = some bytes) : h.SetsFile h u bytes :=
  ⟨Host.KeepsDirs.refl h, hb, fun _ _ => rfl, fun hd => hd⟩

/-- The counts with one more document. -/
theorem Stats.add_spec (st : Stats) (r : Except FileError FileOutcome) :
    (st.add r).failures = st.failures ++ (failed r).toList ∧
      (st.add r).processed + (st.add r).failures.length
        = st.processed + st.failures.length + 1 := by
  cases r with
  | ok o =>
    refine ⟨(List.append_nil _).symm, ?_⟩
    show st.processed + 1 + st.failures.length = _
    omega
  | error e =>
    refine ⟨rfl, ?_⟩
    show st.processed + (st.failures ++ [e]).length = _
    rw [List.length_append, List.length_singleton]
    omega

section

variable [Highlight.Library] [Programs]

/-- **What the bytes of a document become**: the colorized text, and if they are not well-formed or
the run fails, what they were. -/
def finished (h : Host) (o : Options) (bytes : List UInt8) : List UInt8 :=
  match Utf8.decode? bytes with
  | none => bytes
  | some doc =>
    match colorizeOnce h o doc with
    | .ok c => Utf8.encode c.html
    | .error _ => bytes

/-- **The failure of a document**: it is not well-formed, or the run on it fails. -/
def failure? (h : Host) (o : Options) (p : Path) (bytes : List UInt8) : Option FileError :=
  match Utf8.decode? bytes with
  | none => some (.io p)
  | some doc =>
    match colorizeOnce h o doc with
    | .ok _ => none
    | .error e => some (.colorize p e)

section

variable {h : Host} {o : Options} {bytes : List UInt8} {doc : List Char}

theorem finished_of_error {e : Error} (hdoc : Utf8.decode? bytes = some doc)
    (he : colorizeOnce h o doc = .error e) : finished h o bytes = bytes := by
  simp only [finished, hdoc, he]

theorem finished_of_ok {c : Document.Colorized} (hdoc : Utf8.decode? bytes = some doc)
    (hc : colorizeOnce h o doc = .ok c) : finished h o bytes = Utf8.encode c.html := by
  simp only [finished, hdoc, hc]

theorem failure?_of_error {e : Error} (hdoc : Utf8.decode? bytes = some doc)
    (he : colorizeOnce h o doc = .error e) (p : Path) :
    failure? h o p bytes = some (.colorize p e) := by
  simp only [failure?, hdoc, he]

theorem failure?_of_ok {c : Document.Colorized} (hdoc : Utf8.decode? bytes = some doc)
    (hc : colorizeOnce h o doc = .ok c) (p : Path) : failure? h o p bytes = none := by
  simp only [failure?, hdoc, hc]

end

/-- **One document**, on a machine that differs from `h` in documents only: its file is set and nothing
else changes.  If the library is lawful the file is finished, and the document fails if it is to fail. -/
theorem processFile_spec {h g : Host} {o : Options} {s : Session} {p : Path} {u : Location}
    {bytes : List UInt8} (hg : SameButDocuments h g) (hs : s.Ready o) (hp : g.place? p = some u)
    (hdoc : isDocumentAt u = true) (hb : g.files.bytes? u = some bytes) :
    ∃ g' s' r new, processFile g s p = (g', s', r) ∧ s'.Ready o ∧ SameButDocuments h g' ∧
      g.SetsFile g' u new ∧
      (LawfulLibrary → new = finished h o bytes ∧ failed r = failure? h o p bytes) := by
  have hread : g.read? p = some bytes := by
    obtain ⟨x, hx⟩ := Node.bytes?_eq_some.mp hb
    exact Host.read?_eq_some.mpr ⟨u, x, hp, hx⟩
  rw [processFile, hread, Option.bind_some]
  cases hd : Utf8.decode? bytes with
  | none =>
    refine ⟨g, s, _, bytes, rfl, hs, hg, setsFile_self hb, fun _ => ?_⟩
    rw [finished, failure?, hd]
    exact ⟨rfl, rfl⟩
  | some doc =>
    have hback : SameButDocuments g h :=
      ⟨hg.cwd.symm, hg.searchPath.symm, fun v => (hg.dirs v).symm, fun v hv => (hg.others v hv).symm⟩
    have hready := hs.run g h.searchPath doc
    have halone : LawfulLibrary → colorizeOnce h o doc = (s.run g h.searchPath doc).1 :=
      fun _ => (Session.run_eq hback.sameTools hs h.searchPath doc).symm
    dsimp only
    rw [← hg.searchPath]
    generalize s.run g h.searchPath doc = x at hready halone
    obtain ⟨r, s'⟩ := x
    cases r with
    | error e =>
      exact ⟨g, s', _, bytes, rfl, hready, hg, setsFile_self hb, fun hlaw =>
        ⟨(finished_of_error hd (halone hlaw)).symm, (failure?_of_error hd (halone hlaw) p).symm⟩⟩
    | ok c =>
      have hlawful : LawfulLibrary → Utf8.encode c.html = finished h o bytes ∧
          none = failure? h o p bytes := fun hlaw =>
        ⟨(finished_of_ok hd (halone hlaw)).symm, (failure?_of_ok hd (halone hlaw) p).symm⟩
      dsimp only
      split
      · obtain ⟨g', hw⟩ := exists_write? hp hb (Utf8.encode c.html)
        obtain ⟨u', hu', hset⟩ := Host.write?_setsFile hw
        rw [hp] at hu'
        cases hu'
        rw [hw]
        exact ⟨g', s', _, _, rfl, hready, hg.trans (sameButDocuments_of_write? hp hdoc hw), hset,
          hlawful⟩
      · next hsame =>
        have hc : c.html = doc := by simpa using hsame
        refine ⟨g, s', _, Utf8.encode c.html, rfl, hready, hg, ?_, hlawful⟩
        rw [hc, Utf8.encode_of_decode? hd]
        exact setsFile_self hb

/-- **Documents one after the other**: each is counted once, and nothing else changes.  If the library
is lawful, each is finished as it would be alone, and the failures are theirs, in their order. -/
theorem processFiles_spec {h : Host} {o : Options} {p : Path} {t : Location} :
    ∀ {docs : List Location} {g : Host} {s : Session} (st : Stats), SameButDocuments h g →
      s.Ready o → docs.Nodup →
      (∀ r ∈ docs, g.place? (Host.below p r) = some (t ++ r) ∧ isDocumentAt (t ++ r) = true ∧
        (g.files.bytes? (t ++ r)).isSome = true) →
      ∃ g' st', processFiles g s st (docs.map (Host.below p)) = (g', st') ∧ g.KeepsDirs g' ∧
        (∀ v, (∀ r ∈ docs, v ≠ t ++ r) → g'.files.bytes? v = g.files.bytes? v) ∧
        st'.processed + st'.failures.length
          = st.processed + st.failures.length + docs.length ∧
        (LawfulLibrary →
          (∀ r ∈ docs, g'.files.bytes? (t ++ r) = (g.files.bytes? (t ++ r)).map (finished h o)) ∧
          st'.failures = st.failures ++ docs.filterMap (fun r =>
            (g.files.bytes? (t ++ r)).bind (failure? h o (Host.below p r)))) := by
  intro docs
  induction docs with
  | nil =>
    intro g s st _ _ _ _
    exact ⟨g, st, rfl, Host.KeepsDirs.refl g, fun _ _ => rfl, rfl,
      fun _ => ⟨fun r hr => absurd hr List.not_mem_nil, (List.append_nil _).symm⟩⟩
  | cons r docs ih =>
    intro g s st hg hs hnodup hdocs
    obtain ⟨hr, hnodup⟩ := List.nodup_cons.mp hnodup
    obtain ⟨hp, hdoc, hb⟩ := hdocs r List.mem_cons_self
    obtain ⟨bytes, hb⟩ := Option.isSome_iff_exists.mp hb
    obtain ⟨g₁, s₁, x, new, hfile, hs₁, hg₁, hset, hlawful⟩ := processFile_spec hg hs hp hdoc hb
    -- the documents to come are where they were, and what they were
    have haway : ∀ r' ∈ docs, t ++ r' ≠ t ++ r :=
      fun r' hr' he => hr (List.append_cancel_left he ▸ hr')
    have hsame : ∀ r' ∈ docs, g₁.files.bytes? (t ++ r') = g.files.bytes? (t ++ r') :=
      fun r' hr' => hset.others _ (haway r' hr')
    have hrest : ∀ r' ∈ docs, g₁.place? (Host.below p r') = some (t ++ r') ∧
        isDocumentAt (t ++ r') = true ∧ (g₁.files.bytes? (t ++ r')).isSome = true := by
      intro r' hr'
      obtain ⟨hp', hdoc', hb'⟩ := hdocs r' (List.mem_cons_of_mem _ hr')
      exact ⟨Host.place?_of_keepsDirs hset.toKeepsDirs hp', hdoc', by rw [hsame r' hr']; exact hb'⟩
    obtain ⟨g', st', hrun, hkeeps, hother, hcount, hlawful'⟩ := ih (st.add x) hg₁ hs₁ hnodup hrest
    obtain ⟨hadd, hone⟩ := st.add_spec x
    refine ⟨g', st', ?_, hset.toKeepsDirs.trans hkeeps, fun v hv => ?_, ?_, fun hlaw => ⟨?_, ?_⟩⟩
    · rw [List.map_cons, processFiles, hfile]
      exact hrun
    · rw [hother v fun r' hr' => hv r' (List.mem_cons_of_mem _ hr')]
      exact hset.others v (hv r List.mem_cons_self)
    · rw [hcount, hone, List.length_cons]
      omega
    · intro r' hr'
      rcases List.mem_cons.mp hr' with rfl | hr'
      · rw [hother _ fun r'' hr'' he => haway r'' hr'' he.symm, hset.there, hb, (hlawful hlaw).1]
        rfl
      · rw [(hlawful' hlaw).1 r' hr', hsame r' hr']
    · have hcongr : docs.filterMap (fun r => (g₁.files.bytes? (t ++ r)).bind
          (failure? h o (Host.below p r))) = docs.filterMap (fun r =>
          (g.files.bytes? (t ++ r)).bind (failure? h o (Host.below p r))) :=
        List.filterMap_congr fun r' hr' => by rw [hsame r' hr']
      rw [(hlawful' hlaw).2, hadd, hcongr, List.filterMap_cons, hb, Option.bind_some,
        ← (hlawful hlaw).2, List.append_assoc]
      cases failed x <;> rfl

end

/-! ## 4. The whole job -/

/-- **What a job for a directory prepares**: `source` is the place of its input, `root` that of its
target, which has the files of the input, and `docs` are the documents there. -/
structure Prepared (j : Job) (h h₁ : Host) (files : List Path) (source root : Location)
    (docs : List Location) : Prop where
  place : h₁.place? j.target = some root
  inside : j.output = none → j.target = j.input ∧ root = source
  outside : ∀ out, j.output = some out → j.target = out ∧
    root = Host.followed h.cwd out.components ∧
      ∀ v, ¬ root <+: v → h₁.files.bytes? v = h.files.bytes? v
  copied : ∀ r, h₁.files.bytes? (root ++ r) = h.files.bytes? (source ++ r)
  nodup : docs.Nodup
  listed : files = docs.map (Host.below j.target)
  documents : ∀ r, r ∈ docs ↔
    (h.files.bytes? (source ++ r)).isSome = true ∧ isDocumentAt r = true

/-- **Without an output** nothing is brought anywhere. -/
theorem prepare_inside {j : Job} {h h₁ : Host} {s : Location} {files : List Path}
    (htree : h.files.IsTree) (hs : h.place? j.input = some s)
    (hdir : h.files.kindAt? s = some .dir) (hisDir : h.isDir j.input = true)
    (hout : j.output = none) (hp : j.prepare h = (h₁, .ok files)) :
    ∃ docs, Prepared j h h₁ files s s docs := by
  have helse : j.elsewhere? = none := by rw [Job.elsewhere?, hout]
  have htarget : j.target = j.input := by rw [Job.target, helse]; rfl
  rw [Job.prepare, hisDir, if_pos rfl, helse] at hp
  cases hp
  obtain ⟨docs, hnodup, hmem, hdocs⟩ :=
    documentsBelow_spec htree.distinct hs (Node.bytes?_eq_none_of_dir hdir) fun r hr x hx =>
      htree.isEntryName_of_bytes? hr x (List.mem_append_right _ hx)
  refine ⟨docs, htarget.symm ▸ hs, fun _ => ⟨htarget, rfl⟩, fun out ho => ?_, fun _ => rfl,
    hnodup, hdocs.trans (by rw [htarget]), hmem⟩
  rw [hout] at ho
  cases ho

/-- **With an output that leads to where nothing is** the tree is brought there. -/
theorem prepare_outside {j : Job} {h h₁ : Host} {s : Location} {files : List Path} {out : Path}
    (htree : h.files.IsTree) (hs : h.place? j.input = some s)
    (hdir : h.files.kindAt? s = some .dir) (hisDir : h.isDir j.input = true)
    (hout : j.output = some out)
    (hfree : h.files.kindAt? (Host.followed h.cwd out.components) = none)
    (hp : j.prepare h = (h₁, .ok files)) :
    ∃ docs, Prepared j h h₁ files s (Host.followed h.cwd out.components) docs := by
  -- the output is not the input, for nothing is there
  have hother : out.same j.input = false := by
    refine Bool.eq_false_iff.mpr fun he => ?_
    rw [Path.same, beq_iff_eq] at he
    rw [he, ← Host.place?_eq_followed hs, hdir] at hfree
    cases hfree
  have helse : j.elsewhere? = some out := by
    rw [Job.elsewhere?, hout]
    simp [hother]
  have htarget : j.target = out := by rw [Job.target, helse]; rfl
  rw [Job.prepare, hisDir, if_pos rfl, helse] at hp
  dsimp only at hp
  split at hp
  · next h₂ hcopy =>
    cases hp
    obtain ⟨-, hd₁, hplace, hfiles, hothers⟩ :=
      Host.copyTree_spec htree hs hdir rfl hfree hcopy
    have hroot : h₁.files.bytes? (Host.followed h.cwd out.components) = none := by
      rw [← List.append_nil (Host.followed _ _), hfiles, List.append_nil,
        Node.bytes?_eq_none_of_dir hdir]
    obtain ⟨docs, hnodup, hmem, hdocs⟩ :=
      documentsBelow_spec hd₁ hplace hroot fun r hr x hx =>
        htree.isEntryName_of_bytes? (by rwa [← hfiles]) x (List.mem_append_right s hx)
    refine ⟨docs, htarget.symm ▸ hplace, fun ho => ?_, fun out' ho => ?_, hfiles, hnodup,
      hdocs.trans (by rw [htarget]), fun r => by rw [hmem, hfiles]⟩
    · rw [hout] at ho
      cases ho
    · rw [hout] at ho
      cases ho
      exact ⟨htarget, rfl, hothers⟩
  · cases hp

theorem prepare_directory {j : Job} {h h₁ : Host} {s : Location} {files : List Path}
    (htree : h.files.IsTree) (hs : h.place? j.input = some s)
    (hdir : h.files.kindAt? s = some .dir)
    (hout : ∀ out, j.output = some out →
      h.files.kindAt? (Host.followed h.cwd out.components) = none)
    (hp : j.prepare h = (h₁, .ok files)) :
    ∃ root docs, Prepared j h h₁ files s root docs := by
  have hisDir : h.isDir j.input = true := Host.isDir_of_place? hs hdir
  cases houtput : j.output with
  | none => exact ⟨s, prepare_inside htree hs hdir hisDir houtput hp⟩
  | some out => exact ⟨_, prepare_outside htree hs hdir hisDir houtput (hout out houtput) hp⟩

section

variable {j : Job} {h h₁ h₂ : Host} {files : List Path} {s root : Location} {docs : List Location}

/-- Each document is found under its path, with bytes in it. -/
theorem Prepared.found (hp : Prepared j h h₁ files s root docs) (htree : h.files.IsTree)
    {r : Location} (hr : r ∈ docs) : h₁.place? (Host.below j.target r) = some (root ++ r) ∧
      isDocumentAt (root ++ r) = true ∧ (h₁.files.bytes? (root ++ r)).isSome = true := by
  obtain ⟨hb, hdoc⟩ := (hp.documents r).mp hr
  have hne : r ≠ [] := by
    rintro rfl
    cases hdoc
  have hroot : (h₁.files.bytes? (root ++ r)).isSome = true := by rwa [hp.copied]
  obtain ⟨m, hm⟩ := Node.exists_of_bytes? hroot
  refine ⟨Host.place?_below hp.place hm fun x hx => ?_, ?_, hroot⟩
  · exact htree.isEntryName_of_bytes? hb x (List.mem_append_right _ hx)
  · rw [isDocumentAt_append root hne, hdoc]

/-- If the documents are finished and no other file changes, each file of the input is below the
root, finished if it is a document. -/
theorem Prepared.bytes?_root [Highlight.Library] [Programs]
    (hp : Prepared j h h₁ files s root docs) {g : Host} {o : Options}
    (hdone : ∀ r ∈ docs,
      h₂.files.bytes? (root ++ r) = (h₁.files.bytes? (root ++ r)).map (finished g o))
    (hother : ∀ v, (∀ r ∈ docs, v ≠ root ++ r) → h₂.files.bytes? v = h₁.files.bytes? v)
    (r : Location) : h₂.files.bytes? (root ++ r)
      = (h.files.bytes? (s ++ r)).map fun bytes =>
        if isDocumentAt r then finished g o bytes else bytes := by
  by_cases hr : r ∈ docs
  · rw [hdone r hr, hp.copied, ((hp.documents r).mp hr).2]
    rfl
  · rw [hother (root ++ r) fun r' hr' he => hr (List.append_cancel_left he ▸ hr'), hp.copied]
    cases hb : h.files.bytes? (s ++ r) with
    | none => rfl
    | some bytes =>
      have hdoc : isDocumentAt r = false :=
        Bool.eq_false_iff.mpr fun hd => hr ((hp.documents r).mpr ⟨by rw [hb]; rfl, hd⟩)
      rw [hdoc]
      rfl

/-- What is copied lies where nothing was, so no file of the input is below the root, and a file
that is not keeps its bytes. -/
theorem Prepared.bytes?_source (hp : Prepared j h h₁ files s root docs) {out : Path}
    (ho : j.output = some out)
    (hfree : h.files.kindAt? (Host.followed h.cwd out.components) = none)
    (hother : ∀ v, (∀ r ∈ docs, v ≠ root ++ r) → h₂.files.bytes? v = h₁.files.bytes? v)
    {v : Location} {bytes : List UInt8} (hb : h.files.bytes? v = some bytes) :
    h₂.files.bytes? v = some bytes := by
  obtain ⟨-, rfl, hkept⟩ := hp.outside out ho
  have haway : ¬ Host.followed h.cwd out.components <+: v := by
    rintro ⟨rest, rfl⟩
    rw [Node.bytes?_append_of_none hfree] at hb
    cases hb
  rw [hother v fun r _ he => haway (he ▸ List.prefix_append _ _), hkept v haway, hb]

end

/-- **What a job for a directory leaves**: `source` is the place of its input, `root` the place where
the documents are colorized, and `docs` are the documents there. -/
structure DirectoryDone [Highlight.Library] [Programs] (j : Job) (h h' : Host) (st : Stats)
    (source root : Location) (docs : List Location) : Prop where
  /-- Without an output the documents are colorized in the input, else in the output. -/
  target : h'.place? j.target = some root ∧
    match j.output with
    | none => j.target = j.input ∧ root = source
    | some out => j.target = out ∧ root = Host.followed h.cwd out.components
  /-- Every file of the input is below the root: a document finished, any other file as it was. -/
  files : ∀ r bytes, h.files.bytes? (source ++ r) = some bytes → h'.files.bytes? (root ++ r)
    = some (if isDocumentAt r then finished (j.prepare h).1 j.options bytes else bytes)
  /-- With an output the files of the input keep their bytes. -/
  kept : j.output ≠ none → ∀ r bytes, h.files.bytes? (source ++ r) = some bytes →
    h'.files.bytes? (source ++ r) = some bytes
  /-- There are no other files below the root. -/
  only : ∀ r, (h'.files.bytes? (root ++ r)).isSome = (h.files.bytes? (source ++ r)).isSome
  /-- The documents are the files below the root that have a document's name, once each. -/
  nodup : docs.Nodup
  documents : ∀ r, r ∈ docs ↔ (h'.files.bytes? (root ++ r)).isSome = true ∧ isDocumentAt r = true
  /-- The failures are those of the documents that fail. -/
  failures : st.failures.Perm (docs.filterMap fun r => (h.files.bytes? (source ++ r)).bind
    (failure? (j.prepare h).1 j.options (Host.below j.target r)))
  /-- Every document is counted once. -/
  counts : st.processed + st.failures.length = docs.length

/-- **What a job for a directory does**, with a lawful library and whatever programs do.  Let the files
of a machine be a tree, and let a job for a directory there end well that has no output, or one that
leads to where nothing is.  Then every file of the input is below the root of the job, the documents
finished and all else as it was, and the failures are the documents that are not well-formed or whose
run fails.

A document is finished as it is when it is colorized alone, on the machine as it is when the tree is
copied. -/
theorem directory_job [Highlight.Library] [Programs] [LawfulLibrary] {j : Job} {h h' : Host}
    {st : Stats} {s : Location}
    (htree : h.files.IsTree) (hs : h.place? j.input = some s)
    (hdir : h.files.kindAt? s = some .dir)
    (hout : ∀ out, j.output = some out →
      h.files.kindAt? (Host.followed h.cwd out.components) = none)
    (hrun : j.run h = (h', .ok st)) :
    ∃ root docs, DirectoryDone j h h' st s root docs := by
  rw [Job.run] at hrun
  split at hrun
  case isFalse => cases hrun
  case isTrue hexists =>
  generalize hprep : j.prepare h = x at hrun
  obtain ⟨h₁, r⟩ := x
  cases r with
  | error e => cases hrun
  | ok files =>
    obtain ⟨root, docs, hready⟩ := prepare_directory htree hs hdir hout hprep
    dsimp only at hrun ⊢
    obtain ⟨h₂, st₂, hfold, hkeeps, hother, hcount, hlawful⟩ :=
      processFiles_spec {} (SameButDocuments.refl h₁)
        (Session.ready_withStore j.options h₁.searchPath) hready.nodup
        fun r hr => hready.found htree hr
    obtain ⟨hdone, hfail⟩ := hlawful inferInstance
    rw [hready.listed, hfold] at hrun
    cases hrun
    have hbytes := hready.bytes?_root hdone hother
    have hsame : ∀ r, (h₂.files.bytes? (root ++ r)).isSome = (h.files.bytes? (s ++ r)).isSome :=
      fun r => by rw [hbytes, Option.isSome_map]
    have hperm : st₂.sorted.failures.Perm st₂.failures := List.mergeSort_perm _ _
    refine ⟨root, docs, ?_, fun r bytes hb => ?_, fun ho r bytes hb => ?_, hsame, hready.nodup,
      fun r => by rw [hsame, hready.documents], ?_, ?_⟩
    · refine ⟨Host.place?_of_keepsDirs hkeeps hready.place, ?_⟩
      split
      · next ho => exact hready.inside ho
      · next out ho => exact ⟨(hready.outside out ho).1, (hready.outside out ho).2.1⟩
    · rw [hbytes, hb, hprep]
      rfl
    · obtain ⟨out, ho⟩ := Option.ne_none_iff_exists'.mp ho
      exact hready.bytes?_source ho (hout out ho) hother hb
    · refine hperm.trans ?_
      rw [hfail, hprep]
      refine .of_eq ((List.nil_append _).trans (List.filterMap_congr fun r _ => ?_))
      rw [hready.copied]
    · rw [hperm.length_eq]
      exact hcount.trans (by simp)

/-- A machine with a tree of four files: a document, one that is not well-formed in a directory
further in, one with another ending in capitals, and a file that is no document. -/
def shelf : Host :=
  ⟨.dir [("site", .dir [("index.html", .file (Utf8.encode letter) false),
    ("posts", .dir [("bad.htm", .file [60, 255] false), ("feed.XML", .file (Utf8.encode letter) true)]),
    ("a.css", .file (Utf8.encode letter) false)])], [], none⟩

/-- A job that brings the tree to a directory further in. -/
def shelving : Job := ⟨⟨"site"⟩, some ⟨"./site/posts/../out/new"⟩, {}⟩

theorem directory_job_shelving :
    ∃ h' st docs, shelving.run shelf = (h', .ok st) ∧
      DirectoryDone shelving shelf h' st ["site"] ["site", "out", "new"] docs ∧
      h'.files.bytes? ["site", "out", "new", "index.html"]
        = some (Utf8.encode "<p>a<br>b</p>".toList) ∧
      h'.files.bytes? ["site", "out", "new", "posts", "bad.htm"] = some [60, 255] ∧
      h'.files.bytes? ["site", "out", "new", "posts", "feed.XML"]
        = some (Utf8.encode "<p>a<br>b</p>".toList) ∧
      h'.files.bytes? ["site", "out", "new", "a.css"] = some (Utf8.encode letter) ∧
      h'.files.bytes? ["site", "index.html"] = some (Utf8.encode letter) := by
  have hok : (shelving.prepare shelf).2.toOption.isSome = true := by decide +kernel
  have hexists : shelf.exists? shelving.input = true := by decide +kernel
  obtain ⟨h', st, hrun⟩ : ∃ h' st, shelving.run shelf = (h', .ok st) := by
    rw [Job.run, if_pos hexists]
    generalize shelving.prepare shelf = x at hok
    obtain ⟨h₁, r⟩ := x
    cases r with
    | error e => cases hok
    | ok files => exact ⟨_, _, rfl⟩
  obtain ⟨root, docs, hdone⟩ := directory_job (s := ["site"]) ⟨by decide +kernel, by decide +kernel⟩
    (by decide +kernel) (by decide +kernel)
    (fun out ho => by cases ho; decide +kernel) hrun
  obtain ⟨-, -, rfl⟩ := hdone.target
  have hroot : Host.followed shelf.cwd (Path.mk "./site/posts/../out/new").components
      = ["site", "out", "new"] := by decide +kernel
  rw [hroot] at hdone
  have hfile : ∀ r bytes, shelf.files.bytes? ("site" :: r) = some bytes →
      h'.files.bytes? ("site" :: "out" :: "new" :: r) = some (if isDocumentAt r then
        finished (shelving.prepare shelf).1 {} bytes else bytes) := hdone.files
  refine ⟨h', st, docs, hrun, hdone, ?_, ?_, ?_, ?_, ?_⟩
  · rw [hfile ["index.html"] (Utf8.encode letter) (by decide +kernel)]
    decide +kernel
  · rw [hfile ["posts", "bad.htm"] [60, 255] (by decide +kernel)]
    decide +kernel
  · rw [hfile ["posts", "feed.XML"] (Utf8.encode letter) (by decide +kernel)]
    decide +kernel
  · rw [hfile ["a.css"] (Utf8.encode letter) (by decide +kernel)]
    decide +kernel
  · exact hdone.kept (by decide) ["index.html"] _ (by decide +kernel)

end CodeTint.Batch
