/-
# A job with an output

A job for a directory with an output copies the tree there and colorizes the documents of the output.
Which ones those are is found by listing the output anew.  So **a document that the output had before,
and that no copy took the place of, is colorized and counted like the copies** (`IsStray`).

This file says what such a job does to each file of the machine (`OutputDone`): wherever input and
output lie, and whatever the output holds.  Then it proves that the job keeps to its copies exactly
if there are no strays (`keepsToCopies_iff`).  An input that lies inside of the output brings strays
of its own: what is deepest in it is nobody's copy (`exists_isStray`).
-/
import CodeTint.Proofs.Batch.Directory
import Mathlib.Data.Finset.Max

namespace CodeTint.Batch

open CodeTint.Text

/-! ## 1. Documents of the output -/

/-- A document of the input that is copied. -/
def IsOwn (h : Host) (s t r : Location) : Prop := h.IsSource s t r ∧ isDocumentAt r = true

/-- **A document of the output that is no copy**: it was there before, and no file of its name is
copied. -/
def IsStray (h : Host) (s t r : Location) : Prop :=
  (h.files.bytes? (t ++ r)).isSome = true ∧ isDocumentAt r = true ∧ ¬ h.IsSource s t r

/-- A list of all names for which something holds, each once. -/
structure IsListing (xs : List Location) (p : Location → Prop) : Prop where
  nodup : xs.Nodup
  mem : ∀ r, r ∈ xs ↔ p r

theorem IsListing.length_eq {xs ys : List Location} {p : Location → Prop} (hx : IsListing xs p)
    (hy : IsListing ys p) : xs.length = ys.length := by
  refine ((List.perm_ext_iff_of_nodup hx.nodup hy.nodup).mpr fun r => ?_).length_eq
  rw [hx.mem, hy.mem]

theorem ne_nil_of_isDocumentAt {r : Location} (h : isDocumentAt r = true) : r ≠ [] := by
  rintro rfl
  cases h

/-- **An output around the input has a stray**, if the input has a document: of all of those take one
with the most names.  Seen from the output it has more names still, so it is no copy. -/
theorem exists_isStray {h : Host} {t d r : Location} {own : List Location} (hd : d ≠ [])
    (hown : IsListing own (IsOwn h (t ++ d) t)) (hr : r ∈ own) : ∃ r, IsStray h (t ++ d) t r := by
  obtain ⟨r, hr, hmost⟩ :=
    own.toFinset.exists_max_image List.length ⟨r, List.mem_toFinset.mpr hr⟩
  obtain ⟨⟨hb, -⟩, hdoc⟩ := (hown.mem r).mp (List.mem_toFinset.mp hr)
  have hdoc' : isDocumentAt (d ++ r) = true := by
    rw [isDocumentAt_append d (ne_nil_of_isDocumentAt hdoc), hdoc]
  refine ⟨d ++ r, by rwa [← List.append_assoc], hdoc', fun hsource => ?_⟩
  have hle := hmost (d ++ r) (List.mem_toFinset.mpr ((hown.mem _).mpr ⟨hsource, hdoc'⟩))
  rw [List.length_append] at hle
  exact hd (List.length_eq_zero_iff.mp (by omega))

/-! ## 2. What a job with an output does -/

section

variable {j : Job} {h h₁ h' : Host} {out : Path} {s t : Location}

/-- **The copies are made**: nothing else is set, and if it goes well, the documents of the output
are up. -/
theorem prepare_output {r : Except FileError (List Path)} (htree : h.files.IsTree)
    (hs : h.place? j.input = some s) (hdir : h.files.kindAt? s = some .dir)
    (hout : j.output = some out) (ht : Host.followed h.cwd out.components = t) (hst : s ≠ t)
    (hfile : h.files.bytes? t = none) (hp : j.prepare h = (h₁, r)) :
    Host.SetsFiles (h.IsCopy s t) h h₁ ∧ ∀ files, r = .ok files →
      files = documentsBelow h₁ out ∧ h₁.place? out = some t ∧
        ∀ r, h.IsSource s t r → (h₁.files.bytes? (t ++ r)).isSome = true := by
  have hother : out.same j.input = false := by
    refine Bool.eq_false_iff.mpr fun he => hst ?_
    rw [Path.same, beq_iff_eq] at he
    rw [Host.place?_eq_followed hs, ← he, ht]
  have helse : j.elsewhere? = some out := by
    rw [Job.elsewhere?, hout]
    simp [hother]
  rw [Job.prepare, Host.isDir_of_place? hs hdir, if_pos rfl, helse] at hp
  dsimp only at hp
  generalize hcopy : h.copyTree j.input out = x at hp
  obtain ⟨h₂, failed⟩ := x
  obtain ⟨hset, hdone⟩ := Host.copyTree_setsFiles htree hs hdir ht hst hfile hcopy
  cases failed with
  | some p => cases hp; exact ⟨hset, fun files he => by cases he⟩
  | none => cases hp; exact ⟨hset, fun files he => by cases he; exact ⟨rfl, hdone rfl⟩⟩

/-- The names of a file that is below the output once the copies are made. -/
theorem isEntryName_of_copied (htree : h.files.IsTree)
    (hset : Host.SetsFiles (h.IsCopy s t) h h₁) {r : Location}
    (hr : (h₁.files.bytes? (t ++ r)).isSome = true) : ∀ x ∈ r, isEntryName x = true := by
  intro x hx
  by_cases hcopy : h.IsCopy s t (t ++ r)
  · have hsource := (Host.isCopy_append.mp hcopy).1
    exact htree.isEntryName_of_bytes? hsource x (List.mem_append_right _ hx)
  · rw [hset.others _ hcopy] at hr
    exact htree.isEntryName_of_bytes? hr x (List.mem_append_right _ hx)

/-- **What a job with an output leaves**: `s` is the place of its input and `t` that of its output,
`own` are the documents that are copied, and `strays` those that the output has besides. -/
structure OutputDone [Highlight.Library] [Programs] (j : Job) (h h' : Host) (st : Stats) (s t : Location)
    (own strays : List Location) : Prop where
  ownListing : IsListing own (IsOwn h s t)
  strayListing : IsListing strays (IsStray h s t)
  /-- Strays are finished where they are, if the library is lawful. -/
  colorized : LawfulLibrary → ∀ r, IsStray h s t r → h'.files.bytes? (t ++ r)
    = (h.files.bytes? (t ++ r)).map (finished (j.prepare h).1 j.options)
  /-- All other files but the copies are as they were. -/
  others : ∀ v, ¬ h.IsCopy s t v → (∀ r, IsStray h s t r → v ≠ t ++ r) →
    h'.files.bytes? v = h.files.bytes? v
  /-- Every document of either kind is counted once. -/
  counts : st.processed + st.failures.length = own.length + strays.length

/-- The documents of the output, once the copies are made, are those of the input and the strays. -/
theorem exists_listings {docs : List Location} (hset : Host.SetsFiles (h.IsCopy s t) h h₁)
    (hcopies : ∀ r, h.IsSource s t r → (h₁.files.bytes? (t ++ r)).isSome = true)
    (hdocs : IsListing docs fun r =>
      (h₁.files.bytes? (t ++ r)).isSome = true ∧ isDocumentAt r = true) :
    ∃ own strays, IsListing own (IsOwn h s t) ∧ IsListing strays (IsStray h s t) ∧
      docs.length = own.length + strays.length := by
  have hsame : ∀ r, ¬ h.IsSource s t r → h₁.files.bytes? (t ++ r) = h.files.bytes? (t ++ r) :=
    fun r hr => hset.others _ fun hcopy => hr (Host.isCopy_append.mp hcopy)
  refine ⟨docs.filter (fun r => decide (h.IsSource s t r)),
    docs.filter (fun r => !decide (h.IsSource s t r)), ⟨hdocs.nodup.filter _, fun r => ?_⟩,
    ⟨hdocs.nodup.filter _, fun r => ?_⟩, List.length_eq_length_filter_add _⟩
  · rw [List.mem_filter, hdocs.mem, decide_eq_true_eq, IsOwn]
    exact ⟨fun ⟨⟨_, hdoc⟩, hr⟩ => ⟨hr, hdoc⟩, fun ⟨hr, hdoc⟩ => ⟨⟨hcopies r hr, hdoc⟩, hr⟩⟩
  · rw [List.mem_filter, hdocs.mem, Bool.not_eq_true', decide_eq_false_iff_not, IsStray, and_assoc]
    refine ⟨fun ⟨hb, hdoc, hr⟩ => ⟨hsame r hr ▸ hb, hdoc, hr⟩,
      fun ⟨hb, hdoc, hr⟩ => ⟨(hsame r hr).symm ▸ hb, hdoc, hr⟩⟩

/-- **A job with an output** that ends well sets the copies, finishes the documents of the output,
and touches nothing else. -/
theorem run_output [Highlight.Library] [Programs] {st : Stats} (htree : h.files.IsTree)
    (hs : h.place? j.input = some s) (hdir : h.files.kindAt? s = some .dir) (hout : j.output = some out)
    (ht : Host.followed h.cwd out.components = t) (hst : s ≠ t)
    (hfile : h.files.bytes? t = none) (hrun : j.run h = (h', .ok st)) :
    ∃ own strays, OutputDone j h h' st s t own strays := by
  rcases run_cases hrun with
    ⟨-, hr⟩ | ⟨e, -, hr⟩ | ⟨h₁, files, st₁, hprep, hfold, hr⟩
  · cases hr
  · cases hr
  cases hr
  obtain ⟨hset, hready⟩ := prepare_output htree hs hdir hout ht hst hfile hprep
  obtain ⟨rfl, hplace, hcopies⟩ := hready files rfl
  -- the output itself is no file, before the copying and after
  have hroot : h₁.files.bytes? t = none := by rw [hset.others t (Host.not_isCopy_self hdir), hfile]
  obtain ⟨docs, hnodup, hmem, hdocs⟩ := documentsBelow_spec (hset.distinct htree.distinct) hplace
    hroot fun r hr => isEntryName_of_copied htree hset hr
  obtain ⟨own, strays, hown, hstrays, hlength⟩ := exists_listings hset hcopies ⟨hnodup, hmem⟩
  have hfound : ∀ r ∈ docs, h₁.place? (Host.below out r) = some (t ++ r) ∧
      isDocumentAt (t ++ r) = true ∧ (h₁.files.bytes? (t ++ r)).isSome = true := by
    intro r hr
    obtain ⟨hb, hdoc⟩ := (hmem r).mp hr
    obtain ⟨m, hm⟩ := Node.exists_of_bytes? hb
    refine ⟨Host.place?_below hplace hm (isEntryName_of_copied htree hset hb), ?_, hb⟩
    rw [isDocumentAt_append t (ne_nil_of_isDocumentAt hdoc), hdoc]
  obtain ⟨h₂, st₂, hfold', -, hother, hcount, hlawful⟩ :=
    processFiles_spec {} (SameButDocuments.refl h₁)
      (Session.ready_withStore j.options h₁.searchPath) hnodup hfound
  rw [hdocs, hfold'] at hfold
  cases hfold
  have hstray : ∀ r, IsStray h s t r →
      r ∈ docs ∧ h₁.files.bytes? (t ++ r) = h.files.bytes? (t ++ r) := by
    rintro r ⟨hb, hdoc, hsource⟩
    have hsame : h₁.files.bytes? (t ++ r) = h.files.bytes? (t ++ r) :=
      hset.others _ fun hcopy => hsource (Host.isCopy_append.mp hcopy)
    exact ⟨(hmem r).mpr ⟨by rwa [hsame], hdoc⟩, hsame⟩
  refine ⟨own, strays, hown, hstrays, fun hlaw r hr => ?_, fun v hcopy hv => ?_, ?_⟩
  · rw [(hlawful hlaw).1 r (hstray r hr).1, (hstray r hr).2, hprep]
  · rw [hother v, hset.others v hcopy]
    rintro r hr rfl
    obtain ⟨hb, hdoc⟩ := (hmem r).mp hr
    rw [hset.others _ hcopy] at hb
    exact hv r ⟨hb, hdoc, fun hsource => hcopy (Host.isCopy_append.mpr hsource)⟩ rfl
  · have hperm : st₁.sorted.failures.Perm st₁.failures := List.mergeSort_perm _ _
    rw [hperm.length_eq, ← hlength]
    exact hcount.trans (by simp)

/-! ## 3. When a job keeps to its copies -/

/-- **A job keeps to its copies.** -/
structure KeepsToCopies (h h' : Host) (st : Stats) (s t : Location) : Prop where
  /-- It makes and changes no file but the copies. -/
  others : ∀ v, ¬ h.IsCopy s t v → h'.files.bytes? v = h.files.bytes? v
  /-- It leaves the documents of the input alone. -/
  input : ∀ r, IsOwn h s t r → h'.files.bytes? (s ++ r) = h.files.bytes? (s ++ r)
  /-- It counts these documents, and no other ones. -/
  counts : ∃ own, IsListing own (IsOwn h s t) ∧ st.processed + st.failures.length = own.length

/-- **If there are no strays, no document of the input has a copy in its place.**  The output would
have to be around the input. -/
theorem not_isCopy_of_isOwn {own : List Location} (hst : s ≠ t)
    (hown : IsListing own (IsOwn h s t)) (hno : ∀ r, ¬ IsStray h s t r) {r : Location}
    (hr : IsOwn h s t r) : ¬ h.IsCopy s t (s ++ r) := by
  rintro ⟨r', -, he⟩
  rcases List.prefix_or_prefix_of_prefix (List.prefix_append s r) (he ▸ List.prefix_append t r')
    with hpre | ⟨d, rfl⟩
  · exact hr.1.2 ⟨hpre, he ▸ List.prefix_append t r'⟩
  · have hd : d ≠ [] := fun hd => hst (by rw [hd, List.append_nil])
    obtain ⟨r, hr⟩ := exists_isStray hd hown ((hown.mem r).mpr hr)
    exact hno r hr

/-- **When a job with an output keeps to its copies.**  Let the input be a directory and the output
another one, which may be there already, lie inside of the input or around it.  A job that ends early
sets no file but copies.  One that ends well does besides what it is to do exactly with the strays:
they are finished and counted too.  So it keeps to its copies just if there are none.

This is so with any library and any programs; only what a stray becomes is said for a lawful library. -/
theorem keepsToCopies_iff [Highlight.Library] [Programs] {result : Except FileError Stats}
    (htree : h.files.IsTree) (hs : h.place? j.input = some s) (hdir : h.files.kindAt? s = some .dir)
    (hout : j.output = some out) (ht : Host.followed h.cwd out.components = t) (hst : s ≠ t)
    (hfile : h.files.bytes? t = none) (hrun : j.run h = (h', result)) :
    (∀ e, result = .error e → ∀ v, ¬ h.IsCopy s t v → h'.files.bytes? v = h.files.bytes? v) ∧
    ∀ st, result = .ok st → (∃ own strays, OutputDone j h h' st s t own strays) ∧
      (KeepsToCopies h h' st s t ↔ ∀ r, ¬ IsStray h s t r) := by
  constructor
  · rintro e rfl v hv
    rcases run_cases hrun with ⟨rfl, -⟩ | ⟨e', hprep, -⟩ | ⟨h₁, files, st, -, -, hr⟩
    · rfl
    · exact (prepare_output htree hs hdir hout ht hst hfile hprep).1.others v hv
    · cases hr
  · rintro st rfl
    obtain ⟨own, strays, hdone⟩ := run_output htree hs hdir hout ht hst hfile hrun
    refine ⟨⟨own, strays, hdone⟩, fun hkeeps r hr => ?_, fun hno => ?_⟩
    · -- a stray would be counted besides
      obtain ⟨own', hown', hcount⟩ := hkeeps.counts
      have hlength := hdone.counts
      rw [hcount, hown'.length_eq hdone.ownListing, Nat.left_eq_add,
        List.length_eq_zero_iff] at hlength
      have hmem := (hdone.strayListing.mem r).mpr hr
      rw [hlength] at hmem
      cases hmem
    · have hothers : ∀ v, ¬ h.IsCopy s t v → h'.files.bytes? v = h.files.bytes? v :=
        fun v hv => hdone.others v hv fun r hr => absurd hr (hno r)
      have hnil : strays = [] :=
        List.eq_nil_iff_forall_not_mem.mpr fun r hr => hno r ((hdone.strayListing.mem r).mp hr)
      refine ⟨hothers, fun r hr => ?_, own, hdone.ownListing, ?_⟩
      · exact hothers _ (not_isCopy_of_isOwn hst hdone.ownListing hno hr)
      · rw [hdone.counts, hnil, List.length_nil, Nat.add_zero]

end

/-- A machine with an output inside of the input: it holds an older copy of the document, and a file
that is none. -/
def garden : Host :=
  ⟨.dir [("site", .dir [("index.html", .file (Utf8.encode letter) false),
    ("out", .dir [("index.html", .file [60] false), ("old.css", .file [] false)])])], [], none⟩

/-- A job that brings the tree there. -/
def gardening : Job := ⟨⟨"site"⟩, some ⟨"site/out"⟩, {}⟩

/-- The job keeps to its copies: each document of the output has its counterpart. -/
theorem keepsToCopies_iff_garden :
    ∃ h' st, gardening.run garden = (h', .ok st) ∧
      KeepsToCopies garden h' st ["site"] ["site", "out"] ∧
      h'.files.bytes? ["site", "out", "index.html"]
        = some (Utf8.encode "<p>a<br>b</p>".toList) := by
  have hend : (gardening.run garden).2.toOption.isSome = true := by decide +kernel
  have hcopy : (gardening.run garden).1.files.bytes? ["site", "out", "index.html"]
      = some (Utf8.encode "<p>a<br>b</p>".toList) := by decide +kernel
  have hno : ∀ r, ¬ IsStray garden ["site"] ["site", "out"] r := by
    rintro r ⟨hb, hdoc, hsource⟩
    -- two files are below the output, and only one is a document
    obtain ⟨n, hn, hlisted⟩ : ∃ n, garden.files.find? ["site", "out"] = some n ∧
        Node.fileNames (n.contents (fun _ => false) []) = [["index.html"], ["old.css"]] :=
      ⟨_, rfl, by decide +kernel⟩
    have hmem := (Node.mem_fileNames_contents (Node.allNames_of_find? (by decide +kernel) hn)
      (by rw [← Node.bytes?_append hn]; decide +kernel) fun _ _ _ => rfl).mpr
      (by rwa [← Node.bytes?_append hn])
    rw [hlisted, List.mem_cons, List.mem_singleton] at hmem
    rcases hmem with rfl | rfl
    · exact hsource (by decide +kernel)
    · exact absurd hdoc (by decide +kernel)
  generalize hrun : gardening.run garden = x at hend hcopy
  obtain ⟨h', result⟩ := x
  cases result with
  | error e => cases hend
  | ok st =>
    have hiff := (keepsToCopies_iff (s := ["site"]) (t := ["site", "out"])
      ⟨by decide +kernel, by decide +kernel⟩ (by decide +kernel) (by decide +kernel) rfl
      (by decide +kernel) (by decide) (by decide +kernel) hrun).2 st rfl
    exact ⟨h', st, rfl, hiff.2.mpr hno, hcopy⟩

/-- A machine with an output that holds a document of its own. -/
def shared : Host :=
  ⟨.dir [("in", .dir [("x.html", .file (Utf8.encode letter) false)]),
    ("out", .dir [("y.html", .file (Utf8.encode letter) false)])], [], none⟩

/-- A job that brings another document there. -/
def sharing : Job := ⟨⟨"in"⟩, some ⟨"out"⟩, {}⟩

/-- **A document that was in the output before is rewritten.** -/
theorem stray_is_rewritten :
    ∃ h' st, sharing.run shared = (h', .ok st) ∧
      ¬ KeepsToCopies shared h' st ["in"] ["out"] ∧
      shared.files.bytes? ["in", "y.html"] = none ∧
      shared.files.bytes? ["out", "y.html"] = some (Utf8.encode letter) ∧
      h'.files.bytes? ["out", "y.html"] = some (Utf8.encode "<p>a<br>b</p>".toList) := by
  have hexists : shared.exists? sharing.input = true := by decide +kernel
  have hok : (sharing.prepare shared).2.toOption.isSome = true := by decide +kernel
  obtain ⟨h', st, hrun⟩ : ∃ h' st, sharing.run shared = (h', .ok st) := by
    rw [Job.run, if_pos hexists]
    generalize sharing.prepare shared = x at hok
    obtain ⟨h₁, r⟩ := x
    cases r with
    | error e => cases hok
    | ok files => exact ⟨_, _, rfl⟩
  obtain ⟨own, strays, hdone⟩ := run_output (s := ["in"]) (t := ["out"])
    ⟨by decide +kernel, by decide +kernel⟩ (by decide +kernel) (by decide +kernel) rfl
    (by decide +kernel) (by decide) (by decide +kernel) hrun
  have hsource : ¬ shared.IsSource ["in"] ["out"] ["y.html"] := by decide +kernel
  have hold : shared.files.bytes? ["out", "y.html"] = some (Utf8.encode letter) := by decide +kernel
  have hnew : h'.files.bytes? ["out", "y.html"]
      = some (Utf8.encode "<p>a<br>b</p>".toList) := by
    refine (hdone.colorized inferInstance ["y.html"] ⟨?_, ?_, hsource⟩).trans ?_ <;> decide +kernel
  refine ⟨h', st, hrun, fun hkeeps => ?_, by decide +kernel, hold, hnew⟩
  have hsame := hkeeps.others (["out"] ++ ["y.html"]) fun hcopy =>
    hsource (Host.isCopy_append.mp hcopy)
  rw [List.singleton_append, hold, hnew] at hsame
  exact absurd hsame (by decide +kernel)

end CodeTint.Batch
