/-
# What a copied tree holds

Copying a tree makes directories, which changes no file (`SameFiles`), and copies files one by one,
each of which sets one file and no other (`SetsFile`).  So **no file changes but the copies**
(`copyTree_setsFiles`), wherever source and target lie, whatever the target holds, and also if the
copying stops midway.  A target that lies inside of the source is left out of the walk, so the files
in it are not copied (`IsSource`).

If nothing is where the tree is copied to, **the files below the target are the files of the source**
(`copyTree_spec`).  Then no file of the source is left out, and since the sources are not below the
target, each of them still is what it was when its turn comes.
-/
import CodeTint.Proofs.Host.Tree

namespace CodeTint.Host

/-! ## 1. What changes -/

/-- **No file changes**; directories may have been made. -/
structure SameFiles (h h' : Host) : Prop extends KeepsDirs h h' where
  bytes : ∀ v, h'.files.bytes? v = h.files.bytes? v
  distinct : h.files.isDistinct = true → h'.files.isDistinct = true

/-- **One file is set**, and no other changes. -/
structure SetsFile (h h' : Host) (u : Location) (bytes : List UInt8) : Prop
    extends KeepsDirs h h' where
  there : h'.files.bytes? u = some bytes
  others : ∀ v, v ≠ u → h'.files.bytes? v = h.files.bytes? v
  distinct : h.files.isDistinct = true → h'.files.isDistinct = true

/-- **Only files at some places are set**, and none is taken away. -/
structure SetsFiles (places : Location → Prop) (h h' : Host) : Prop extends KeepsDirs h h' where
  others : ∀ v, ¬ places v → h'.files.bytes? v = h.files.bytes? v
  stay : ∀ v, (h.files.bytes? v).isSome = true → (h'.files.bytes? v).isSome = true
  distinct : h.files.isDistinct = true → h'.files.isDistinct = true

theorem KeepsDirs.refl (h : Host) : h.KeepsDirs h := ⟨rfl, rfl, fun _ hs => hs⟩

section

variable {places : Location → Prop} {h h₁ h' : Host}

theorem SameFiles.refl (h : Host) : h.SameFiles h := ⟨KeepsDirs.refl h, fun _ => rfl, fun hd => hd⟩

theorem SameFiles.setsFiles (hsame : h.SameFiles h') : SetsFiles places h h' where
  toKeepsDirs := hsame.toKeepsDirs
  others := fun v _ => hsame.bytes v
  stay := fun v hv => by rwa [hsame.bytes]
  distinct := hsame.distinct

theorem SetsFile.setsFiles {u : Location} {bytes : List UInt8} (hset : h.SetsFile h' u bytes)
    (hu : places u) : SetsFiles places h h' where
  toKeepsDirs := hset.toKeepsDirs
  others := fun v hv => hset.others v fun he => hv (he ▸ hu)
  stay := by
    intro v hv
    by_cases he : v = u
    · rw [he, hset.there]
      rfl
    · rwa [hset.others v he]
  distinct := hset.distinct

theorem SetsFiles.trans (hset : SetsFiles places h h₁) (hset' : SetsFiles places h₁ h') :
    SetsFiles places h h' where
  toKeepsDirs := hset.toKeepsDirs.trans hset'.toKeepsDirs
  others := fun v hv => (hset'.others v hv).trans (hset.others v hv)
  stay := fun v hv => hset'.stay v (hset.stay v hv)
  distinct := fun hd => hset'.distinct (hset.distinct hd)

end

theorem SameFiles.setsFile {h h₁ h' : Host} {u : Location} {bytes : List UInt8}
    (h₁' : h.SameFiles h₁) (hs : h₁.SetsFile h' u bytes) : h.SetsFile h' u bytes where
  toKeepsDirs := h₁'.toKeepsDirs.trans hs.toKeepsDirs
  there := hs.there
  others := fun v hv => (hs.others v hv).trans (h₁'.bytes v)
  distinct := fun hd => hs.distinct (h₁'.distinct hd)

/-! ## 2. Making directories -/

theorem makeDirs_bytes? (files : Node) (place : Location) (cs : List Component) (v : Location) :
    (makeDirs files place cs).1.bytes? v = files.bytes? v := by
  fun_induction makeDirs files place cs with
  | case1 => rfl
  | case2 files place cs ih => exact ih
  | case3 files place cs ih => exact ih
  | case4 files place cs ih => exact ih
  | case5 files place name cs es hf ih => exact ih
  | case6 files place name cs bytes x hf => rfl
  | case7 files place name cs hf files' hm ih =>
    obtain ⟨hnone, hdir, hrest⟩ := Node.makeDir?_spec hm
    rw [ih]
    by_cases hv : v = place ++ [name]
    · have hbefore : files.bytes? v = none := by
        rw [Node.bytes?, Option.map_eq_none_iff.mp (hv ▸ hnone : files.kindAt? v = none)]
      rw [Node.bytes?_eq_none_of_dir (hv ▸ hdir), hbefore]
    · exact Node.bytes?_congr (hrest v hv)
  | case8 files place name cs hf hm => rfl

theorem makeDirs_isDistinct {files : Node} (hd : files.isDistinct = true) (place : Location)
    (cs : List Component) : (makeDirs files place cs).1.isDistinct = true := by
  fun_induction makeDirs files place cs with
  | case1 => exact hd
  | case2 files place cs ih => exact ih hd
  | case3 files place cs ih => exact ih hd
  | case4 files place cs ih => exact ih hd
  | case5 files place name cs es hf ih => exact ih hd
  | case6 files place name cs bytes x hf => exact hd
  | case7 files place name cs hf files' hm ih => exact ih (Node.isDistinct_makeDir? hd hm)
  | case8 files place name cs hf hm => exact hd

/-- **Making directories changes no file**, whether it goes well or not. -/
theorem createComponents_sameFiles (h : Host) (cs : List Component) :
    h.SameFiles (h.createComponents cs).1 where
  cwd := rfl
  searchPath := rfl
  dirs := fun _ hs => makeDirs_keeps _ _ _ _ _ hs
  bytes := fun v => makeDirs_bytes? _ _ _ v
  distinct := fun hd => makeDirs_isDistinct hd _ _

theorem createParent_sameFiles (h : Host) (p : Path) : h.SameFiles (h.createParent p).1 := by
  rw [createParent]
  split
  · exact h.createComponents_sameFiles _
  · exact ⟨KeepsDirs.refl h, fun _ => rfl, fun hd => hd⟩

theorem createDir_sameFiles (h : Host) (p : Path) : h.SameFiles (h.createDir p).1 := by
  rw [createDir]
  split
  · exact h.createParent_sameFiles p
  · exact h.createComponents_sameFiles _

/-! ## 3. Setting a file -/

/-- **A file that is written** is set, at the place that its path leads to. -/
theorem write?_setsFile {h h' : Host} {p : Path} {bytes : List UInt8}
    (hw : h.write? p bytes = some h') :
    ∃ u, h.place? p = some u ∧ h.SetsFile h' u bytes := by
  have hkeeps := (write?_spec hw).2
  rw [write?, Option.bind_eq_bind, Option.bind_eq_some_iff] at hw
  obtain ⟨u, hu, hw⟩ := hw
  rw [Option.bind_eq_bind, Option.bind_eq_some_iff] at hw
  obtain ⟨files, hf, hw⟩ := hw
  cases hw
  obtain ⟨⟨x, hx⟩, -, hrest⟩ := Node.putFile?_spec hf
  exact ⟨u, hu, hkeeps, Node.bytes?_eq_some.mpr ⟨x, hx⟩,
    fun v hv => Node.bytes?_congr (hrest v hv), fun hd => Node.isDistinct_putFile? hd hf⟩

/-- **A file can be written at a path** that leads somewhere, unless there is a directory. -/
def IsWritable (h : Host) (p : Path) : Prop :=
  ∃ u, h.place? p = some u ∧ h.files.kindAt? u ≠ some .dir

/-- Writing goes well just if the path is one that a file can be written at, whatever is written. -/
theorem exists_write?_iff {h : Host} {p : Path} {bytes : List UInt8} :
    (∃ h', h.write? p bytes = some h') ↔ h.IsWritable p := by
  constructor
  · rintro ⟨h', hw⟩
    obtain ⟨u, hu, hw⟩ := Option.bind_eq_some_iff.mp hw
    obtain ⟨files, hf, -⟩ := Option.bind_eq_some_iff.mp hw
    exact ⟨u, hu, (Node.putFile?_spec hf).2.1⟩
  · rintro ⟨u, hu, hnodir⟩
    obtain ⟨front, name, rfl, hdir⟩ := (place?_cases hu).resolve_left hnodir
    obtain ⟨files, hf⟩ : ∃ files, h.files.putFile? bytes (front ++ [name]) = some files := by
      cases hx : h.files.find? (front ++ [name]) with
      | none => exact Node.exists_alter? hdir (by rw [hx])
      | some x =>
        cases x with
        | file b y => exact Node.exists_alter? hdir (by rw [hx])
        | dir es => exact absurd (by rw [Node.kindAt?, hx]; rfl) hnodir
    exact ⟨{ h with files }, by rw [write?, hu]; simp [hf]⟩

/-- What a copy does: the bytes of the source are written, then its permission is set. -/
theorem copyBytes?_eq_some {h h' : Host} {source target : Path}
    (hc : h.copyBytes? source target = some h') :
    ∃ s t bytes x files files', h.place? source = some s ∧ h.place? target = some t ∧
      h.files.find? s = some (.file bytes x) ∧
      h.files.putFile? (if s = t then [] else bytes) t = some files ∧
      files.setExecutable? x t = some files' ∧ h' = { h with files := files' } := by
  obtain ⟨s, hs, hc⟩ := Option.bind_eq_some_iff.mp hc
  obtain ⟨t, ht, hc⟩ := Option.bind_eq_some_iff.mp hc
  split at hc
  · next bytes x hfile =>
    obtain ⟨files, hf, hc⟩ := Option.bind_eq_some_iff.mp hc
    obtain ⟨files', hf', hc⟩ := Option.bind_eq_some_iff.mp hc
    cases hc
    exact ⟨s, t, bytes, x, files, files', hs, ht, hfile, hf, hf', rfl⟩
  · cases hc

/-- **A file that is copied** sets the target, if it is another place. -/
theorem copyBytes?_setsFile {h h' : Host} {source target : Path}
    (hc : h.copyBytes? source target = some h') :
    ∃ s t bytes, h.place? source = some s ∧ h.place? target = some t ∧
      h.files.bytes? s = some bytes ∧ h.SetsFile h' t (if s = t then [] else bytes) := by
  obtain ⟨-, -, -, -, -, -, -, -, hkeeps⟩ := copyBytes?_spec hc
  obtain ⟨s, t, bytes, x, files, files', hs, ht, hfile, hf, hf', rfl⟩ := copyBytes?_eq_some hc
  obtain ⟨⟨y, hy⟩, -, hrest⟩ := Node.putFile?_spec hf
  obtain ⟨⟨bytes', y', hy', hx⟩, hrest'⟩ := Node.setExecutable?_spec hf'
  rw [hy] at hy'
  cases hy'
  exact ⟨s, t, bytes, hs, ht, Node.bytes?_eq_some.mpr ⟨x, by rw [Node.kindAt?, hfile]; rfl⟩,
    hkeeps, Node.bytes?_eq_some.mpr ⟨x, hx⟩,
    fun v hv => Node.bytes?_congr ((hrest' v hv).trans (hrest v hv)),
    fun hd => Node.isDistinct_setExecutable? (Node.isDistinct_putFile? hd hf) hf'⟩

theorem copyFile_setsFile {h h' : Host} {source target : Path}
    (hc : h.copyFile source target = (h', true)) :
    ∃ bytes, h.files.bytes? (followed h.cwd source.components) = some bytes ∧
      h.SetsFile h' (followed h.cwd target.components)
        (if followed h.cwd source.components = followed h.cwd target.components then []
          else bytes) := by
  have hsame := h.createParent_sameFiles target
  rw [copyFile] at hc
  generalize h.createParent target = r at hc hsame
  obtain ⟨h₁, made⟩ := r
  cases made with
  | false => cases hc
  | true =>
    dsimp only at hc
    cases hb : h₁.copyBytes? source target with
    | none => rw [hb] at hc; cases hc
    | some h₂ =>
      rw [hb] at hc
      cases hc
      obtain ⟨s, t, bytes, hs, ht, hbytes, hset⟩ := copyBytes?_setsFile hb
      have hs' := place?_eq_followed hs
      have ht' := place?_eq_followed ht
      rw [hsame.cwd] at hs' ht'
      rw [← hs', ← ht']
      exact ⟨bytes, (hsame.bytes s).symm.trans hbytes, hsame.setsFile hset⟩

/-- A copy that fails has set no file; directories around its target may have been made. -/
theorem copyFile_sameFiles {h h' : Host} {source target : Path}
    (hc : h.copyFile source target = (h', false)) : h.SameFiles h' := by
  have hsame := h.createParent_sameFiles target
  rw [copyFile] at hc
  generalize h.createParent target = r at hc hsame
  obtain ⟨h₁, made⟩ := r
  cases made with
  | false => cases hc; exact hsame
  | true =>
    dsimp only at hc
    cases hb : h₁.copyBytes? source target with
    | none => rw [hb] at hc; cases hc; exact hsame
    | some h₂ => rw [hb] at hc; cases hc

/-! ## 4. Copying entries -/

/-- A file that is copied below the target has the bytes of the one below the source. -/
theorem copyFile_below {h h' : Host} {source target : Path} {names : Location}
    (hnames : ∀ x ∈ names, isEntryName x = true)
    (hother : followed h.cwd source.components ≠ followed h.cwd target.components)
    (hc : h.copyFile (below source names) (target.join ⟨"/".intercalate names⟩) = (h', true)) :
    ∃ bytes, h.files.bytes? (followed h.cwd source.components ++ names) = some bytes ∧
      h.SetsFile h' (followed h.cwd target.components ++ names) bytes := by
  obtain ⟨bytes, hbytes, hset⟩ := copyFile_setsFile hc
  rw [components_below source hnames, Path.components_joinNames target hnames, followed_append,
    followed_append, followed_names, followed_names,
    if_neg fun he => hother (List.append_cancel_right he)] at hset
  rw [components_below source hnames, followed_append, followed_names] at hbytes
  exact ⟨bytes, hbytes, hset⟩

section

variable {h h' : Host} {source target : Path} {s t : Location}

/-- **One entry copied**: a directory changes no file, and a file sets one at most, the one of its
names below the target, from the one of its names below the source. -/
theorem copyEntry_spec {names : Location} {m : Node} {went : Bool}
    (hs : followed h.cwd source.components = s) (ht : followed h.cwd target.components = t)
    (hst : s ≠ t) (hnames : m.isDir = false → ∀ x ∈ names, isEntryName x = true)
    (hc : h.copyEntry source target names m = (h', went)) :
    h.SameFiles h' ∧ (went = true → m.isDir = true) ∨
      m.isDir = false ∧ ∃ bytes, h.files.bytes? (s ++ names) = some bytes ∧
        h.SetsFile h' (t ++ names) bytes := by
  cases m with
  | dir es =>
    have hsame := h.createDir_sameFiles (target.join ⟨"/".intercalate names⟩)
    rw [copyEntry] at hc
    rw [hc] at hsame
    exact .inl ⟨hsame, fun _ => rfl⟩
  | file b x =>
    cases went with
    | false => exact .inl ⟨copyFile_sameFiles hc, fun he => by cases he⟩
    | true =>
      obtain ⟨bytes, hbytes, hset⟩ := copyFile_below (hnames rfl) (by rwa [hs, ht]) hc
      rw [hs] at hbytes
      rw [ht] at hset
      exact .inr ⟨rfl, bytes, hbytes, hset⟩

/-- **Entries copied one after the other** set no files but those of their names below the target,
also if they stop at one that fails; if none does, all of those are there. -/
theorem copyEntries_setsFiles {places : Location → Prop} {failed : Option Path}
    {listed : List (Location × Node)}
    (hs : followed h.cwd source.components = s) (ht : followed h.cwd target.components = t)
    (hst : s ≠ t) (hnames : ∀ r ∈ Node.fileNames listed, ∀ x ∈ r, isEntryName x = true)
    (hplaces : ∀ r ∈ Node.fileNames listed, places (t ++ r))
    (hc : h.copyEntries source target listed = (h', failed)) :
    SetsFiles places h h' ∧ (failed = none →
      ∀ r ∈ Node.fileNames listed, (h'.files.bytes? (t ++ r)).isSome = true) := by
  induction listed generalizing h with
  | nil =>
    cases hc
    exact ⟨(SameFiles.refl _).setsFiles, fun _ r hr => absurd hr List.not_mem_nil⟩
  | cons e listed ih =>
    obtain ⟨names, m⟩ := e
    rw [Node.fileNames_cons] at hnames hplaces ⊢
    rw [copyEntries] at hc
    generalize hentry : h.copyEntry source target names m = r at hc
    obtain ⟨h₁, went⟩ := r
    have hlater : ∀ r ∈ Node.fileNames listed,
        r ∈ if m.isDir then Node.fileNames listed else names :: Node.fileNames listed := by
      intro r hr
      split
      · exact hr
      · exact List.mem_cons_of_mem _ hr
    have hhere : m.isDir = false →
        names ∈ if m.isDir then Node.fileNames listed else names :: Node.fileNames listed := by
      intro hm
      rw [hm]
      exact List.mem_cons_self
    have hone := copyEntry_spec hs ht hst (fun hm => hnames names (hhere hm)) hentry
    have hset : SetsFiles places h h₁ ∧
        (went = true → m.isDir = false → (h₁.files.bytes? (t ++ names)).isSome = true) := by
      rcases hone with ⟨hsame, hdir⟩ | ⟨hm, bytes, -, hset⟩
      · refine ⟨hsame.setsFiles, fun hw hm => ?_⟩
        rw [hdir hw] at hm
        cases hm
      · exact ⟨hset.setsFiles (hplaces names (hhere hm)), fun _ _ => by rw [hset.there]; rfl⟩
    cases went with
    | false =>
      cases hc
      exact ⟨hset.1, fun hf => by cases hf⟩
    | true =>
      rw [← hset.1.cwd] at hs ht
      obtain ⟨hrest, hthere⟩ := ih hs ht (fun r hr => hnames r (hlater r hr))
        (fun r hr => hplaces r (hlater r hr)) hc
      refine ⟨hset.1.trans hrest, fun hf r hr => ?_⟩
      split at hr
      · exact hthere hf r hr
      · next hm =>
        rcases List.mem_cons.mp hr with rfl | hr
        · exact hrest.stay _ (hset.2 rfl (Bool.eq_false_iff.mpr hm))
        · exact hthere hf r hr

/-- **What the copies hold**: the bytes of their sources, given that no file that is copied is below
the target, so that each still is what it was when its turn comes. -/
theorem copyEntries_bytes? {listed : List (Location × Node)}
    (hs : followed h.cwd source.components = s) (ht : followed h.cwd target.components = t)
    (hst : s ≠ t) (hnames : ∀ r ∈ Node.fileNames listed, ∀ x ∈ r, isEntryName x = true)
    (hapart : ∀ r ∈ Node.fileNames listed, ¬ t <+: s ++ r)
    (hc : h.copyEntries source target listed = (h', none)) :
    ∀ r ∈ Node.fileNames listed, h'.files.bytes? (t ++ r) = h.files.bytes? (s ++ r) := by
  induction listed generalizing h with
  | nil => exact fun r hr => absurd hr List.not_mem_nil
  | cons e listed ih =>
    obtain ⟨names, m⟩ := e
    rw [Node.fileNames_cons] at hnames hapart ⊢
    rw [copyEntries] at hc
    generalize hentry : h.copyEntry source target names m = r at hc
    obtain ⟨h₁, went⟩ := r
    cases went with
    | false => cases hc
    | true =>
      dsimp only at hc
      rcases copyEntry_spec hs ht hst (fun hm => hnames names (by simp [hm])) hentry with
        ⟨hsame, hdir⟩ | ⟨hm, bytes, hbytes, hset⟩
      · rw [hdir rfl, if_pos rfl] at hnames hapart ⊢
        rw [← hsame.cwd] at hs ht
        intro r hr
        rw [ih hs ht hnames hapart hc r hr, hsame.bytes]
      · rw [hm, if_neg Bool.false_ne_true] at hnames hapart ⊢
        rw [← hset.cwd] at hs ht
        have hrest := ih hs ht (fun r hr => hnames r (List.mem_cons_of_mem _ hr))
          (fun r hr => hapart r (List.mem_cons_of_mem _ hr)) hc
        have hset' : SetsFiles (fun v => ∃ r ∈ Node.fileNames listed, v = t ++ r) h₁ h' :=
          (copyEntries_setsFiles hs ht hst (fun r hr => hnames r (List.mem_cons_of_mem _ hr))
            (fun r hr => ⟨r, hr, rfl⟩) hc).1
        intro r hr
        by_cases hmem : r ∈ Node.fileNames listed
        · -- what is copied later is still what it was
          rw [hrest r hmem]
          exact hset.others _ fun he => hapart r hr (he ▸ List.prefix_append _ _)
        · obtain rfl : r = names := (List.mem_cons.mp hr).resolve_right hmem
          rw [hset'.others (t ++ r) fun ⟨r', hr', he⟩ => hmem (List.append_cancel_left he ▸ hr'),
            hset.there, hbytes]

end

/-! ## 5. Copying a tree -/

/-- **Whether a file below `s` is copied when `s` is copied to `t`**: it is there, and it is not below
a target that lies inside of the source. -/
def IsSource (h : Host) (s t r : Location) : Prop :=
  (h.files.bytes? (s ++ r)).isSome = true ∧ ¬ (s <+: t ∧ t <+: s ++ r)

instance (h : Host) (s t r : Location) : Decidable (h.IsSource s t r) :=
  inferInstanceAs (Decidable (_ ∧ ¬ (_ ∧ _)))

/-- The places of the copies. -/
def IsCopy (h : Host) (s t v : Location) : Prop := ∃ r, h.IsSource s t r ∧ v = t ++ r

theorem isCopy_append {h : Host} {s t r : Location} : h.IsCopy s t (t ++ r) ↔ h.IsSource s t r := by
  refine ⟨?_, fun hr => ⟨r, hr, rfl⟩⟩
  rintro ⟨r', hr', he⟩
  rwa [List.append_cancel_left he]

/-- Places below another, under names that entries can have. -/
def IsNamedBelow (t v : Location) : Prop := ∃ r, (∀ x ∈ r, isEntryName x = true) ∧ v = t ++ r

/-- The target is no copy itself, for the source is no file. -/
theorem not_isCopy_self {h : Host} {s t : Location} (hdir : h.files.kindAt? s = some .dir) :
    ¬ h.IsCopy s t t := by
  rintro ⟨r, ⟨hr, -⟩, he⟩
  rw [List.self_eq_append_right.mp he, List.append_nil, Node.bytes?_eq_none_of_dir hdir] at hr
  cases hr

section

variable {h h' : Host} {source target : Path} {s t : Location}

/-- **Copying a tree** fails before a file is touched, or makes the target and copies the entries of
the source that are not in it. -/
theorem copyTree_cases {failed : Option Path} (htree : h.files.IsTree)
    (hs : h.place? source = some s) (hdir : h.files.kindAt? s = some .dir)
    (ht : followed h.cwd target.components = t) (hst : s ≠ t) (hfile : h.files.bytes? t = none)
    (hc : h.copyTree source target = (h', failed)) :
    h.SameFiles h' ∧ failed ≠ none ∨
      ∃ h₁ listed, h.SameFiles h₁ ∧ h₁.place? target = some t ∧
        (∀ r, r ∈ Node.fileNames listed ↔ h.IsSource s t r) ∧
        h₁.copyEntries source target listed = (h', failed) := by
  have hmade := h.createDir_sameFiles target
  rw [copyTree] at hc
  generalize h.createDir target = r at hc hmade
  obtain ⟨h₁, made⟩ := r
  cases made with
  | false => cases hc; exact .inl ⟨hmade, Option.some_ne_none _⟩
  | true =>
    dsimp only at hc hmade
    rw [place?_of_keepsDirs hmade.toKeepsDirs hs] at hc
    cases ht₁ : h₁.place? target with
    | none => rw [ht₁] at hc; cases hc; exact .inl ⟨hmade, Option.some_ne_none _⟩
    | some t' =>
      obtain rfl : t' = t := by rw [place?_eq_followed ht₁, hmade.cwd, ht]
      obtain ⟨n, hn, hnk⟩ := Option.map_eq_some_iff.mp (hmade.dirs s hdir)
      rw [ht₁] at hc
      dsimp only at hc
      rw [if_neg hst, hn] at hc
      have hdn : n.isDistinct = true := Node.allNames_of_find? (hmade.distinct htree.distinct) hn
      have hbelow : ∀ r, n.bytes? r = h.files.bytes? (s ++ r) := fun r => by
        rw [← Node.bytes?_append hn, hmade.bytes]
      have hnil : n.bytes? [] = none := by
        rw [hbelow, List.append_nil, Node.bytes?_eq_none_of_dir hdir]
      refine .inr ⟨h₁, _, hmade, ht₁, fun r => ?_, hc⟩
      rw [Node.mem_fileNames_outside hdn hnil hst fun r hr => by rw [hbelow, hr, hfile], hbelow,
        IsSource]

/-- **Copying a tree sets no files but the copies**, whether it goes well or stops midway.  The
target may hold files, and each of source and target may lie inside of the other. -/
theorem copyTree_setsFiles {failed : Option Path} (htree : h.files.IsTree)
    (hs : h.place? source = some s) (hdir : h.files.kindAt? s = some .dir)
    (ht : followed h.cwd target.components = t) (hst : s ≠ t) (hfile : h.files.bytes? t = none)
    (hc : h.copyTree source target = (h', failed)) :
    SetsFiles (h.IsCopy s t) h h' ∧
      (failed = none → h'.place? target = some t ∧
        ∀ r, h.IsSource s t r → (h'.files.bytes? (t ++ r)).isSome = true) := by
  rcases copyTree_cases htree hs hdir ht hst hfile hc with
    ⟨hsame, hfailed⟩ | ⟨h₁, listed, hsame, ht₁, hlisted, hentries⟩
  · exact ⟨hsame.setsFiles, fun hf => absurd hf hfailed⟩
  · have hplaces : ∀ r ∈ Node.fileNames listed, h.IsCopy s t (t ++ r) :=
      fun r hr => isCopy_append.mpr ((hlisted r).mp hr)
    obtain ⟨hset, hthere⟩ := copyEntries_setsFiles (by rw [hsame.cwd, ← place?_eq_followed hs])
      (by rw [hsame.cwd, ht]) hst
      (fun r hr x hx => htree.isEntryName_of_bytes? ((hlisted r).mp hr).1 x
        (List.mem_append_right _ hx)) hplaces hentries
    exact ⟨hsame.setsFiles.trans hset, fun hf => ⟨place?_of_keepsDirs hset.toKeepsDirs ht₁,
      fun r hr => hthere hf r ((hlisted r).mpr hr)⟩⟩

/-- **Copying a tree sets no files but such as are named below the target**, wherever the source is
and whatever the target holds. -/
theorem copyTree_setsNamed {failed : Option Path} (htree : h.files.IsTree)
    (ht : followed h.cwd target.components = t) (hc : h.copyTree source target = (h', failed)) :
    SetsFiles (IsNamedBelow t) h h' := by
  have hmade := h.createDir_sameFiles target
  rw [copyTree] at hc
  generalize h.createDir target = r at hc hmade
  obtain ⟨h₁, made⟩ := r
  cases made with
  | false => cases hc; exact hmade.setsFiles
  | true =>
    dsimp only at hc hmade
    split at hc
    · next s t' hs ht' =>
      obtain rfl : t' = t := by rw [place?_eq_followed ht', hmade.cwd, ht]
      split at hc
      · cases hc; exact hmade.setsFiles
      · next hst =>
        split at hc
        · next n hn =>
          have hnames : ∀ r ∈ Node.fileNames (n.contents (fun names => s ++ names == t') []),
              ∀ x ∈ r, isEntryName x = true := by
            intro r hr x hx
            obtain ⟨bytes, y, hmem⟩ := Node.mem_fileNames.mp hr
            obtain ⟨r', -, hr', hfile⟩ := Node.find?_of_mem_contents
              (Node.allNames_of_find? (hmade.distinct htree.distinct) hn) hmem
            cases hr'
            have hbytes : h.files.bytes? (s ++ r) = some bytes := by
              rw [← hmade.bytes, Node.bytes?_append hn, Node.bytes?, hfile]
            exact htree.isEntryName_of_bytes? (by rw [hbytes]; rfl) x (List.mem_append_right _ hx)
          exact hmade.setsFiles.trans (copyEntries_setsFiles (place?_eq_followed hs).symm
            (place?_eq_followed ht').symm hst hnames (fun r hr => ⟨r, hnames r hr, rfl⟩) hc).1
        · cases hc; exact hmade.setsFiles
    · cases hc; exact hmade.setsFiles
    · cases hc; exact hmade.setsFiles

/-- **What copying a tree leaves**, if there was nothing where it is copied to: the files below the
target are those of the source, and no other file changes. -/
theorem copyTree_spec (htree : h.files.IsTree) (hs : h.place? source = some s)
    (hdir : h.files.kindAt? s = some .dir) (ht : followed h.cwd target.components = t)
    (hfree : h.files.kindAt? t = none) (hc : h.copyTree source target = (h', none)) :
    h.KeepsDirs h' ∧ h'.files.isDistinct = true ∧ h'.place? target = some t ∧
      (∀ r, h'.files.bytes? (t ++ r) = h.files.bytes? (s ++ r)) ∧
      ∀ v, ¬ t <+: v → h'.files.bytes? v = h.files.bytes? v := by
  have hst : s ≠ t := by
    rintro rfl
    rw [hdir] at hfree
    cases hfree
  -- nothing was below the target, so no file of the source is
  have hnone : ∀ v, t <+: v → h.files.bytes? v = none := by
    rintro v ⟨r, rfl⟩
    exact Node.bytes?_append_of_none hfree r
  have hapart : ∀ r, (h.files.bytes? (s ++ r)).isSome = true → ¬ t <+: s ++ r := by
    intro r hr hpre
    rw [hnone _ hpre] at hr
    cases hr
  have hsource : ∀ r, h.IsSource s t r ↔ (h.files.bytes? (s ++ r)).isSome = true :=
    fun r => ⟨And.left, fun hr => ⟨hr, fun hx => hapart r hr hx.2⟩⟩
  have hfile : h.files.bytes? t = none := hnone t List.prefix_rfl
  obtain ⟨hset, hdone⟩ := copyTree_setsFiles htree hs hdir ht hst hfile hc
  refine ⟨hset.toKeepsDirs, hset.distinct htree.distinct, (hdone rfl).1, fun r => ?_,
    fun v hv => hset.others v ?_⟩
  · by_cases hr : (h.files.bytes? (s ++ r)).isSome = true
    · rcases copyTree_cases htree hs hdir ht hst hfile hc with
        ⟨-, hfailed⟩ | ⟨h₁, listed, hsame, -, hlisted, hentries⟩
      · exact absurd rfl hfailed
      · have hmem : ∀ r ∈ Node.fileNames listed, (h.files.bytes? (s ++ r)).isSome = true :=
          fun r hr => ((hlisted r).mp hr).1
        rw [copyEntries_bytes? (by rw [hsame.cwd, ← place?_eq_followed hs])
          (by rw [hsame.cwd, ht]) hst
          (fun r hr x hx => htree.isEntryName_of_bytes? (hmem r hr) x (List.mem_append_right _ hx))
          (fun r hr => hapart r (hmem r hr)) hentries r ((hlisted r).mpr ((hsource r).mpr hr)),
          hsame.bytes]
    · have hkept : h'.files.bytes? (t ++ r) = h.files.bytes? (t ++ r) :=
        hset.others _ fun hcopy => hr (isCopy_append.mp hcopy).1
      rw [hkept, hnone _ (List.prefix_append _ _)]
      exact (Option.not_isSome_iff_eq_none.mp hr).symm
  · rintro ⟨r, -, rfl⟩
    exact hv (List.prefix_append _ _)

end

/-! ## 6. The files below a path -/

/-- **The files below a path** are listed once each, under the path with their names behind it. -/
theorem filesBelow_spec {h : Host} {p : Path} {t : Location} (hd : h.files.isDistinct = true)
    (hp : h.place? p = some t) (ht : h.files.bytes? t = none) :
    ∃ names : List Location, names.Nodup ∧
      (∀ r, r ∈ names ↔ (h.files.bytes? (t ++ r)).isSome = true) ∧
      h.filesBelow p = names.map (below p) := by
  rw [filesBelow, node?, hp, Option.bind_some]
  cases hn : h.files.find? t with
  | none =>
    refine ⟨[], List.nodup_nil, fun r => ?_, rfl⟩
    rw [Node.bytes?_append_of_none (Option.map_eq_none_iff.mpr hn) r]
    simp
  | some n =>
    have hdn : n.isDistinct = true := Node.allNames_of_find? hd hn
    have hnil : n.bytes? [] = none := by rw [← Node.bytes?_append hn, List.append_nil, ht]
    refine ⟨Node.fileNames (n.contents (fun _ => false) []),
      Node.nodup_fileNames (Node.nodup_contents hdn), fun r => ?_, ?_⟩
    · rw [Node.mem_fileNames_contents hdn hnil fun _ _ _ => rfl, Node.bytes?_append hn]
    · rw [Node.fileNames, List.map_filterMap]
      refine List.filterMap_congr fun e _ => ?_
      obtain ⟨names, m⟩ := e
      cases hm : m.isDir <;> simp [hm]

end CodeTint.Host
