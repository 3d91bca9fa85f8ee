/-
# What a change of one place does to all the others

Every change of files goes through `Node.alter?`: it changes what is at one place.  To say that
**nothing else changes**, a place is looked at without the entries of a directory (`Node.kindAt?`):
there is nothing, a directory, or a file with its bytes.  A change that makes a file or an empty
directory, and never touches a directory that is there, leaves the kind of every other place as it
was (`Node.kindAt?_alter?`).  Writing a file, its permission, and making a directory are such changes.

Where a path leads depends on the directories alone, so it leads to the same place as long as they
are there (`Host.place?_of_keepsDirs`).  So machines that differ in the files at some places only
(`Host.SameBut`) follow every path alike.
-/
import CodeTint.Dict
import CodeTint.Host
import Mathlib.Data.List.Basic

namespace CodeTint

namespace Node

/-! ## 1. Kinds -/

/-- What a node is, the entries of a directory apart. -/
inductive Kind where
  | dir
  | file (bytes : List UInt8) (executable : Bool)
  deriving DecidableEq

def kind : Node → Kind
  | .dir _ => .dir
  | .file bytes x => .file bytes x

/-- **The kind of what is at a place.** -/
def kindAt? (n : Node) (place : Location) : Option Kind := (n.find? place).map kind

/-- A node with nothing below it. -/
def isLeaf : Node → Bool
  | .dir es => es.isEmpty
  | .file _ _ => true

theorem kindAt?_cons (n : Node) (name : String) (rest : Location) :
    n.kindAt? (name :: rest) = (n.entry? name).bind (fun m => m.kindAt? rest) := by
  rw [kindAt?, find?]
  cases n.entry? name <;> rfl

/-- What is at a place behind another is looked up from there. -/
theorem find?_append (n : Node) (p r : Location) :
    n.find? (p ++ r) = (n.find? p).bind fun m => m.find? r := by
  induction p generalizing n with
  | nil => rfl
  | cons name p ih =>
    rw [List.cons_append, find?, find?]
    cases n.entry? name with
    | none => rfl
    | some m => exact ih m

/-- Around a directory there are directories. -/
theorem kindAt?_dropLast {n : Node} {p : Location} (h : n.kindAt? p = some .dir) :
    n.kindAt? p.dropLast = some .dir := by
  obtain rfl | ⟨front, name, rfl⟩ := List.eq_nil_or_concat' p
  · exact h
  · rw [List.dropLast_concat]
    obtain ⟨x, hx, -⟩ := Option.map_eq_some_iff.mp h
    rw [find?_append] at hx
    obtain ⟨y, hy, hname⟩ := Option.bind_eq_some_iff.mp hx
    cases y with
    | file bytes z => cases hname
    | dir es => rw [kindAt?, hy]; rfl

/-- Below a leaf there is nothing. -/
theorem kindAt?_of_isLeaf {n : Node} (h : n.isLeaf = true) {place : Location} (hp : place ≠ []) :
    n.kindAt? place = none := by
  cases place with
  | nil => exact absurd rfl hp
  | cons name rest =>
    rw [kindAt?_cons]
    cases n with
    | file bytes x => rfl
    | dir es =>
      cases es with
      | nil => rfl
      | cons e es => cases h

/-! ## 2. Entries -/

theorem lookup_map_set (name : String) (m : Node) (es : List (String × Node)) (k : String) :
    (es.map fun e => if e.1 == name then (name, m) else e).lookup k
      = if k = name ∧ es.any (fun e => e.1 == name) then some m else es.lookup k := by
  induction es with
  | nil => simp
  | cons e es ih =>
    rw [List.map_cons, lookup_cons_ite, lookup_cons_ite, List.any_cons, ih]
    by_cases he : e.1 = name
    · by_cases hk : k = name <;> simp [he, hk]
    · have he' : (e.1 == name) = false := beq_eq_false_iff_ne.mpr he
      rw [he', Bool.false_or]
      by_cases hk : k = e.1
      · simp [he, hk]
      · simp [hk]

/-- **Setting one name sets that name** and no other. -/
theorem lookup_setEntry (name : String) (m : Node) (es : List (String × Node)) (k : String) :
    (setEntry name m es).lookup k = if k = name then some m else es.lookup k := by
  rw [setEntry]
  split
  · next h => rw [lookup_map_set, h]; simp
  · rw [lookup_cons_ite]

@[simp] theorem entry?_dir (es : List (String × Node)) (name : String) :
    Node.entry? (.dir es) name = es.lookup name := rfl

/-! ## 3. One place changes -/

section

variable {f : Option Node → Option Node} {n n' : Node} {q : Location}

/-- **At its place a change has its way.** -/
theorem find?_alter? (h : n.alter? f q = some n') :
    ∃ m, f (n.find? q) = some m ∧ n'.find? q = some m := by
  fun_induction alter? f n q generalizing n' with
  | case1 n => exact ⟨n', h, rfl⟩
  | case2 name es =>
    obtain ⟨m, hm, rfl⟩ := Option.map_eq_some_iff.mp h
    refine ⟨m, ?_, ?_⟩
    · rw [find?, entry?_dir]
      cases hl : es.lookup name with
      | none => rw [hl] at hm; exact hm
      | some x => rw [hl] at hm; exact hm
    · rw [find?, entry?_dir, lookup_setEntry, if_pos rfl]
      rfl
  | case3 => cases h
  | case4 name rest hrest es m hl ih =>
    obtain ⟨m', hm', rfl⟩ := Option.map_eq_some_iff.mp h
    obtain ⟨x, hx, hfx⟩ := ih hm'
    refine ⟨x, ?_, ?_⟩
    · rw [find?, entry?_dir, hl]
      exact hx
    · rw [find?, entry?_dir, lookup_setEntry, if_pos rfl]
      exact hfx
  | case5 => cases h
  | case6 => cases h

/-- What is changed has nothing below it, given that a directory is never touched. -/
theorem kindAt?_of_changed (hdir : ∀ es, f (some (.dir es)) = none) {o : Option Node} {m : Node}
    (hm : f o = some m) {r : Location} (hr : r ≠ []) : o.bind (fun x => x.kindAt? r) = none := by
  cases o with
  | none => rfl
  | some x =>
    cases x with
    | file bytes y => exact kindAt?_of_isLeaf rfl hr
    | dir es =>
      rw [hdir es] at hm
      cases hm

/-- **Elsewhere nothing changes**, given that a directory is never touched and that what is put there
is a leaf. -/
theorem kindAt?_alter? (hdir : ∀ es, f (some (.dir es)) = none)
    (hleaf : ∀ o m, f o = some m → m.isLeaf = true) (h : n.alter? f q = some n') {s : Location}
    (hs : s ≠ q) : n'.kindAt? s = n.kindAt? s := by
  fun_induction alter? f n q generalizing n' s with
  | case1 n =>
    rw [kindAt?_of_isLeaf (hleaf _ _ h) hs]
    exact (kindAt?_of_changed hdir h hs).symm
  | case2 name es =>
    obtain ⟨m, hm, rfl⟩ := Option.map_eq_some_iff.mp h
    cases s with
    | nil => rfl
    | cons k r =>
      rw [kindAt?_cons, kindAt?_cons, entry?_dir, entry?_dir, lookup_setEntry]
      by_cases hk : k = name
      · have hr : r ≠ [] := fun hr => hs (by rw [hk, hr])
        rw [if_pos hk, hk, kindAt?_of_changed hdir hm hr]
        exact kindAt?_of_isLeaf (hleaf _ _ hm) hr
      · rw [if_neg hk]
  | case3 => cases h
  | case4 name rest hrest es m hl ih =>
    obtain ⟨m', hm', rfl⟩ := Option.map_eq_some_iff.mp h
    cases s with
    | nil => rfl
    | cons k r =>
      rw [kindAt?_cons, kindAt?_cons, entry?_dir, entry?_dir, lookup_setEntry]
      by_cases hk : k = name
      · have hr : r ≠ rest := fun hr => hs (by rw [hk, hr])
        rw [if_pos hk, hk, hl]
        exact ih hm' hr
      · rw [if_neg hk]
  | case5 => cases h
  | case6 => cases h

/-- **An entry can be changed** in a directory that is there, if what is there can be, or nothing. -/
theorem exists_alter? {front : Location} {name : String} {m : Node}
    (hdir : n.kindAt? front = some .dir) (hm : f (n.find? (front ++ [name])) = some m) :
    ∃ n', n.alter? f (front ++ [name]) = some n' := by
  induction front generalizing n with
  | nil =>
    cases n with
    | file bytes x => cases hdir
    | dir es =>
      have hfind : Node.find? (.dir es) [name] = es.lookup name := by
        rw [find?, entry?_dir]
        cases es.lookup name <;> rfl
      rw [List.nil_append, hfind] at hm
      exact ⟨_, by rw [List.nil_append, alter?, hm]; rfl⟩
  | cons name' front ih =>
    rw [kindAt?_cons] at hdir
    obtain ⟨y, hy, hfront⟩ := Option.bind_eq_some_iff.mp hdir
    cases n with
    | file bytes z => cases hy
    | dir es =>
      rw [List.cons_append, find?, hy] at hm
      rw [entry?_dir] at hy
      obtain ⟨n', hn'⟩ := ih hfront hm
      obtain ⟨a, rest, hrest⟩ := List.exists_cons_of_ne_nil
        (List.append_ne_nil_of_right_ne_nil front (List.cons_ne_nil name []))
      refine ⟨.dir (setEntry name' n' es), ?_⟩
      rw [hrest] at hn'
      rw [List.cons_append, hrest, alter?.eq_def]
      simp only [hy, hn', Option.map_some]

/-- The kind of what is changed, at its place. -/
theorem kindAt?_alter?_self (h : n.alter? f q = some n') :
    ∃ m, f (n.find? q) = some m ∧ n'.kindAt? q = some m.kind := by
  obtain ⟨m, hm, hf⟩ := find?_alter? h
  exact ⟨m, hm, by rw [kindAt?, hf]; rfl⟩

end

/-! ## 4. The changes there are -/

section

variable {n n' : Node} {q : Location}

/-- A file is written: its place holds the bytes, and no other place changes. -/
theorem putFile?_spec {bytes : List UInt8} (h : n.putFile? bytes q = some n') :
    (∃ x, n'.kindAt? q = some (.file bytes x)) ∧ n.kindAt? q ≠ some .dir ∧
      ∀ s, s ≠ q → n'.kindAt? s = n.kindAt? s := by
  rw [putFile?] at h
  obtain ⟨m, hm, hk⟩ := kindAt?_alter?_self h
  refine ⟨?_, ?_, fun s hs => kindAt?_alter? (fun _ => rfl) ?_ h hs⟩
  · split at hm
    · cases hm
    · next x _ => cases hm; exact ⟨x, hk⟩
    · cases hm; exact ⟨false, hk⟩
  · rw [kindAt?]
    split at hm
    · cases hm
    · next hf => rw [hf]; simp [kind]
    · next hf => rw [hf]; simp
  · intro o m hm
    split at hm
    · cases hm
    · cases hm; rfl
    · cases hm; rfl

/-- The permission of a file is set: its place holds the same bytes, and no other place changes. -/
theorem setExecutable?_spec {x : Bool} (h : n.setExecutable? x q = some n') :
    (∃ bytes y, n.kindAt? q = some (.file bytes y) ∧ n'.kindAt? q = some (.file bytes x)) ∧
      ∀ s, s ≠ q → n'.kindAt? s = n.kindAt? s := by
  rw [setExecutable?] at h
  obtain ⟨m, hm, hk⟩ := kindAt?_alter?_self h
  refine ⟨?_, fun s hs => kindAt?_alter? (fun _ => rfl) ?_ h hs⟩
  · split at hm
    · next bytes y hf =>
      cases hm
      exact ⟨bytes, y, by rw [kindAt?, hf]; rfl, hk⟩
    · cases hm
  · intro o m hm
    split at hm
    · cases hm; rfl
    · cases hm

/-- A directory is made where nothing was, and no other place changes. -/
theorem makeDir?_spec (h : n.makeDir? q = some n') :
    n.kindAt? q = none ∧ n'.kindAt? q = some .dir ∧
      ∀ s, s ≠ q → n'.kindAt? s = n.kindAt? s := by
  rw [makeDir?] at h
  obtain ⟨m, hm, hk⟩ := kindAt?_alter?_self h
  refine ⟨?_, ?_, fun s hs => kindAt?_alter? (fun _ => rfl) ?_ h hs⟩
  · split at hm
    · cases hm
    · next hf => rw [kindAt?, hf]; rfl
  · split at hm
    · cases hm
    · cases hm; exact hk
  · intro o m hm
    split at hm
    · cases hm
    · cases hm; rfl

end

end Node

namespace Host

/-! ## 5. Following paths -/

/-- Where one step of a path leads, if it can be made. -/
def stepOf (place : Location) (segment : String) : Location :=
  if segment = "" ∨ segment = "." then place
  else if segment = ".." then place.dropLast
  else place ++ [segment]

/-- A step can be made from a directory, and from nothing else. -/
theorem stepFrom?_eq_some {files : Node} {place t : Location} {segment : String} :
    stepFrom? files place segment = some t
      ↔ files.kindAt? place = some .dir ∧ t = stepOf place segment := by
  rw [stepFrom?, Node.kindAt?, stepOf]
  cases files.find? place with
  | none => simp
  | some n =>
    cases n with
    | file bytes x => simp [Node.kind]
    | dir es =>
      simp only [Node.kind, Option.map_some, true_and]
      split
      · simp [eq_comm]
      · split <;> simp [eq_comm]

/-- **The directories that are there stay there**, and with them the working directory and the
search path. -/
structure KeepsDirs (h h' : Host) : Prop where
  cwd : h'.cwd = h.cwd
  searchPath : h'.searchPath = h.searchPath
  dirs : ∀ s, h.files.kindAt? s = some .dir → h'.files.kindAt? s = some .dir

/-- **All that is there stays there as it is.** -/
structure Keeps (h h' : Host) : Prop where
  cwd : h'.cwd = h.cwd
  searchPath : h'.searchPath = h.searchPath
  kinds : ∀ s k, h.files.kindAt? s = some k → h'.files.kindAt? s = some k

theorem Keeps.keepsDirs {h h' : Host} (hk : h.Keeps h') : h.KeepsDirs h' :=
  ⟨hk.cwd, hk.searchPath, fun s hs => hk.kinds s _ hs⟩

theorem KeepsDirs.trans {h h' h'' : Host} (h1 : h.KeepsDirs h') (h2 : h'.KeepsDirs h'') :
    h.KeepsDirs h'' :=
  ⟨h2.cwd.trans h1.cwd, h2.searchPath.trans h1.searchPath, fun s hs => h2.dirs s (h1.dirs s hs)⟩

/-- The steps that could be made can still be made. -/
theorem foldlM_stepFrom? {files files' : Node}
    (hd : ∀ s, files.kindAt? s = some .dir → files'.kindAt? s = some .dir) :
    ∀ (segments : List String) {place t : Location},
      segments.foldlM (stepFrom? files) place = some t →
        segments.foldlM (stepFrom? files') place = some t
  | [], _, _, h => h
  | segment :: segments, place, t, h => by
    rw [List.foldlM_cons, Option.bind_eq_bind, Option.bind_eq_some_iff] at h ⊢
    obtain ⟨u, hu, h⟩ := h
    obtain ⟨hk, hs⟩ := stepFrom?_eq_some.mp hu
    exact ⟨u, stepFrom?_eq_some.mpr ⟨hd _ hk, hs⟩, foldlM_stepFrom? hd segments h⟩

/-- **A path leads where it led**, as long as the directories stay. -/
theorem place?_of_keepsDirs {h h' : Host} (hk : h.KeepsDirs h') {p : Path} {t : Location}
    (hp : h.place? p = some t) : h'.place? p = some t := by
  rw [place?] at hp ⊢
  split at hp
  · cases hp
  · next hne =>
    rw [if_neg hne, hk.cwd]
    exact foldlM_stepFrom? hk.dirs _ hp

/-- On machines with the same directories a path leads to the same place. -/
theorem place?_congr {h h' : Host} (hcwd : h.cwd = h'.cwd) (hpath : h.searchPath = h'.searchPath)
    (hdirs : ∀ s, h.files.kindAt? s = some .dir ↔ h'.files.kindAt? s = some .dir) (p : Path) :
    h.place? p = h'.place? p := by
  have h₁ : h.KeepsDirs h' := ⟨hcwd.symm, hpath.symm, fun s => (hdirs s).mp⟩
  have h₂ : h'.KeepsDirs h := ⟨hcwd, hpath, fun s => (hdirs s).mpr⟩
  cases hp : h.place? p with
  | some t => exact (place?_of_keepsDirs h₁ hp).symm
  | none =>
    cases hp' : h'.place? p with
    | none => rfl
    | some t => rw [place?_of_keepsDirs h₂ hp'] at hp; cases hp

/-- A path is the path of a file if it leads to one. -/
theorem read?_eq_some {h : Host} {p : Path} {bytes : List UInt8} :
    h.read? p = some bytes
      ↔ ∃ t x, h.place? p = some t ∧ h.files.kindAt? t = some (.file bytes x) := by
  rw [read?, node?]
  cases hp : h.place? p with
  | none => simp
  | some t =>
    simp only [Option.bind_some, Option.some.injEq, exists_and_left, exists_eq_left',
      Node.kindAt?]
    cases h.files.find? t with
    | none => simp
    | some n => cases n <;> simp [Node.kind]

/-- A file may be run if it says so. -/
theorem isExecutable_iff {h : Host} {p : Path} : h.isExecutable p = true
    ↔ ∃ t bytes, h.place? p = some t ∧ h.files.kindAt? t = some (.file bytes true) := by
  rw [isExecutable, node?]
  cases hp : h.place? p with
  | none => simp
  | some t =>
    simp only [Option.bind_some, Option.some.injEq, exists_and_left, exists_eq_left', Node.kindAt?]
    cases h.files.find? t with
    | none => simp
    | some n => cases n <;> simp [Node.kind]

theorem isDir_of_place? {h : Host} {p : Path} {s : Location} (hs : h.place? p = some s)
    (hdir : h.files.kindAt? s = some .dir) : h.isDir p = true := by
  obtain ⟨n, hn, hk⟩ := Option.map_eq_some_iff.mp hdir
  rw [isDir, node?, hs, Option.bind_some, hn]
  cases n with
  | file b x => cases hk
  | dir es => rfl

/-! ## 6. Paths with the same components -/

/-- **Where components lead**, whatever is there. -/
def followed (place : Location) : List Component → Location
  | [] => place
  | .root :: cs => followed [] cs
  | .here :: cs => followed place cs
  | .up :: cs => followed place.dropLast cs
  | .name s :: cs => followed (place ++ [s]) cs

/-- A stretch leads where its component does. -/
theorem followed_component? (place : Location) (s : String) (cs : List Component) :
    followed place ((Path.component? s).toList ++ cs) = followed (stepOf place s) cs := by
  rw [Path.component?, stepOf]
  split
  · rfl
  · split
    · rfl
    · rfl

theorem filterMap_component?_cons (s : String) (segments : List String) :
    (s :: segments).filterMap Path.component?
      = (Path.component? s).toList ++ segments.filterMap Path.component? := by
  rw [List.filterMap_cons]
  cases Path.component? s <;> rfl

/-- The steps of a path lead where its components do. -/
theorem eq_followed_of_foldlM {files : Node} :
    ∀ (segments : List String) {place t : Location},
      segments.foldlM (stepFrom? files) place = some t →
        t = followed place (segments.filterMap Path.component?)
  | [], place, t, h => by
    cases h
    rfl
  | s :: segments, place, t, h => by
    rw [List.foldlM_cons, Option.bind_eq_bind, Option.bind_eq_some_iff] at h
    obtain ⟨u, hu, h⟩ := h
    rw [filterMap_component?_cons, followed_component?, ← (stepFrom?_eq_some.mp hu).2]
    exact eq_followed_of_foldlM segments h

/-- The first stretch of an absolute path is empty. -/
theorem segments_of_isAbsolute {p : Path} (h : p.isAbsolute = true) :
    ∃ rest, p.segments = "" :: rest := by
  rw [Path.isAbsolute, List.isPrefixOf_iff_prefix] at h
  obtain ⟨cs, hcs⟩ := h
  rw [Path.segments, ← hcs]
  exact ⟨(cs.splitOn '/').map String.ofList, rfl⟩

/-- **A path leads where its components do**, if it leads anywhere. -/
theorem place?_eq_followed {h : Host} {p : Path} {t : Location} (hp : h.place? p = some t) :
    t = followed h.cwd p.components := by
  rw [place?] at hp
  split at hp
  · cases hp
  · have ht := eq_followed_of_foldlM _ hp
    rw [Path.components]
    split at ht
    · next ha =>
      obtain ⟨rest, hr⟩ := segments_of_isAbsolute ha
      rw [hr] at ht ⊢
      rw [ht]
      simp only [ha, if_true]
      rfl
    · next ha =>
      cases hs : p.segments with
      | nil => rw [hs] at ht; exact ht
      | cons s rest =>
        rw [hs, filterMap_component?_cons] at ht
        rw [ht]
        by_cases hdot : s = "."
        · simp only [ha, hdot, if_true]
          rfl
        · simp only [ha, hdot, if_false]
          rfl

/-- **Paths with the same components lead to one place**, if both lead anywhere. -/
theorem place?_of_same {h : Host} {p q : Path} (hs : p.same q = true) {s t : Location}
    (hp : h.place? p = some s) (hq : h.place? q = some t) : s = t := by
  rw [place?_eq_followed hp, place?_eq_followed hq, beq_iff_eq.mp hs]

/-! ## 7. What becomes of a machine -/

/-- Making directories takes nothing away. -/
theorem makeDirs_keeps (files : Node) (place : Location) (cs : List Component) (s : Location)
    (k : Node.Kind) (h : files.kindAt? s = some k) :
    (makeDirs files place cs).1.kindAt? s = some k := by
  fun_induction makeDirs files place cs with
  | case1 => exact h
  | case2 files place cs ih => exact ih h
  | case3 files place cs ih => exact ih h
  | case4 files place cs ih => exact ih h
  | case5 files place name cs es hf ih => exact ih h
  | case6 files place name cs bytes x hf => exact h
  | case7 files place name cs hf files' hm ih =>
    obtain ⟨hnone, -, hrest⟩ := Node.makeDir?_spec hm
    refine ih ?_
    rw [hrest s fun hs => ?_]
    · exact h
    · rw [hs, hnone] at h
      cases h
  | case8 files place name cs hf hm => exact h

theorem createParent_keeps (h : Host) (p : Path) : h.Keeps (h.createParent p).1 := by
  rw [createParent]
  split
  · exact ⟨rfl, rfl, fun s k hs => makeDirs_keeps _ _ _ _ _ hs⟩
  · exact ⟨rfl, rfl, fun _ _ hs => hs⟩

/-- **A file that was written holds what was written**, under the path it was written by. -/
theorem write?_spec {h h' : Host} {p : Path} {bytes : List UInt8}
    (hw : h.write? p bytes = some h') : h'.read? p = some bytes ∧ h.KeepsDirs h' := by
  rw [write?, Option.bind_eq_bind, Option.bind_eq_some_iff] at hw
  obtain ⟨t, ht, hw⟩ := hw
  rw [Option.bind_eq_bind, Option.bind_eq_some_iff] at hw
  obtain ⟨files, hf, hw⟩ := hw
  cases hw
  obtain ⟨⟨x, hx⟩, hq, hrest⟩ := Node.putFile?_spec hf
  have hk : h.KeepsDirs { h with files } := by
    refine ⟨rfl, rfl, fun s hs => ?_⟩
    rw [← hs]
    exact hrest s fun hst => hq (hst ▸ hs)
  exact ⟨read?_eq_some.mpr ⟨t, x, place?_of_keepsDirs hk ht, hx⟩, hk⟩

/-- **What a copy leaves at its target**: the bytes of the source, unless both are one file; then
it leaves nothing. -/
theorem copyBytes?_spec {h h' : Host} {source target : Path}
    (hc : h.copyBytes? source target = some h') :
    ∃ s t bytes x, h.place? source = some s ∧ h.place? target = some t ∧
      h.files.kindAt? s = some (.file bytes x) ∧
      h'.read? target = some (if s = t then [] else bytes) ∧ h.KeepsDirs h' := by
  rw [copyBytes?, Option.bind_eq_bind, Option.bind_eq_some_iff] at hc
  obtain ⟨s, hs, hc⟩ := hc
  rw [Option.bind_eq_bind, Option.bind_eq_some_iff] at hc
  obtain ⟨t, ht, hc⟩ := hc
  split at hc
  · next bytes x hfile =>
    obtain ⟨files, hf, hc⟩ := Option.bind_eq_some_iff.mp hc
    obtain ⟨files', hf', hc⟩ := Option.bind_eq_some_iff.mp hc
    cases hc
    obtain ⟨⟨y, hy⟩, hq, hrest⟩ := Node.putFile?_spec hf
    obtain ⟨⟨bytes', y', hy', hx⟩, hrest'⟩ := Node.setExecutable?_spec hf'
    rw [hy] at hy'
    cases hy'
    have hk : h.KeepsDirs { h with files := files' } := by
      refine ⟨rfl, rfl, fun u hu => ?_⟩
      have hut : u ≠ t := fun hut => hq (hut ▸ hu)
      rw [← hu]
      exact (hrest' u hut).trans (hrest u hut)
    refine ⟨s, t, bytes, x, hs, ht, by rw [Node.kindAt?, hfile]; rfl, ?_, hk⟩
    exact read?_eq_some.mpr ⟨t, x, place?_of_keepsDirs hk ht, hx⟩
  · cases hc

/-- **What copying a file leaves at its target**, once the directories around that are made. -/
theorem copyFile_spec {h h' : Host} {source target : Path} {bytes : List UInt8}
    (hr : h.read? source = some bytes) (hc : h.copyFile source target = (h', true)) :
    h'.read? target
        = some (if (h.createParent target).1.place? target = h.place? source then [] else bytes) ∧
      h.KeepsDirs h' := by
  obtain ⟨s, x, hs, hfile⟩ := read?_eq_some.mp hr
  have hkeeps := h.createParent_keeps target
  rw [copyFile] at hc
  generalize h.createParent target = r at hc hkeeps ⊢
  obtain ⟨h₀, made⟩ := r
  cases made with
  | false => cases hc
  | true =>
    dsimp only at hc hkeeps ⊢
    cases hb : h₀.copyBytes? source target with
    | none => rw [hb] at hc; cases hc
    | some h₁ =>
      rw [hb] at hc
      cases hc
      obtain ⟨s', t, bytes', x', hs', ht, hfile', hread, hk⟩ := copyBytes?_spec hb
      -- the source is still where it was, and what it was
      rw [place?_of_keepsDirs hkeeps.keepsDirs hs] at hs'
      cases hs'
      rw [hkeeps.kinds s _ hfile] at hfile'
      cases hfile'
      refine ⟨?_, hkeeps.keepsDirs.trans hk⟩
      rw [hread, ht, hs]
      simp only [Option.some.injEq, eq_comm]

/-! ## 8. Machines that differ in some files only -/

/-- **Two machines differ in nothing but the files at some places.** -/
structure SameBut (places : Location → Prop) (h g : Host) : Prop where
  cwd : h.cwd = g.cwd
  searchPath : h.searchPath = g.searchPath
  dirs : ∀ u, h.files.kindAt? u = some .dir ↔ g.files.kindAt? u = some .dir
  others : ∀ u, ¬ places u → h.files.kindAt? u = g.files.kindAt? u

namespace SameBut

variable {places : Location → Prop} {h g k : Host}

theorem refl (places : Location → Prop) (h : Host) : SameBut places h h :=
  ⟨rfl, rfl, fun _ => Iff.rfl, fun _ _ => rfl⟩

theorem trans (h₁ : SameBut places h g) (h₂ : SameBut places g k) : SameBut places h k :=
  ⟨h₁.cwd.trans h₂.cwd, h₁.searchPath.trans h₂.searchPath,
    fun u => (h₁.dirs u).trans (h₂.dirs u),
    fun u hu => (h₁.others u hu).trans (h₂.others u hu)⟩

theorem place?_eq (hs : SameBut places h g) (p : Path) : h.place? p = g.place? p :=
  Host.place?_congr hs.cwd hs.searchPath hs.dirs p

/-- Writing a file at one of the places. -/
theorem of_write? {p : Path} {u : Location} {bytes : List UInt8} (hu : h.place? p = some u)
    (hplace : places u) (hw : h.write? p bytes = some g) : SameBut places h g := by
  rw [Host.write?, hu] at hw
  obtain ⟨_, hu', hw⟩ := Option.bind_eq_some_iff.mp hw
  cases hu'
  obtain ⟨files, hf, hw⟩ := Option.bind_eq_some_iff.mp hw
  cases hw
  obtain ⟨⟨x, hx⟩, hq, hrest⟩ := Node.putFile?_spec hf
  refine ⟨rfl, rfl, fun v => ?_, fun v hv => (hrest v ?_).symm⟩
  · by_cases hvu : v = u
    · rw [hvu]
      exact iff_of_false hq (by rw [hx]; simp)
    · rw [hrest v hvu]
  · rintro rfl
    exact hv hplace

end SameBut

end Host

end CodeTint
