/-
# What is listed of a tree

`Node.contents` walks through a directory with all it holds.  This file says what it comes to: each
entry is listed with the names that lead to it (`find?_of_mem_contents`), every file is listed that
no directory around it keeps out (`mem_contents_of_file`), and nothing is listed twice
(`nodup_contents`).

The first and the last need **names that are distinct** in each directory (`Node.isDistinct`), which
no change of files takes away (`isDistinct_alter?`).
-/
import CodeTint.Dict
import CodeTint.Proofs.Host.Path

namespace CodeTint

namespace Node

/-! ## 1. Names -/

mutual

/-- Whether the names of every directory pass a test. -/
def allNames (ok : List String → Bool) : Node → Bool
  | .file _ _ => true
  | .dir es => ok (es.map Prod.fst) && allNamesIn ok es

/-- The same for all that some entries hold. -/
def allNamesIn (ok : List String → Bool) : List (String × Node) → Bool
  | [] => true
  | (_, m) :: es => m.allNames ok && allNamesIn ok es

end

/-- **No directory has two entries of one name.** -/
def isDistinct (n : Node) : Bool := n.allNames fun names => decide names.Nodup

/-- **A tree as a machine has it**: the names in a directory are distinct, and they are names that an
entry can have. -/
structure IsTree (n : Node) : Prop where
  distinct : n.isDistinct = true
  named : n.allNames (fun names => names.all isEntryName) = true

section

variable {ok : List String → Bool} {es : List (String × Node)}

theorem allNamesIn_iff : allNamesIn ok es = true ↔ ∀ e ∈ es, e.2.allNames ok = true := by
  induction es with
  | nil => simp [allNamesIn]
  | cons e es ih => simp [allNamesIn, ih]

theorem allNames_dir : (Node.dir es).allNames ok = true
    ↔ ok (es.map Prod.fst) = true ∧ ∀ e ∈ es, e.2.allNames ok = true := by
  rw [allNames, Bool.and_eq_true, allNamesIn_iff]

theorem isDistinct_dir : (Node.dir es).isDistinct = true
    ↔ (es.map Prod.fst).Nodup ∧ ∀ e ∈ es, e.2.isDistinct = true := by
  rw [isDistinct, allNames_dir, decide_eq_true_eq]
  rfl

end

/-- What a name is looked up to is an entry. -/
theorem mem_of_lookup {es : List (String × Node)} {name : String} {m : Node}
    (h : es.lookup name = some m) : (name, m) ∈ es := by
  induction es with
  | nil => cases h
  | cons e es ih =>
    rw [lookup_cons_ite] at h
    split at h
    · next he =>
      cases h
      rw [he]
      exact List.mem_cons_self
    · exact List.mem_cons_of_mem _ (ih h)

/-- An entry is what its name is looked up to, if the names are distinct. -/
theorem lookup_of_mem {es : List (String × Node)} (hd : (es.map Prod.fst).Nodup) {name : String}
    {m : Node} (h : (name, m) ∈ es) : es.lookup name = some m := by
  induction es with
  | nil => cases h
  | cons e es ih =>
    rw [List.map_cons, List.nodup_cons] at hd
    rw [lookup_cons_ite]
    rcases List.mem_cons.mp h with rfl | h
    · rw [if_pos rfl]
    · have hne : name ≠ e.1 := fun he => hd.1 (he ▸ List.mem_map.mpr ⟨_, h, rfl⟩)
      rw [if_neg hne]
      exact ih hd.2 h

/-- What holds of the names of a tree holds of the names of all that is in it. -/
theorem allNames_of_find? {ok : List String → Bool} {n m : Node} {place : Location}
    (h : n.allNames ok = true) (hm : n.find? place = some m) : m.allNames ok = true := by
  induction place generalizing n with
  | nil => cases hm; exact h
  | cons name place ih =>
    obtain ⟨x, hx, hplace⟩ := Option.bind_eq_some_iff.mp hm
    cases n with
    | file bytes y => cases hx
    | dir es => exact ih ((allNames_dir.mp h).2 _ (mem_of_lookup hx)) hplace

/-- **The names that lead to something** are ones that an entry can have. -/
theorem isEntryName_of_find? {n m : Node} {place : Location}
    (h : n.allNames (fun names => names.all isEntryName) = true) (hm : n.find? place = some m) :
    ∀ s ∈ place, isEntryName s = true := by
  induction place generalizing n with
  | nil => exact fun _ hs => absurd hs List.not_mem_nil
  | cons name place ih =>
    obtain ⟨x, hx, hplace⟩ := Option.bind_eq_some_iff.mp hm
    cases n with
    | file bytes y => cases hx
    | dir es =>
      obtain ⟨hnames, hsub⟩ := allNames_dir.mp h
      have hmem := mem_of_lookup hx
      intro s hs
      rcases List.mem_cons.mp hs with rfl | hs
      · exact List.all_eq_true.mp hnames s (List.mem_map_of_mem hmem)
      · exact ih (hsub _ hmem) hplace s hs

/-! ## 2. Changes keep names distinct -/

theorem map_fst_setEntry (name : String) (m : Node) (es : List (String × Node)) :
    (setEntry name m es).map Prod.fst
      = if es.any (fun e => e.1 == name) then es.map Prod.fst else name :: es.map Prod.fst := by
  rw [setEntry]
  split
  · rw [List.map_map]
    refine List.map_congr_left fun e _ => ?_
    rw [Function.comp_apply]
    split
    · next he => exact (beq_iff_eq.mp he).symm
    · rfl
  · rfl

theorem mem_setEntry {name : String} {m : Node} {es : List (String × Node)} {e : String × Node}
    (h : e ∈ setEntry name m es) : e ∈ es ∨ e.2 = m := by
  rw [setEntry] at h
  split at h
  · obtain ⟨x, hx, rfl⟩ := List.mem_map.mp h
    split
    · exact .inr rfl
    · exact .inl hx
  · rcases List.mem_cons.mp h with rfl | h
    · exact .inr rfl
    · exact .inl h

/-- Setting an entry keeps names distinct. -/
theorem isDistinct_setEntry {name : String} {m : Node} {es : List (String × Node)}
    (hd : (Node.dir es).isDistinct = true) (hm : m.isDistinct = true) :
    (Node.dir (setEntry name m es)).isDistinct = true := by
  obtain ⟨hnames, hsub⟩ := isDistinct_dir.mp hd
  refine isDistinct_dir.mpr ⟨?_, fun e he => ?_⟩
  · rw [map_fst_setEntry]
    split
    · exact hnames
    · next hany =>
      refine List.nodup_cons.mpr ⟨fun hmem => hany ?_, hnames⟩
      obtain ⟨e, he, rfl⟩ := List.mem_map.mp hmem
      exact List.any_eq_true.mpr ⟨e, he, beq_self_eq_true _⟩
  · rcases mem_setEntry he with he | he
    · exact hsub e he
    · rw [he]
      exact hm

/-- A leaf has no two entries at all. -/
theorem isDistinct_of_isLeaf {n : Node} (h : n.isLeaf = true) : n.isDistinct = true := by
  cases n with
  | file bytes x => rfl
  | dir es =>
    cases es with
    | nil => rfl
    | cons e es => cases h

/-- **A change of one place keeps names distinct**, given that what is put there is a leaf. -/
theorem isDistinct_alter? {f : Option Node → Option Node} {n n' : Node} {q : Location}
    (hleaf : ∀ o m, f o = some m → m.isLeaf = true) (hn : n.isDistinct = true)
    (h : n.alter? f q = some n') : n'.isDistinct = true := by
  fun_induction alter? f n q generalizing n' with
  | case1 n => exact isDistinct_of_isLeaf (hleaf _ _ h)
  | case2 name es =>
    obtain ⟨m, hm, rfl⟩ := Option.map_eq_some_iff.mp h
    exact isDistinct_setEntry hn (isDistinct_of_isLeaf (hleaf _ _ hm))
  | case3 => cases h
  | case4 name rest hrest es m hl ih =>
    obtain ⟨m', hm', rfl⟩ := Option.map_eq_some_iff.mp h
    exact isDistinct_setEntry hn (ih ((isDistinct_dir.mp hn).2 _ (mem_of_lookup hl)) hm')
  | case5 => cases h
  | case6 => cases h

theorem isDistinct_putFile? {n n' : Node} {bytes : List UInt8} {q : Location}
    (hn : n.isDistinct = true) (h : n.putFile? bytes q = some n') : n'.isDistinct = true := by
  refine isDistinct_alter? (fun o m hm => ?_) hn h
  split at hm
  · cases hm
  · cases hm; rfl
  · cases hm; rfl

theorem isDistinct_setExecutable? {n n' : Node} {x : Bool} {q : Location}
    (hn : n.isDistinct = true) (h : n.setExecutable? x q = some n') : n'.isDistinct = true := by
  refine isDistinct_alter? (fun o m hm => ?_) hn h
  split at hm
  · cases hm; rfl
  · cases hm

theorem isDistinct_makeDir? {n n' : Node} {q : Location} (hn : n.isDistinct = true)
    (h : n.makeDir? q = some n') : n'.isDistinct = true := by
  refine isDistinct_alter? (fun o m hm => ?_) hn h
  split at hm
  · cases hm
  · cases hm; rfl

/-! ## 3. What is listed -/

section

variable {skip : Location → Bool}

theorem mem_contentsOf {lead : Location} {es : List (String × Node)} {x : Location × Node} :
    x ∈ contentsOf skip lead es ↔ ∃ e ∈ es, (e.2.isDir && skip (lead ++ [e.1])) = false ∧
      (x = (lead ++ [e.1], e.2) ∨ x ∈ contents skip (lead ++ [e.1]) e.2) := by
  induction es with
  | nil => simp [contentsOf]
  | cons e es ih =>
    obtain ⟨name, m⟩ := e
    rw [contentsOf, List.mem_append, ih, List.exists_mem_cons_iff]
    refine or_congr_left ?_
    cases hs : m.isDir && skip (lead ++ [name]) <;> simp

mutual

/-- **What is listed is where it is said to be**, if names are distinct. -/
theorem find?_of_mem_contents {x : Location × Node} : ∀ {n : Node} {lead : Location},
    n.isDistinct = true → x ∈ contents skip lead n →
      ∃ r, r ≠ [] ∧ x.1 = lead ++ r ∧ n.find? r = some x.2
  | .file _ _, _, _, h => by simp [contents] at h
  | .dir es, lead, hd, h => by
    obtain ⟨hnames, hsub⟩ := isDistinct_dir.mp hd
    rw [contents] at h
    obtain ⟨name, m, r, hmem, hx, hr⟩ := exists_of_mem_contentsOf hsub h
    refine ⟨name :: r, List.cons_ne_nil _ _, hx, ?_⟩
    rw [find?, entry?_dir, lookup_of_mem hnames hmem]
    exact hr

theorem exists_of_mem_contentsOf {x : Location × Node} :
    ∀ {es : List (String × Node)} {lead : Location},
    (∀ e ∈ es, e.2.isDistinct = true) → x ∈ contentsOf skip lead es →
      ∃ name m r, (name, m) ∈ es ∧ x.1 = lead ++ name :: r ∧ m.find? r = some x.2
  | [], _, _, h => by simp [contentsOf] at h
  | (name, m) :: es, lead, hsub, h => by
    rw [contentsOf] at h
    rcases List.mem_append.mp h with h | h
    · split at h
      · cases h
      · rcases List.mem_cons.mp h with rfl | h
        · exact ⟨name, m, [], List.mem_cons_self, rfl, rfl⟩
        · obtain ⟨r, -, hx, hr⟩ := find?_of_mem_contents (hsub _ List.mem_cons_self) h
          exact ⟨name, m, r, List.mem_cons_self, by rw [hx, List.append_assoc]; rfl, hr⟩
    · obtain ⟨name', m', r, hmem, hx, hr⟩ :=
        exists_of_mem_contentsOf (fun e he => hsub e (List.mem_cons_of_mem _ he)) h
      exact ⟨name', m', r, List.mem_cons_of_mem _ hmem, hx, hr⟩

end

/-- **Every file is listed** that is in no directory that is left out. -/
theorem mem_contents_of_file {n : Node} {lead r : Location} {bytes : List UInt8} {x : Bool}
    (hr : r ≠ []) (h : n.find? r = some (.file bytes x))
    (hskip : ∀ p, p <+: r → p ≠ r → skip (lead ++ p) = false) :
    (lead ++ r, .file bytes x) ∈ contents skip lead n := by
  induction r generalizing n lead with
  | nil => exact absurd rfl hr
  | cons name r ih =>
    obtain ⟨m, hm, hfile⟩ := Option.bind_eq_some_iff.mp h
    cases n with
    | file b y => cases hm
    | dir es =>
      rw [contents, mem_contentsOf]
      refine ⟨(name, m), mem_of_lookup hm, ?_, ?_⟩
      · cases r with
        | nil => cases hfile; rfl
        | cons name' r =>
          rw [hskip [name] ((List.prefix_cons_inj name).mpr List.nil_prefix) (by simp),
            Bool.and_false]
      · cases r with
        | nil => cases hfile; exact .inl rfl
        | cons name' r =>
          right
          have hmem := @ih m (lead ++ [name]) (List.cons_ne_nil _ _) hfile ?_
          · rwa [List.append_assoc] at hmem
          · intro p hp hne
            rw [List.append_assoc]
            exact hskip (name :: p) ((List.prefix_cons_inj name).mpr hp) (by simpa using hne)

/-- All that a directory lists is behind its lead. -/
theorem prefix_of_mem_contents {n : Node} (hd : n.isDistinct = true) {lead : Location}
    {x : Location} (h : x ∈ (contents skip lead n).map Prod.fst) :
    ∃ r, r ≠ [] ∧ x = lead ++ r := by
  obtain ⟨e, he, rfl⟩ := List.mem_map.mp h
  obtain ⟨r, hr, hx, -⟩ := find?_of_mem_contents hd he
  exact ⟨r, hr, hx⟩

/-- **Nothing is listed below a directory that is left out.** -/
theorem skip_of_mem_contents {n m : Node} {lead r p : Location} (hd : n.isDistinct = true)
    (h : (lead ++ r, m) ∈ contents skip lead n) (hp : p <+: r) (hne : p ≠ []) (hpr : p ≠ r) :
    skip (lead ++ p) = false := by
  induction r generalizing n lead p with
  | nil => exact absurd (List.prefix_nil.mp hp) hne
  | cons name r ih =>
    cases n with
    | file b x => simp [contents] at h
    | dir es =>
      obtain ⟨-, hsub⟩ := isDistinct_dir.mp hd
      rw [contents, mem_contentsOf] at h
      obtain ⟨⟨name', n⟩, he, hskip, hhere | hbelow⟩ := h
      · -- around an entry of the directory itself there is only the directory
        have hr : name :: r = [name'] := List.append_cancel_left (Prod.ext_iff.mp hhere).1
        obtain ⟨-, rfl⟩ := List.cons.inj hr
        rcases List.prefix_cons_iff.mp hp with hnil | ⟨p', hp', hpre⟩
        · exact absurd hnil hne
        · exact absurd (by rw [hp', List.prefix_nil.mp hpre]) hpr
      · obtain ⟨r', -, hx⟩ := prefix_of_mem_contents (hsub _ he) (List.mem_map_of_mem hbelow)
        rw [List.append_assoc] at hx
        obtain ⟨rfl, rfl⟩ := List.cons.inj (List.append_cancel_left hx)
        rcases List.prefix_cons_iff.mp hp with hnil | ⟨p', rfl, hpre⟩
        · exact absurd hnil hne
        · rw [List.append_cons lead name r] at hbelow
          rw [List.append_cons lead name p']
          rcases eq_or_ne p' [] with rfl | hnil
          · have hdir : n.isDir = true := by
              cases n with
              | dir es => rfl
              | file b x => simp [contents] at hbelow
            rwa [hdir, Bool.true_and, ← List.append_nil (lead ++ [name])] at hskip
          · exact ih (hsub _ he) hbelow hpre hnil fun he => hpr (by rw [he])

mutual

/-- **Nothing is listed twice**, if names are distinct. -/
theorem nodup_contents : ∀ {n : Node} {lead : Location}, n.isDistinct = true →
    ((contents skip lead n).map Prod.fst).Nodup
  | .file _ _, _, _ => by simp [contents]
  | .dir es, lead, hd => by
    obtain ⟨hnames, hsub⟩ := isDistinct_dir.mp hd
    rw [contents]
    exact nodup_contentsOf hnames hsub

theorem nodup_contentsOf : ∀ {es : List (String × Node)} {lead : Location},
    (es.map Prod.fst).Nodup → (∀ e ∈ es, e.2.isDistinct = true) →
      ((contentsOf skip lead es).map Prod.fst).Nodup
  | [], _, _, _ => by simp [contentsOf]
  | (name, m) :: es, lead, hnames, hsub => by
    rw [List.map_cons, List.nodup_cons] at hnames
    have hm := hsub _ List.mem_cons_self
    have hrest := fun e he => hsub e (List.mem_cons_of_mem (name, m) he)
    rw [contentsOf, List.map_append, List.nodup_append]
    refine ⟨?_, nodup_contentsOf hnames.2 hrest, fun x hx y hy hxy => ?_⟩
    · split
      · exact List.nodup_nil
      · rw [List.map_cons, List.nodup_cons]
        refine ⟨fun h => ?_, nodup_contents hm⟩
        obtain ⟨r, hr, he⟩ := prefix_of_mem_contents hm h
        exact hr (List.self_eq_append_right.mp he)
    · -- what follows begins with another name
      obtain ⟨r, hr⟩ : ∃ r, x = lead ++ name :: r := by
        split at hx
        · cases hx
        · rcases List.mem_cons.mp hx with rfl | hx
          · exact ⟨[], rfl⟩
          · obtain ⟨r, -, he⟩ := prefix_of_mem_contents hm hx
            exact ⟨r, by rw [he, List.append_assoc]; rfl⟩
      obtain ⟨e, he, rfl⟩ := List.mem_map.mp hy
      obtain ⟨name', m', r', hmem, he', -⟩ := exists_of_mem_contentsOf hrest he
      rw [hr, he'] at hxy
      have hname := (List.cons.inj (List.append_cancel_left hxy)).1
      exact hnames.1 (hname ▸ List.mem_map.mpr ⟨_, hmem, rfl⟩)

end

end

/-! ## 4. The files of a tree -/

theorem bytes?_eq_some {n : Node} {place : Location} {bytes : List UInt8} :
    n.bytes? place = some bytes ↔ ∃ x, n.kindAt? place = some (.file bytes x) := by
  rw [bytes?, kindAt?]
  cases n.find? place with
  | none => simp
  | some m => cases m <;> simp [kind]

/-- The bytes at a place are a matter of what is there. -/
theorem bytes?_congr {n n' : Node} {p q : Location} (h : n'.kindAt? p = n.kindAt? q) :
    n'.bytes? p = n.bytes? q := by
  refine Option.ext fun b => ?_
  rw [bytes?_eq_some, bytes?_eq_some, h]

/-- There are no bytes but those of a file. -/
theorem bytes?_eq_none_of_dir {n : Node} {place : Location} (h : n.kindAt? place = some .dir) :
    n.bytes? place = none := by
  rw [Option.eq_none_iff_forall_not_mem]
  intro b hb
  obtain ⟨x, hx⟩ := bytes?_eq_some.mp hb
  rw [h] at hx
  cases hx

theorem bytes?_append {n m : Node} {p : Location} (h : n.find? p = some m) (r : Location) :
    n.bytes? (p ++ r) = m.bytes? r := by
  rw [bytes?, bytes?, find?_append, h]
  rfl

/-- Where nothing is, there is nothing below either. -/
theorem kindAt?_append_of_none {n : Node} {p : Location} (h : n.kindAt? p = none) (r : Location) :
    n.kindAt? (p ++ r) = none := by
  rw [kindAt?, Option.map_eq_none_iff] at h ⊢
  rw [find?_append, h]
  rfl

theorem bytes?_append_of_none {n : Node} {p : Location} (h : n.kindAt? p = none) (r : Location) :
    n.bytes? (p ++ r) = none := by
  rw [bytes?, Option.map_eq_none_iff.mp (kindAt?_append_of_none h r)]

/-- Where there are bytes, there is something. -/
theorem exists_of_bytes? {n : Node} {p : Location} (h : (n.bytes? p).isSome = true) :
    ∃ m, n.find? p = some m := by
  obtain ⟨bytes, hb⟩ := Option.isSome_iff_exists.mp h
  obtain ⟨x, hx⟩ := bytes?_eq_some.mp hb
  obtain ⟨m, hm, -⟩ := Option.map_eq_some_iff.mp hx
  exact ⟨m, hm⟩

theorem IsTree.isEntryName_of_bytes? {n : Node} (hn : n.IsTree) {p : Location}
    (h : (n.bytes? p).isSome = true) : ∀ s ∈ p, isEntryName s = true := by
  obtain ⟨m, hm⟩ := exists_of_bytes? h
  exact isEntryName_of_find? hn.named hm

/-- The names of the files among some entries. -/
def fileNames (listed : List (Location × Node)) : List Location :=
  listed.filterMap fun (names, m) => if m.isDir then none else some names

theorem fileNames_cons (names : Location) (m : Node) (listed : List (Location × Node)) :
    fileNames ((names, m) :: listed)
      = if m.isDir then fileNames listed else names :: fileNames listed := by
  rw [fileNames, List.filterMap_cons]
  cases h : m.isDir <;> simp [h, fileNames]

theorem mem_fileNames {listed : List (Location × Node)} {r : Location} :
    r ∈ fileNames listed ↔ ∃ bytes x, (r, .file bytes x) ∈ listed := by
  induction listed with
  | nil => simp [fileNames]
  | cons e listed ih =>
    obtain ⟨names, m⟩ := e
    rw [fileNames_cons]
    cases m <;> simp [isDir, ih, exists_or]

theorem nodup_fileNames {listed : List (Location × Node)} (h : (listed.map Prod.fst).Nodup) :
    (fileNames listed).Nodup := by
  have hsub : (fileNames listed).Sublist (listed.map Prod.fst) := by
    induction listed with
    | nil => exact List.Sublist.refl _
    | cons e listed ih =>
      rw [List.map_cons, List.nodup_cons] at h
      rw [fileNames_cons]
      split
      · exact (ih h.2).cons _
      · exact (ih h.2).cons_cons _
  exact hsub.nodup h

/-- **The files that are listed** are those that there are in no directory that is left out. -/
theorem mem_fileNames_contents {skip : Location → Bool} {n : Node} (hd : n.isDistinct = true)
    (hn : n.bytes? [] = none) {r : Location}
    (hskip : ∀ p, p <+: r → p ≠ r → skip p = false) :
    r ∈ fileNames (contents skip [] n) ↔ (n.bytes? r).isSome = true := by
  rw [mem_fileNames, Option.isSome_iff_exists]
  constructor
  · rintro ⟨bytes, x, h⟩
    obtain ⟨r', -, hr', hf⟩ := find?_of_mem_contents hd h
    cases hr'
    exact ⟨bytes, bytes?_eq_some.mpr ⟨x, by rw [kindAt?, hf]; rfl⟩⟩
  · rintro ⟨bytes, h⟩
    obtain ⟨x, hx⟩ := bytes?_eq_some.mp h
    obtain ⟨m, hm, hk⟩ := Option.map_eq_some_iff.mp hx
    have hne : r ≠ [] := by
      rintro rfl
      rw [hn] at h
      cases h
    cases m with
    | dir es => cases hk
    | file b y => exact ⟨b, y, mem_contents_of_file hne hm hskip⟩

/-- **The files that are listed** if a place is left out: those that are not below it. -/
theorem mem_fileNames_outside {n : Node} {s t : Location} (hd : n.isDistinct = true)
    (hn : n.bytes? [] = none) (hst : s ≠ t) (ht : ∀ r, s ++ r = t → n.bytes? r = none)
    {r : Location} : r ∈ fileNames (contents (fun names => s ++ names == t) [] n)
      ↔ (n.bytes? r).isSome = true ∧ ¬ (s <+: t ∧ t <+: s ++ r) := by
  constructor
  · intro hmem
    obtain ⟨b, x, hmem⟩ := mem_fileNames.mp hmem
    obtain ⟨r', -, hr', hf⟩ := find?_of_mem_contents hd hmem
    cases hr'
    have hb : n.bytes? r = some b := bytes?_eq_some.mpr ⟨x, by rw [kindAt?, hf]; rfl⟩
    refine ⟨by rw [hb]; rfl, ?_⟩
    rintro ⟨⟨p, rfl⟩, hpre⟩
    have hp : p <+: r := (List.prefix_append_right_inj s).mp hpre
    have hne : p ≠ [] := fun he => hst (by rw [he, List.append_nil])
    have hpr : p ≠ r := fun he => by
      rw [ht r (by rw [he])] at hb
      cases hb
    have hskip : (s ++ p == s ++ p) = false :=
      @skip_of_mem_contents (fun names => s ++ names == s ++ p) n _ [] r p hd hmem hp hne hpr
    simp at hskip
  · rintro ⟨hb, hout⟩
    refine (mem_fileNames_contents hd hn fun p hp _ => ?_).mpr hb
    refine beq_eq_false_iff_ne.mpr fun he => hout ?_
    rw [← he]
    exact ⟨List.prefix_append _ _, (List.prefix_append_right_inj s).mpr hp⟩

end Node

end CodeTint
