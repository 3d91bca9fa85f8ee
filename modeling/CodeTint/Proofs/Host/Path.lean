/-
# Where paths lead that are put together

What is walked through is named by paths that are built up: an entry of a directory is the
directory's path with a name behind it.  This file says what components such a path has, given that
the names are ones that an entry can have (`isEntryName`): those of the directory, and the names
(`components_below`, `components_joinNames`).  So it leads to the place of the directory with the
names behind it (`followed_names`).

Paths are put in order by their components, and that order is a total one (`listLe_total`,
`listLe_antisymm`).
-/
import CodeTint.Proofs.Host.Files
import Mathlib.Data.List.Basic

namespace CodeTint

/-- **A name that an entry of a directory can have.** -/
def isEntryName (s : String) : Bool :=
  s != "" && s != "." && s != ".." && !s.toList.contains '/'

namespace Path

/-! ## 1. Stretches between slashes -/

theorem segments_slash (a b : String) :
    (Path.mk (a ++ "/" ++ b)).segments = (Path.mk a).segments ++ (Path.mk b).segments := by
  have h : (a ++ "/" ++ b).toList = a.toList ++ '/' :: b.toList := by simp
  rw [segments, h, List.splitOn_append_cons_self, List.map_append]
  rfl

/-- A path has at least one stretch. -/
theorem exists_segments (p : Path) : ∃ s rest, p.segments = s :: rest := by
  have h : p.segments ≠ [] := by simp [segments, List.splitOn_ne_nil]
  exact List.exists_cons_of_ne_nil h

theorem endsWith_slash {a : String} (h : a.endsWith "/" = true) : ∃ b : String, a = b ++ "/" := by
  rw [← String.endsWith_toSlice, String.Slice.endsWith_string_iff, String.copy_toSlice] at h
  obtain ⟨front, hf⟩ := h
  refine ⟨String.ofList front, String.toList_inj.mp ?_⟩
  rw [String.toList_append, String.toList_ofList, hf]

/-- A text that is not empty decides whether the path starts at the root. -/
theorem isAbsolute_append {a : String} (h : a ≠ "") (b : String) :
    (Path.mk (a ++ b)).isAbsolute = (Path.mk a).isAbsolute := by
  have hne : a.toList ≠ [] := by simpa using h
  obtain ⟨c, cs, hc⟩ := List.exists_cons_of_ne_nil hne
  rw [isAbsolute, isAbsolute, String.toList_append, hc]
  rfl

/-! ## 2. Components -/

/-- What the stretches of a path say behind the first one. -/
theorem components_cons {p : Path} {s : String} {rest : List String} (h : p.segments = s :: rest) :
    p.components
      = (if p.isAbsolute then [.root] else if s = "." then [.here] else (component? s).toList)
        ++ rest.filterMap component? := by
  rw [components, h]

/-- Two paths that begin with the same stretch differ by what follows. -/
theorem components_append {p q : Path} {s : String} {rest more : List String}
    (ha : q.isAbsolute = p.isAbsolute) (hp : p.segments = s :: rest)
    (hq : q.segments = s :: (rest ++ more)) :
    q.components = p.components ++ more.filterMap component? := by
  rw [components_cons hp, components_cons hq, ha, List.filterMap_append, List.append_assoc]

/-- A relative path that does not begin with a `.` says what its stretches say. -/
theorem components_relative {q : Path} (ha : q.isAbsolute = false)
    (hd : q.segments.head? ≠ some ".") : q.components = q.segments.filterMap component? := by
  obtain ⟨s, rest, hs⟩ := q.exists_segments
  rw [hs, List.head?_cons, ne_eq, Option.some.injEq] at hd
  rw [components_cons hs, ha, if_neg Bool.false_ne_true, if_neg hd, hs,
    Host.filterMap_component?_cons]

/-- **The components of a path behind another.** -/
theorem components_join {p q : Path} (ha : q.isAbsolute = false)
    (hd : q.segments.head? ≠ some ".") :
    (p.join q).components = p.components ++ q.segments.filterMap component? := by
  obtain ⟨s, rest, hs⟩ := p.exists_segments
  rw [join, ha, if_neg Bool.false_ne_true]
  by_cases hempty : p.text = ""
  · obtain ⟨text⟩ := p
    cases hempty
    rw [if_pos (.inl rfl), String.empty_append, components_relative ha hd]
    rfl
  · have habs := isAbsolute_append hempty
    split
    · next h =>
      -- the empty stretch behind the last slash gives way to what is joined
      obtain ⟨b, hb⟩ := endsWith_slash (h.resolve_left hempty)
      obtain ⟨s', rest', hs'⟩ := (Path.mk b).exists_segments
      have hp : p.segments = s' :: (rest' ++ [""]) := by
        have hslash := segments_slash b ""
        rw [String.append_empty, ← hb, hs'] at hslash
        exact hslash
      have hq : (Path.mk (p.text ++ q.text)).segments = s' :: (rest' ++ q.segments) := by
        have hslash := segments_slash b q.text
        rw [← hb, hs'] at hslash
        exact hslash
      have hpb : p.components = (if p.isAbsolute then [.root] else if s' = "." then [.here] else
          (component? s').toList) ++ rest'.filterMap component? := by
        rw [components_cons hp, List.filterMap_append]
        simp [component?]
      rw [components_cons hq, habs, hpb, List.filterMap_append, List.append_assoc]
    · refine components_append ((String.append_assoc ▸ habs _ :)) hs ?_
      have hslash := segments_slash p.text q.text
      rw [hs] at hslash
      exact hslash

/-! ## 3. Names -/

theorem component?_of_isEntryName {s : String} (h : isEntryName s = true) :
    component? s = some (.name s) := by
  simp only [isEntryName, Bool.and_eq_true, bne_iff_ne] at h
  obtain ⟨⟨⟨h1, h2⟩, h3⟩, -⟩ := h
  rw [component?, if_neg (not_or.mpr ⟨h1, h2⟩), if_neg h3]

theorem filterMap_component? {names : List String} (h : ∀ s ∈ names, isEntryName s = true) :
    names.filterMap component? = names.map .name := by
  rw [← List.filterMap_eq_map]
  exact List.filterMap_congr fun s hs => component?_of_isEntryName (h s hs)

/-- The stretches of names with slashes between are the names. -/
theorem segments_intercalate {names : List String} (h : ∀ s ∈ names, isEntryName s = true)
    (hne : names ≠ []) : (Path.mk ("/".intercalate names)).segments = names := by
  have hslash : ∀ l ∈ names.map String.toList, '/' ∉ l := by
    intro l hl
    obtain ⟨s, hs, rfl⟩ := List.mem_map.mp hl
    have hs := h s hs
    simp only [isEntryName, Bool.and_eq_true, Bool.not_eq_true', List.contains_eq_mem,
      decide_eq_false_iff_not] at hs
    exact hs.2
  rw [segments, String.toList_intercalate]
  show (List.splitOn '/' (['/'].intercalate _)).map String.ofList = names
  rw [List.splitOn_intercalate '/' hslash (by simpa using hne), List.map_map]
  simp [Function.comp_def]

theorem segments_name {name : String} (h : isEntryName name = true) :
    (Path.mk name).segments = [name] := by
  have hs := @segments_intercalate [name] (by simpa using h) (by simp)
  rwa [String.intercalate_singleton] at hs

theorem isAbsolute_name {name : String} (h : isEntryName name = true) :
    (Path.mk name).isAbsolute = false := by
  refine Bool.eq_false_iff.mpr fun ha => ?_
  obtain ⟨rest, hr⟩ := Host.segments_of_isAbsolute ha
  rw [segments_name h] at hr
  rw [(List.cons.inj hr).1] at h
  cases h

/-- **The components of names behind a path.** -/
theorem components_joinNames (p : Path) {names : List String}
    (h : ∀ s ∈ names, isEntryName s = true) :
    (p.join ⟨"/".intercalate names⟩).components = p.components ++ names.map .name := by
  cases names with
  | nil => exact components_join rfl (by decide)
  | cons s names =>
    have hs := segments_intercalate h (List.cons_ne_nil _ _)
    have hne := h s List.mem_cons_self
    simp only [isEntryName, Bool.and_eq_true, bne_iff_ne, ne_eq] at hne
    have ha : (Path.mk ("/".intercalate (s :: names))).isAbsolute = false := by
      refine Bool.eq_false_iff.mpr fun ha => ?_
      obtain ⟨rest, hr⟩ := Host.segments_of_isAbsolute ha
      rw [hs] at hr
      exact hne.1.1.1 (List.cons.inj hr).1
    have hd : (Path.mk ("/".intercalate (s :: names))).segments.head? ≠ some "." := by
      rw [hs, List.head?_cons, ne_eq, Option.some.injEq]
      exact hne.1.1.2
    rw [components_join ha hd, hs, filterMap_component? h]

theorem components_child (p : Path) {name : String} (h : isEntryName name = true) :
    (p.child name).components = p.components ++ [.name name] := by
  have hj := @components_joinNames p [name] (by simpa using h)
  rwa [String.intercalate_singleton] at hj

end Path

namespace Host

/-- **The components of the path of something below a path.** -/
theorem components_below (p : Path) {names : Location} (h : ∀ s ∈ names, isEntryName s = true) :
    (below p names).components = p.components ++ names.map .name := by
  induction names generalizing p with
  | nil => simp [below]
  | cons s names ih =>
    rw [below, List.foldl_cons, ← below, ih _ fun x hx => h x (List.mem_cons_of_mem _ hx),
      Path.components_child p (h s List.mem_cons_self), List.append_assoc]
    rfl

theorem followed_append (place : Location) (cs ds : List Component) :
    followed place (cs ++ ds) = followed (followed place cs) ds := by
  fun_induction followed place cs with
  | case1 => rfl
  | case2 place cs ih => exact ih
  | case3 place cs ih => exact ih
  | case4 place cs ih => exact ih
  | case5 place s cs ih => exact ih

/-- Names lead straight on. -/
theorem followed_names (place : Location) (names : List String) :
    followed place (names.map .name) = place ++ names := by
  induction names generalizing place with
  | nil => simp [followed]
  | cons s names ih => rw [List.map_cons, followed, ih, List.append_assoc]; rfl

/-! ## 4. Places -/

/-- The stretches of the path of an entry: a name behind those of the directory, of which the last
gives way if it is empty. -/
theorem segments_child (p : Path) (hp : p.text ≠ "") {name : String}
    (h : isEntryName name = true) :
    ∃ front, (p.child name).segments = front ++ [name] ∧
      (p.segments = front ∨ p.segments = front ++ [""]) := by
  have hname := Path.segments_name h
  rw [Path.child, Path.join, Path.isAbsolute_name h, if_neg Bool.false_ne_true]
  split
  · next he =>
    obtain ⟨b, hb⟩ := Path.endsWith_slash (he.resolve_left hp)
    refine ⟨(Path.mk b).segments, ?_, .inr ?_⟩
    · rw [hb, Path.segments_slash, hname]
    · have hslash := Path.segments_slash b ""
      rwa [String.append_empty, ← hb] at hslash
  · exact ⟨p.segments, by rw [Path.segments_slash, hname], .inl rfl⟩

/-- **The path of an entry leads behind the directory.** -/
theorem place?_child {h : Host} {p : Path} {t : Location} {name : String}
    (hp : h.place? p = some t) (hd : h.files.kindAt? t = some .dir)
    (hn : isEntryName name = true) : h.place? (p.child name) = some (t ++ [name]) := by
  rw [place?] at hp
  split at hp
  · cases hp
  · next hne =>
    obtain ⟨front, hs, hfront⟩ := segments_child p hne hn
    -- an empty stretch at the end leads nowhere else
    have hlead : front.foldlM (stepFrom? h.files) (if p.isAbsolute then [] else h.cwd) = some t := by
      rcases hfront with hf | hf
      · rwa [hf] at hp
      · rw [hf, List.foldlM_append, Option.bind_eq_bind, Option.bind_eq_some_iff] at hp
        obtain ⟨u, hu, hp⟩ := hp
        rw [List.foldlM_cons, Option.bind_eq_bind, Option.bind_eq_some_iff] at hp
        obtain ⟨v, hv, hp⟩ := hp
        cases hp
        obtain ⟨-, rfl⟩ := stepFrom?_eq_some.mp hv
        exact hu
    have hlast : stepFrom? h.files t name = some (t ++ [name]) := by
      refine stepFrom?_eq_some.mpr ⟨hd, ?_⟩
      simp only [isEntryName, Bool.and_eq_true, bne_iff_ne] at hn
      rw [stepOf, if_neg (not_or.mpr ⟨hn.1.1.1, hn.1.1.2⟩), if_neg hn.1.2]
    have habs : (p.child name).isAbsolute = p.isAbsolute := by
      rw [Path.child, Path.join, Path.isAbsolute_name hn, if_neg Bool.false_ne_true]
      split
      · exact Path.isAbsolute_append hne _
      · rw [String.append_assoc]
        exact Path.isAbsolute_append hne _
    have htext : (p.child name).text ≠ "" := by
      intro he
      have hempty : (p.child name).segments = [""] := by
        rw [Path.segments, he]
        rfl
      rw [hs] at hempty
      have hlast := congrArg List.getLast? hempty
      rw [List.getLast?_append, List.getLast?_singleton, List.getLast?_singleton] at hlast
      cases hlast
      cases hn
    rw [place?, if_neg htext, habs, hs, List.foldlM_append, hlead]
    simp [hlast]

/-- **The path of something below a directory leads there.** -/
theorem place?_below {h : Host} {p : Path} {t names : Location} {m : Node}
    (hp : h.place? p = some t) (hm : h.files.find? (t ++ names) = some m)
    (hn : ∀ s ∈ names, isEntryName s = true) : h.place? (below p names) = some (t ++ names) := by
  induction names generalizing p t with
  | nil => rwa [List.append_nil]
  | cons s names ih =>
    have hd : h.files.kindAt? t = some .dir := by
      rw [Node.find?_append] at hm
      obtain ⟨n, hn, hm⟩ := Option.bind_eq_some_iff.mp hm
      cases n with
      | file bytes x => cases hm
      | dir es => rw [Node.kindAt?, hn]; rfl
    have hchild := place?_child hp hd (hn s List.mem_cons_self)
    rw [List.append_cons] at hm ⊢
    exact ih hchild hm fun x hx => hn x (List.mem_cons_of_mem _ hx)

/-- **Where a path can lead**: to a directory, or to an entry of one. -/
theorem place?_cases {h : Host} {p : Path} {u : Location} (hu : h.place? p = some u) :
    h.files.kindAt? u = some .dir ∨
      ∃ front name, u = front ++ [name] ∧ h.files.kindAt? front = some .dir := by
  rw [place?] at hu
  split at hu
  · cases hu
  · obtain ⟨s, rest, hs⟩ := p.exists_segments
    obtain ⟨front, last, hsplit⟩ :=
      (List.eq_nil_or_concat' p.segments).resolve_left (by simp [hs])
    rw [hsplit, List.foldlM_append] at hu
    obtain ⟨place, -, hlast⟩ := Option.bind_eq_some_iff.mp hu
    rw [List.foldlM_cons] at hlast
    obtain ⟨v, hv, hnil⟩ := Option.bind_eq_some_iff.mp hlast
    cases hnil
    -- the last step decides
    obtain ⟨hdir, rfl⟩ := stepFrom?_eq_some.mp hv
    rw [stepOf]
    split
    · exact .inl hdir
    · split
      · exact .inl (Node.kindAt?_dropLast hdir)
      · exact .inr ⟨place, last, rfl, hdir⟩

end Host

/-! ## 5. The order of paths -/

namespace Component

theorem le_total (a b : Component) : (a.le b || b.le a) = true := by
  cases a <;> cases b <;> simp [le, rank, String.le_total]

theorem le_trans {a b c : Component} (hab : a.le b = true) (hbc : b.le c = true) :
    a.le c = true := by
  cases a <;> cases b <;> cases c <;> simp_all [le, rank]
  exact String.le_trans hab hbc

theorem le_antisymm {a b : Component} (hab : a.le b = true) (hba : b.le a = true) : a = b := by
  cases a <;> cases b <;> simp_all [le, rank]
  exact String.le_antisymm hab hba

theorem listLe_total (as bs : List Component) : (listLe as bs || listLe bs as) = true := by
  fun_induction listLe as bs with
  | case1 => rfl
  | case2 => rfl
  | case3 a as bs ih => simpa [listLe] using ih
  | case4 a as b bs hne =>
    rw [listLe, if_neg (Ne.symm hne)]
    exact le_total a b

theorem listLe_trans {as bs cs : List Component} (hab : listLe as bs = true)
    (hbc : listLe bs cs = true) : listLe as cs = true := by
  induction as generalizing bs cs with
  | nil => rfl
  | cons a as ih =>
    cases bs with
    | nil => cases hab
    | cons b bs =>
      cases cs with
      | nil => cases hbc
      | cons c cs =>
        rw [listLe] at hab hbc ⊢
        by_cases hab' : a = b
        · rw [if_pos hab'] at hab
          subst hab'
          by_cases hbc' : a = c
          · rw [if_pos hbc'] at hbc ⊢
            exact ih hab hbc
          · rw [if_neg hbc'] at hbc ⊢
            exact hbc
        · rw [if_neg hab'] at hab
          by_cases hbc' : b = c
          · rw [← hbc', if_neg hab']
            exact hab
          · rw [if_neg hbc'] at hbc
            have hac : a ≠ c := by
              rintro rfl
              exact hab' (le_antisymm hab hbc)
            rw [if_neg hac]
            exact le_trans hab hbc

theorem listLe_antisymm {as bs : List Component} (hab : listLe as bs = true)
    (hba : listLe bs as = true) : as = bs := by
  fun_induction listLe as bs with
  | case1 bs =>
    cases bs with
    | nil => rfl
    | cons b bs => cases hba
  | case2 => cases hab
  | case3 a as bs ih =>
    rw [listLe, if_pos rfl] at hba
    rw [ih hab hba]
  | case4 a as b bs hne =>
    rw [listLe, if_neg (Ne.symm hne)] at hba
    exact absurd (le_antisymm hab hba) hne

end Component

end CodeTint
