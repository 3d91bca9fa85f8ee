/-
# Whether the file that is found is the one that is started

A call finds a file on its own search path and then hands the path of that file to the system, which
has a rule of its own: **a path with a slash in it is followed, a bare name is looked up on the
search path of the environment**.  The two agree as long as what was found has a slash in its path.

A bare name is found in one way only, below the empty entry of the search path, when no entry in
front of it has the file (`isBare_of_located`).  Then the environment decides what is started: the
same file, another one, or none at all (`bare_name_goes_elsewhere`).  So **the environment has no
say just if the path that is found is no bare name** (`located_is_started_iff`).
-/
import CodeTint.Proofs.Tool.Invoke
import CodeTint.Tool.Shell
import Mathlib.Algebra.Order.BigOperators.Group.List
import Mathlib.Algebra.Order.Group.Nat

namespace CodeTint

/-! ## 1. Bare names -/

/-- **A bare name**: a path without a slash. -/
def Path.isBare (p : Path) : Bool := !p.text.toList.contains '/'

namespace Path

theorem isBare_iff {p : Path} : p.isBare = true ↔ '/' ∉ p.text.toList := by
  rw [isBare, Bool.not_eq_true', List.contains_eq_mem, decide_eq_false_iff_not]

/-- A bare name is one stretch. -/
theorem segments_of_isBare {p : Path} (h : p.isBare = true) : p.segments = [p.text] := by
  rw [segments, List.splitOn_eq_singleton (isBare_iff.mp h), List.map_singleton,
    String.ofList_toList]

theorem isAbsolute_of_isBare {p : Path} (h : p.isBare = true) : p.isAbsolute = false := by
  refine Bool.eq_false_iff.mpr fun ha => isBare_iff.mp h ?_
  obtain ⟨rest, hr⟩ := List.isPrefixOf_iff_prefix.mp ha
  rw [← hr]
  exact List.mem_append_left _ (by decide)

/-- **Only below the empty path a path is a bare name**, if it is one by itself. -/
theorem isBare_join {dir p : Path} :
    (dir.join p).isBare = true ↔ dir.text = "" ∧ p.isBare = true := by
  rw [join]
  split
  · next ha =>
    have hslash : p.isBare = false := by
      by_contra hb
      rw [isAbsolute_of_isBare (Bool.not_eq_false _ ▸ hb)] at ha
      cases ha
    simp [hslash]
  · split
    · next hdir =>
      by_cases hempty : dir.text = ""
      · simp [isBare, hempty]
      · obtain ⟨b, hb⟩ := endsWith_slash (hdir.resolve_left hempty)
        simp [isBare, hb]
    · next hdir =>
      have hempty : dir.text ≠ "" := fun h => hdir (.inl h)
      simp [isBare, hempty]

end Path

/-- A bare name does not say itself where its file is. -/
theorem hasDirectory_of_isBare {name : String} (h : (Path.mk name).isBare = true) :
    hasDirectory name = false := by
  have hlen : (Path.mk name).components.length ≤ 1 := by
    rw [Path.components_cons (Path.segments_of_isBare h), Path.isAbsolute_of_isBare h,
      if_neg Bool.false_ne_true, List.filterMap_nil, List.append_nil]
    split
    · exact Nat.le_refl 1
    · cases Path.component? name <;> simp
  rw [hasDirectory, decide_eq_false_iff_not]
  omega

namespace Host

variable {h : Host} {name dirs : String} {found : Path}

/-! ## 2. What is found -/

/-- **The entry that decides**: the first one of a search path that leads to an executable file of
the name. -/
def Decides (h : Host) (name dirs : String) (dir : Path) : Prop :=
  ∃ front back, searchEntries dirs = front ++ dir :: back ∧
    h.isExecutable (dir.join ⟨name⟩) = true ∧
    ∀ other ∈ front, h.isExecutable (other.join ⟨name⟩) = false

/-- What is found is the first candidate that is an executable file. -/
theorem locate_eq_ok {searchPath : Option String} :
    h.locate name searchPath = .ok found ↔
      ∃ dirs, searchPath = some dirs ∧ dirs ≠ "" ∧
        (h.candidates name dirs).find? h.isExecutable = some found := by
  unfold locate
  split
  · simp
  · simp
  · next dirs hne =>
    have hdirs : dirs ≠ "" := fun h => hne h
    split
    · next p hp => simp [hdirs, hp]
    · next hnone => simp [hnone]

/-- A name without a directory is found below the entry that decides. -/
theorem find?_candidates (hd : hasDirectory name = false) :
    (h.candidates name dirs).find? h.isExecutable = some found ↔
      ∃ dir, h.Decides name dirs dir ∧ found = dir.join ⟨name⟩ := by
  rw [candidates_eq hd, List.find?_map, Option.map_eq_some_iff]
  refine exists_congr fun dir => ?_
  rw [List.find?_eq_some_iff_append, Decides]
  refine and_congr ?_ eq_comm
  constructor
  · rintro ⟨hx, front, back, he, hno⟩
    exact ⟨front, back, he, hx, fun other ho => by simpa using hno other ho⟩
  · rintro ⟨front, back, he, hx, hno⟩
    exact ⟨hx, front, back, he, fun other ho => by simpa using hno other ho⟩

/-- **A bare name is found below the empty entry**, and only there. -/
theorem isBare_of_located (hl : h.locate name (some dirs) = .ok found) :
    found.isBare = true ↔ (Path.mk name).isBare = true ∧ h.Decides name dirs ⟨""⟩ := by
  obtain ⟨dirs', hdirs, -, hfind⟩ := locate_eq_ok.mp hl
  cases hdirs
  constructor
  · intro hbare
    cases hd : hasDirectory name with
    | true =>
      -- such a name is followed from the working directory, whose path has a slash
      rw [candidates, hd, if_pos rfl] at hfind
      have hmem := List.mem_of_find?_eq_some hfind
      rw [List.mem_singleton.mp hmem, Path.isBare_join, cwdPath] at hbare
      simp at hbare
    | false =>
      obtain ⟨dir, hdec, rfl⟩ := (find?_candidates hd).mp hfind
      obtain ⟨hempty, hname⟩ := Path.isBare_join.mp hbare
      obtain ⟨text⟩ := dir
      cases hempty
      exact ⟨hname, hdec⟩
  · rintro ⟨hname, hdec⟩
    have hhere := (find?_candidates (hasDirectory_of_isBare hname)).mpr ⟨_, hdec, rfl⟩
    rw [hfind, Option.some.injEq] at hhere
    rw [hhere, Path.isBare_join]
    exact ⟨rfl, hname⟩

/-! ## 3. What is started -/

/-- The machine with another search path in its environment. -/
def under (h : Host) (environment : Option String) : Host := { h with searchPath := environment }

/-- **The place of the file that is started** for a path; none if nothing is. -/
def startedPlace? (h : Host) (p : Path) : Option Location := (h.started? p).bind h.place?

/-- The first executable file of a name on the search path of the environment. -/
def environmentHit? (h : Host) (p : Path) : Option Path :=
  ((searchEntries (h.searchPath.getD defaultSearchPath)).map (fun dir => dir.join p)).find?
    h.isExecutable

/-- **A path with a slash is followed**, whatever the environment. -/
theorem started?_of_not_isBare (hb : found.isBare = false) (hx : h.isExecutable found = true) :
    h.started? found = some found := by
  rw [Path.isBare, Bool.not_eq_false'] at hb
  rw [started?, if_pos hb, if_pos hx]

/-- **A bare name is looked up** where the environment says. -/
theorem started?_of_isBare (hb : found.isBare = true) :
    h.started? found = h.environmentHit? found := by
  rw [Path.isBare, Bool.not_eq_true'] at hb
  rw [started?, hb, if_neg Bool.false_ne_true, environmentHit?]

/-- There is a name that is not among given ones, and without a colon. -/
theorem exists_new_name (names : List String) :
    ∃ name, isEntryName name = true ∧ ':' ∉ name.toList ∧ name ∉ names := by
  -- one letter more often than all names have letters together
  have hentry : ∀ n, isEntryName (String.ofList (List.replicate (n + 1) 'x')) = true := by
    intro n
    simp [isEntryName, ← String.toList_inj, List.replicate_succ]
  refine ⟨_, hentry (names.map String.length).sum, by simp, fun hmem => ?_⟩
  have hle := List.le_sum_of_mem (List.mem_map_of_mem (f := String.length) hmem)
  rw [String.length_ofList, List.length_replicate] at hle
  omega

/-- Below a directory that is missing a path leads nowhere. -/
theorem place?_of_missing {name : String} (hname : isEntryName name = true)
    (hmissing : h.files.find? [name] = none) {p : Path} (hp : p.isBare = true) :
    h.place? ((Path.mk ("/" ++ name ++ "/")).join p) = none := by
  have hend : ("/" ++ name ++ "/").endsWith "/" = true := by
    rw [← String.endsWith_toSlice, String.Slice.endsWith_string_iff, String.copy_toSlice]
    simp
  have hsegments : (Path.mk ("/" ++ name ++ "/" ++ p.text)).segments = ["", name, p.text] := by
    have hroot := Path.segments_slash "" name
    rw [String.empty_append, Path.segments_name hname] at hroot
    rw [Path.segments_slash, hroot, Path.segments_of_isBare hp]
    rfl
  have habs : (Path.mk ("/" ++ name ++ "/" ++ p.text)).isAbsolute = true := by
    simp [Path.isAbsolute]
  rw [Path.join, Path.isAbsolute_of_isBare hp, if_neg Bool.false_ne_true, if_pos (.inr hend),
    place?, if_neg (by simp), hsegments, habs, if_pos rfl]
  refine Option.eq_none_iff_forall_ne_some.mpr fun t ht => ?_
  simp only [List.foldlM_cons, Option.bind_eq_bind, Option.bind_eq_some_iff] at ht
  obtain ⟨root, hr, dir, hd, q, hq, -⟩ := ht
  obtain ⟨-, rfl⟩ := stepFrom?_eq_some.mp hr
  obtain ⟨-, rfl⟩ := stepFrom?_eq_some.mp hd
  obtain ⟨hkind, -⟩ := stepFrom?_eq_some.mp hq
  simp only [isEntryName, Bool.and_eq_true, bne_iff_ne] at hname
  simp [stepOf, hname, Node.kindAt?, hmissing] at hkind

/-- **There is always a search path on which no bare name is found**: a missing directory. -/
theorem exists_environment_without (h : Host) :
    ∃ environment : String, ∀ p : Path, p.isBare = true →
      (h.under (some environment)).environmentHit? p = none := by
  obtain ⟨name, hname, hcolon, hmissing⟩ :
      ∃ name, isEntryName name = true ∧ ':' ∉ name.toList ∧ h.files.find? [name] = none := by
    cases h.files with
    | file bytes x => exact ⟨"x", by decide, by decide, rfl⟩
    | dir es =>
      obtain ⟨name, hname, hcolon, hnew⟩ := exists_new_name (es.map Prod.fst)
      refine ⟨name, hname, hcolon, ?_⟩
      have hnone : es.lookup name = none := by
        rw [List.lookup_eq_none_iff]
        intro e he
        refine bne_iff_ne.mpr fun hn => hnew ?_
        exact hn ▸ List.mem_map_of_mem he
      rw [Node.find?, Node.entry?_dir, hnone, Option.bind_none]
  refine ⟨"/" ++ name ++ "/", fun p hp => ?_⟩
  have hentries : searchEntries ("/" ++ name ++ "/") = [⟨"/" ++ name ++ "/"⟩] := by
    rw [searchEntries, List.splitOn_eq_singleton (by simpa using hcolon), List.map_singleton,
      String.ofList_toList]
  have hplace : (h.under (some ("/" ++ name ++ "/"))).place? ((Path.mk ("/" ++ name ++ "/")).join p)
      = none := place?_of_missing hname hmissing hp
  rw [environmentHit?, under, Option.getD_some, hentries, List.map_singleton, List.find?_singleton,
    ← under, if_neg]
  rw [isExecutable, node?, hplace]
  exact Bool.false_ne_true

/-! ## 4. The program that runs -/

/-- What is found is an executable file, so it is somewhere. -/
theorem isExecutable_of_located {searchPath : Option String}
    (hl : h.locate name searchPath = .ok found) : h.isExecutable found = true := by
  obtain ⟨dirs, -, -, hfind⟩ := locate_eq_ok.mp hl
  exact List.find?_some hfind

/-- A file that is not a bare name is called as it was found. -/
theorem invoke_of_not_isBare [Programs] {call : Invocation}
    (hl : h.locate call.executable call.searchPath = .ok found) (hb : found.isBare = false) :
    h.invoke call = h.converse call found := by
  rw [invoke, hl]
  dsimp only
  rw [started?_of_not_isBare hb (isExecutable_of_located hl)]

/-- **What is started is what was found, in every environment, just if what was found is no bare
name.**  It is a bare name if the executable is named by one and the empty entry of the search path
decides; then the environment decides what is started. -/
theorem located_is_started_iff [Programs] {call : Invocation}
    (hl : h.locate call.executable call.searchPath = .ok found) :
    (∀ environment, (h.under environment).locate call.executable call.searchPath = .ok found) ∧
      ((∀ environment, (h.under environment).startedPlace? found = h.place? found) ↔
        found.isBare = false) ∧
      (found.isBare = false →
        ∀ environment, (h.under environment).invoke call = h.converse call found) ∧
      (found.isBare = true ↔ (Path.mk call.executable).isBare = true ∧
        ∃ dirs, call.searchPath = some dirs ∧ h.Decides call.executable dirs ⟨""⟩) ∧
      (found.isBare = true → ∀ environment,
        (h.under environment).started? found = (h.under environment).environmentHit? found) := by
  have hx := isExecutable_of_located hl
  have hunder : ∀ environment,
      (h.under environment).locate call.executable call.searchPath = .ok found := fun _ => hl
  refine ⟨hunder, ⟨fun hall => ?_, fun hb environment => ?_⟩,
    fun hb environment => invoke_of_not_isBare (hunder environment) hb, ?_,
    fun hb environment => started?_of_isBare hb⟩
  · -- in some environment a bare name is not found at all
    refine Bool.eq_false_iff.mpr fun hb => ?_
    obtain ⟨environment, hnone⟩ := exists_environment_without h
    have hstarted := hall (some environment)
    rw [startedPlace?, started?_of_isBare hb, hnone found hb, Option.bind_none] at hstarted
    obtain ⟨t, -, ht, -⟩ := isExecutable_iff.mp hx
    rw [ht] at hstarted
    cases hstarted
  · have hstarted : (h.under environment).started? found = some found :=
      started?_of_not_isBare hb hx
    rw [startedPlace?, hstarted, Option.bind_some]
    rfl
  · obtain ⟨dirs, hdirs, -⟩ := locate_eq_ok.mp hl
    rw [isBare_of_located (hdirs ▸ hl)]
    simp [hdirs]

/-- A machine with two executables of one name: one in the working directory, one in a directory. -/
def crossroads : Host :=
  ⟨.dir [("shout", .file (Text.Utf8.encode "#!/bin/sh\nprintf a\n".toList) true),
    ("tools", .dir [("shout", .file (Text.Utf8.encode "#!/bin/sh\nprintf b\n".toList) true)])],
    [], none⟩

/-- A call of that name. -/
def shouting (searchPath : String) : Invocation := ⟨"shout", [], [], some searchPath, none⟩

theorem located_is_started_iff_tools :
    crossroads.locate "shout" (some "tools:") = .ok ⟨"tools/shout"⟩ ∧
      ∀ environment, ((crossroads.under environment).invoke (shouting "tools:")).toOption
        = some ['b'] := by
  have hl : crossroads.locate "shout" (some "tools:") = .ok ⟨"tools/shout"⟩ := by decide +kernel
  refine ⟨hl, fun environment => ?_⟩
  have hcall : crossroads.locate (shouting "tools:").executable (shouting "tools:").searchPath
      = .ok ⟨"tools/shout"⟩ := hl
  rw [(located_is_started_iff hcall).2.2.1 (by decide +kernel) environment]
  decide +kernel

/-- **A bare name goes elsewhere**: below the empty entry the file in the working directory is
found, and the environment has another one started, or none. -/
theorem bare_name_goes_elsewhere :
    crossroads.locate "shout" (some ":tools") = .ok ⟨"shout"⟩ ∧
      (crossroads.under (some "")).invoke (shouting ":tools") = .ok ['a'] ∧
      (crossroads.under (some "tools")).invoke (shouting ":tools") = .ok ['b'] ∧
      (crossroads.under (some "/nonexistent")).invoke (shouting ":tools")
        = .error (.io "shout" "No such file or directory (os error 2)") := by
  decide +kernel

end Host

end CodeTint
