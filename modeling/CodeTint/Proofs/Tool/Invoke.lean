/-
# What a call of a tool depends on

A call looks for the tool on search paths and runs what it finds.  All files that it looks at have
the name of the tool (`Path.fileName?`), whatever directories they are in.  So **two machines on which
the files of that name are the same give the same answer** (`invoke_congr`), whatever else is on them
and whatever programs do.
-/
import CodeTint.Proofs.Host.Path
import CodeTint.Tool.Invoke

namespace CodeTint

namespace Path

theorem fileName?_child (p : Path) {name : String} (h : isEntryName name = true) :
    (p.child name).fileName? = some name := by
  rw [fileName?, components_child p h, List.getLast?_append, List.getLast?_singleton]
  rfl

/-- A path that ends in a name without a slash before it is only that name. -/
theorem eq_of_not_contains_slash {p : Path} {name : String} (h : isEntryName name = true)
    (hno : (p.child name).text.toList.contains '/' = false) : p.child name = ⟨name⟩ := by
  rw [child, join, isAbsolute_name h, if_neg Bool.false_ne_true] at hno ⊢
  split at hno
  · next hp =>
    rw [if_pos hp]
    rcases hp with hp | hp
    · rw [hp, String.empty_append]
    · obtain ⟨b, hb⟩ := endsWith_slash hp
      simp [hb] at hno
  · simp at hno

end Path

namespace Host

/-- **The files of a name are the same on two machines**, with what a search begins from. -/
structure SeesAlike (name : String) (h h' : Host) : Prop where
  cwd : h.cwd = h'.cwd
  searchPath : h.searchPath = h'.searchPath
  executable : ∀ p : Path, p.fileName? = some name → h.isExecutable p = h'.isExecutable p
  read : ∀ p : Path, p.fileName? = some name → h.read? p = h'.read? p

variable {h h' : Host}

/-- A search for a file of the name has the same outcome. -/
theorem find?_congr {name : String} (hs : h.SeesAlike name h') {ps : List Path}
    (hp : ∀ p ∈ ps, p.fileName? = some name) :
    ps.find? h.isExecutable = ps.find? h'.isExecutable := by
  induction ps with
  | nil => rfl
  | cons p ps ih =>
    rw [List.find?_cons, List.find?_cons, hs.executable p (hp p List.mem_cons_self),
      ih fun q hq => hp q (List.mem_cons_of_mem _ hq)]

/-- A name is looked up in the directories of the search path. -/
theorem candidates_eq {name : String} (hd : hasDirectory name = false) (g : Host) (dirs : String) :
    g.candidates name dirs = (searchEntries dirs).map fun dir => dir.join ⟨name⟩ := by
  rw [candidates, hd, if_neg Bool.false_ne_true]

section

variable {name : String} (hn : isEntryName name = true) (hd : hasDirectory name = false)

include hn

/-- The paths of a name in some directories. -/
theorem exists_child_of_mem {dirs : List Path} {p : Path}
    (hp : p ∈ dirs.map fun dir => dir.join ⟨name⟩) :
    p.fileName? = some name ∧ ∃ dir : Path, p = dir.child name := by
  obtain ⟨dir, -, rfl⟩ := List.mem_map.mp hp
  exact ⟨dir.fileName?_child hn, dir, rfl⟩

/-- What is started for the path of a name has that name too, and is the same on both machines. -/
theorem started?_congr (hs : h.SeesAlike name h') (dir : Path) :
    h.started? (dir.child name) = h'.started? (dir.child name) ∧
      ∀ p, h'.started? (dir.child name) = some p → p.fileName? = some name := by
  rw [started?, started?, hs.searchPath]
  cases hc : (dir.child name).text.toList.contains '/' with
  | false =>
    rw [if_neg Bool.false_ne_true, if_neg Bool.false_ne_true, Path.eq_of_not_contains_slash hn hc]
    refine ⟨find?_congr hs fun p hp => (exists_child_of_mem hn hp).1, fun p hp => ?_⟩
    exact (exists_child_of_mem hn (List.mem_of_find?_eq_some hp)).1
  | true =>
    have hname := dir.fileName?_child hn
    rw [if_pos rfl, if_pos rfl, hs.executable _ hname]
    refine ⟨rfl, fun p hp => ?_⟩
    split at hp
    · cases hp; exact hname
    · cases hp

include hd

/-- What is found for a name is the path of that name in a directory, on both machines the same. -/
theorem locate_congr (hs : h.SeesAlike name h') (searchPath : Option String) :
    h.locate name searchPath = h'.locate name searchPath ∧
      ∀ found, h'.locate name searchPath = .ok found → ∃ dir : Path, found = dir.child name := by
  unfold locate
  split
  · exact ⟨rfl, fun _ hf => by cases hf⟩
  · exact ⟨rfl, fun _ hf => by cases hf⟩
  · next dirs _ =>
    rw [candidates_eq hd, candidates_eq hd,
      find?_congr hs fun p hp => (exists_child_of_mem hn hp).1]
    refine ⟨rfl, fun found hf => ?_⟩
    split at hf
    · next q hq =>
      cases hf
      exact (exists_child_of_mem hn (List.mem_of_find?_eq_some hq)).2
    · cases hf

end

/-- **A call has the same answer on machines that have the same files of the tool's name.** -/
theorem invoke_congr [Programs] {call : Invocation} (hn : isEntryName call.executable = true)
    (hd : hasDirectory call.executable = false) (hs : h.SeesAlike call.executable h') :
    h.invoke call = h'.invoke call := by
  obtain ⟨hlocate, hfound⟩ := locate_congr hn hd hs call.searchPath
  rw [invoke, invoke, hlocate]
  cases hl : h'.locate call.executable call.searchPath with
  | error e => rfl
  | ok found =>
    obtain ⟨dir, rfl⟩ := hfound found hl
    obtain ⟨hstarted, hname⟩ := started?_congr hn hs dir
    dsimp only
    rw [hstarted]
    cases hp : h'.started? (dir.child call.executable) with
    | none => rfl
    | some p =>
      dsimp only
      rw [converse, converse, hs.read p (hname p hp)]

end Host

end CodeTint
