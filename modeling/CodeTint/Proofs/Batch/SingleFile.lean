/-
# A job for a single file

A job for a file with another place for the outcome copies the file there and colorizes the copy.
Whether the other place is another one is decided by the components of the two paths.  But
`f.html` and `./f.html`, which have different components, are one file, and **a copy of a file onto
itself leaves it empty**.

So this file proves exactly when the text survives (`single_file_iff`): unless the output leads to the
input's place while its components are not the input's.  Then the text is lost, the job goes
on with an empty document, and it ends well without a failure.
-/
import CodeTint.Batch
import CodeTint.Proofs.Document.Filling
import CodeTint.Proofs.Host.Files
import CodeTint.Proofs.Session
import CodeTint.Proofs.Text.Utf8

namespace CodeTint.Batch

open CodeTint.Text

/-! ## 1. One document -/

section

variable [Highlight.Library] [Programs]

/-- **A document that went well**: it was well-formed, its text was colorized, and what its path leads
to now is the outcome. -/
theorem processFile_ok {h h' : Host} {s s' : Session} {p : Path} {o : FileOutcome}
    (hp : processFile h s p = (h', s', .ok o)) :
    ∃ bytes doc c, h.read? p = some bytes ∧ Utf8.decode? bytes = some doc ∧
      (s.run h h.searchPath doc).1 = .ok c ∧ h'.read? p = some (Utf8.encode c.html) := by
  rw [processFile] at hp
  split at hp
  · cases hp
  · next doc hdoc =>
    obtain ⟨bytes, hb, hd⟩ := Option.bind_eq_some_iff.mp hdoc
    split at hp
    · cases hp
    · next c s₁ hrun =>
      refine ⟨bytes, doc, c, hb, hd, by rw [hrun], ?_⟩
      dsimp only at hp
      split at hp
      · split at hp
        · next h₁ hw =>
          cases hp
          exact (Host.write?_spec hw).1
        · cases hp
      · next hsame =>
        cases hp
        have hc : c.html = doc := by simpa using hsame
        rw [hb, hc, Utf8.encode_of_decode? hd]

end

/-! ## 2. Where the document is colorized -/

/-- **The path that a job for a file colorizes it at.** -/
def Job.target (j : Job) : Path := j.elsewhere?.getD j.input

/-- Whether a job for a file copies the file onto itself: its output has other components than its
input, but leads to the same place. -/
def Job.copiesOntoItself (j : Job) (h : Host) : Bool :=
  match j.elsewhere? with
  | none => false
  | some out => (h.createParent out).1.place? out == h.place? j.input

/-- What a path leads to, if it can be read, is a file. -/
theorem isDir_of_read? {h : Host} {p : Path} {bytes : List UInt8} (hr : h.read? p = some bytes) :
    h.isDir p = false ∧ h.exists? p = true := by
  rw [Host.read?] at hr
  rw [Host.isDir, Host.exists?]
  cases hn : h.node? p with
  | none => rw [hn] at hr; cases hr
  | some n =>
    rw [hn] at hr
    cases n with
    | dir es => cases hr
    | file b x => exact ⟨rfl, rfl⟩

/-- **What a job for a file prepares**: its target, which holds the file's bytes, unless the file was
copied onto itself; then it holds nothing. -/
theorem prepare_spec {j : Job} {h h₁ : Host} {bytes : List UInt8} {files : List Path}
    (hr : h.read? j.input = some bytes) (hp : j.prepare h = (h₁, .ok files)) :
    files = [j.target] ∧
      h₁.read? j.target = some (if j.copiesOntoItself h then [] else bytes) := by
  rw [Job.prepare, (isDir_of_read? hr).1, if_neg Bool.false_ne_true] at hp
  rw [Job.target, Job.copiesOntoItself]
  cases he : j.elsewhere? with
  | none =>
    rw [he] at hp
    cases hp
    exact ⟨rfl, hr⟩
  | some out =>
    rw [he] at hp
    dsimp only at hp
    split at hp
    · next h₂ hcopy =>
      cases hp
      refine ⟨rfl, ?_⟩
      rw [Option.getD_some, (Host.copyFile_spec hr hcopy).1]
      simp only [beq_iff_eq]
    · cases hp

/-! ## 3. The whole job -/

section

variable [Highlight.Library] [Programs]

/-- **How a job goes**: its input is missing, or it ends with the error of its preparation, or it
colorizes what was prepared. -/
theorem run_cases {j : Job} {h h' : Host} {r : Except FileError Stats}
    (hrun : j.run h = (h', r)) :
    (h' = h ∧ r = .error (.missing j.input)) ∨
      (∃ e, j.prepare h = (h', .error e) ∧ r = .error e) ∨
      ∃ h₁ files st, j.prepare h = (h₁, .ok files) ∧
        processFiles h₁ (.withStore j.options h₁.searchPath Highlight.Library.newStore) {} files
          = (h', st) ∧
        r = .ok st.sorted := by
  rw [Job.run] at hrun
  split at hrun
  · split at hrun
    · next h₁ e hprep =>
      cases hrun
      exact .inr (.inl ⟨e, hprep, rfl⟩)
    · next h₁ files hprep =>
      cases hrun
      exact .inr (.inr ⟨h₁, files, _, hprep, rfl, rfl⟩)
  · cases hrun
    exact .inl ⟨rfl, rfl⟩

/-- A job for one file without failures went well with that file. -/
theorem run_spec {j : Job} {h h' : Host} {st : Stats} {bytes : List UInt8}
    (hr : h.read? j.input = some bytes) (hrun : j.run h = (h', .ok st)) (hok : st.failures = []) :
    ∃ doc c, Utf8.decode? (if j.copiesOntoItself h then [] else bytes) = some doc ∧
      colorizeOnce (j.prepare h).1 j.options doc = .ok c ∧
      h'.read? j.target = some (Utf8.encode c.html) := by
  rw [Job.run, (isDir_of_read? hr).2, if_pos rfl] at hrun
  generalize hprep : j.prepare h = r at hrun
  obtain ⟨h₁, r⟩ := r
  cases r with
  | error e => cases hrun
  | ok files =>
    obtain ⟨rfl, hread⟩ := prepare_spec hr hprep
    dsimp only [processFiles] at hrun
    generalize hfile : processFile h₁ (.withStore j.options h₁.searchPath
      Highlight.Library.newStore) j.target = r at hrun
    obtain ⟨h₂, s, r⟩ := r
    cases hrun
    cases r with
    | error e => simp [Stats.sorted, Stats.add] at hok
    | ok o =>
      obtain ⟨bytes', doc, c, hb, hd, hc, hout⟩ := processFile_ok hfile
      rw [hread] at hb
      cases hb
      rw [Session.run_new] at hc
      exact ⟨doc, c, hd, hc, hout⟩

/-- Colorizing gives an empty text only for an empty one. -/
theorem colorizeOnce_eq_nil_iff {h : Host} {o : Options} {doc : List Char}
    {c : Document.Colorized} (hc : colorizeOnce h o doc = .ok c) : c.html = [] ↔ doc = [] := by
  rw [colorizeOnce, Session.run] at hc
  exact Document.colorize_eq_nil_iff (Prod.ext hc rfl)

/-- **When a job for a file keeps the text.**  Let a job for a file end well, without a failure.  Then
what the job works on holds the colorization of the text that the input had before just if the job
did not copy the file onto itself, or there was nothing in it.

What the job works on is the output, or, if the output has the components of the input, the input;
then the output, if it leads anywhere, leads there too, and the job does what it would do without an
output. -/
theorem single_file_iff {j : Job} {h h' : Host} {st : Stats} {out : Path} {bytes : List UInt8}
    (hout : j.output = some out) (hr : h.read? j.input = some bytes)
    (hrun : j.run h = (h', .ok st)) (hok : st.failures = []) :
    ((∃ doc c, Utf8.decode? bytes = some doc ∧
        colorizeOnce (j.prepare h).1 j.options doc = .ok c ∧
        h'.read? j.target = some (Utf8.encode c.html))
      ↔ (j.copiesOntoItself h = true → bytes = [])) ∧
    (out.same j.input = false → j.target = out) ∧
    (out.same j.input = true → j.target = j.input ∧ j.copiesOntoItself h = false ∧
      (∀ t, h'.place? out = some t → h'.read? out = h'.read? j.input) ∧
      j.run h = { j with output := none }.run h) := by
  obtain ⟨doc, c, hd, hc, hread⟩ := run_spec hr hrun hok
  have helse : j.elsewhere? = if out.same j.input then none else some out := by
    rw [Job.elsewhere?, hout]
  refine ⟨?_, ?_, ?_⟩
  · constructor
    · rintro ⟨doc', c', hd', hc', hread'⟩ hself
      -- the job went on with an empty document, so its outcome is empty
      rw [if_pos hself, Utf8.decode?] at hd
      cases hd
      rw [hread, Option.some.injEq, (colorizeOnce_eq_nil_iff hc).mpr rfl, eq_comm] at hread'
      have hnil : doc' = [] := (colorizeOnce_eq_nil_iff hc').mp (Utf8.encode_eq_nil.mp hread')
      rw [← Utf8.encode_of_decode? hd', hnil]
      rfl
    · intro hself
      have hb : (if j.copiesOntoItself h then [] else bytes) = bytes := by
        split
        · next hx => exact (hself hx).symm
        · rfl
      rw [hb] at hd
      exact ⟨doc, c, hd, hc, hread⟩
  · intro hs
    rw [Job.target, helse, hs]
    rfl
  · intro hs
    rw [hs, if_pos rfl] at helse
    have htarget : j.target = j.input := by rw [Job.target, helse]; rfl
    refine ⟨htarget, by rw [Job.copiesOntoItself, helse], fun t ht => ?_, ?_⟩
    · rw [htarget] at hread
      obtain ⟨s, x, hp, -⟩ := Host.read?_eq_some.mp hread
      have hst : t = s := Host.place?_of_same hs ht hp
      rw [Host.read?, Host.read?, Host.node?, Host.node?, ht, hp, hst]
    · have hnone : Job.elsewhere? { j with output := none } = none := rfl
      rw [Job.run, Job.run, Job.prepare, Job.prepare, helse, hnone]

end

/-- A document with a void tag. -/
def letter : List Char := "<p>a<br/>b</p>".toList

/-- A machine with that document in its working directory. -/
def desk : Host := ⟨.dir [("f.html", .file (Utf8.encode letter) false)], [], none⟩

/-- A job that brings the document to another place. -/
def sending : Job := ⟨⟨"f.html"⟩, some ⟨"out/../sent/f.html"⟩, {}⟩

theorem single_file_iff_sending :
    ∃ h' st, sending.run desk = (h', .ok st) ∧ st.failures = [] ∧
      sending.copiesOntoItself desk = false ∧
      ∃ doc c, Utf8.decode? (Utf8.encode letter) = some doc ∧
        colorizeOnce (sending.prepare desk).1 {} doc = .ok c ∧
        h'.read? sending.target = some (Utf8.encode c.html) := by
  have hend : (sending.run desk).2.toOption.map (fun st => st.failures.isEmpty) = some true := by
    decide +kernel
  have hself : sending.copiesOntoItself desk = false := by decide +kernel
  generalize hrun : sending.run desk = r at hend
  obtain ⟨h', r⟩ := r
  cases r with
  | error e => cases hend
  | ok st =>
    have hok : st.failures = [] := List.isEmpty_iff.mp (Option.some.inj hend)
    have hread : desk.read? sending.input = some (Utf8.encode letter) := by decide +kernel
    have hiff := (single_file_iff rfl hread hrun hok).1
    exact ⟨h', st, rfl, hok, hself, hiff.mpr fun h => by rw [hself] at h; cases h⟩

/-- A job whose output is its input, spelled with a `./` in front. -/
def respelled : Job := ⟨⟨"f.html"⟩, some ⟨"./f.html"⟩, {}⟩

/-- **It loses the text.**  The file is left empty, though one document was processed and none
failed; without the output the same job leaves the colorized text. -/
theorem respelled_loses_text :
    desk.read? ⟨"./f.html"⟩ = some (Utf8.encode letter) ∧
      (respelled.run desk).2.toOption.map (fun st => (st.processed, st.failures.isEmpty))
        = some (1, true) ∧
      (respelled.run desk).1.read? ⟨"./f.html"⟩ = some [] ∧
      (colorizeOnce (respelled.prepare desk).1 {} letter).toOption.map Document.Colorized.html
        = some "<p>a<br>b</p>".toList ∧
      ({ respelled with output := none }.run desk).1.read? ⟨"f.html"⟩
        = some (Utf8.encode "<p>a<br>b</p>".toList) := by
  refine ⟨?_, ?_, ?_, ?_, ?_⟩ <;> decide +kernel

end CodeTint.Batch
