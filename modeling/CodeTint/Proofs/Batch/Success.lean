/-
# When a job goes well

A job succeeds just if its input is there, its preparation goes well, and no document fails
(`run_success_iff`).  The last is about all documents together, one written after the other.  This file
takes it apart: with a lawful library **no document fails just if each would go well alone**
(`noneFails_iff`), on the machine as the preparation leaves it, whatever becomes of the other documents.

For a directory this rests on `processFiles_spec`, which asks that the documents are found at distinct
places.  They are, wherever the tree was copied to: into itself, around itself, onto itself under
another spelling, or onto a file (`exists_found`, `prepare_cases`).
-/
import CodeTint.Proofs.Batch.Pool

namespace CodeTint.Batch

open CodeTint.Text

/-! ## 1. One document -/

section

variable [Highlight.Library] [Programs]

/-- **A document goes well**: it can be read, it is well-formed, and the run on it ends well. -/
def GoesWell (h : Host) (o : Options) (p : Path) : Prop :=
  ∃ bytes doc c, h.read? p = some bytes ∧ Utf8.decode? bytes = some doc ∧
    colorizeOnce h o doc = .ok c

theorem failure?_eq_none {h : Host} {o : Options} {p : Path} {bytes : List UInt8}
    (hr : h.read? p = some bytes) : failure? h o p bytes = none ↔ GoesWell h o p := by
  unfold failure?
  constructor
  · intro hnone
    split at hnone
    · cases hnone
    · next doc hd =>
      split at hnone
      · next c hc => exact ⟨bytes, doc, c, hr, hd, hc⟩
      · cases hnone
  · rintro ⟨bytes', doc, c, hr', hd, hc⟩
    rw [hr] at hr'
    cases hr'
    simp only [hd, hc]

/-- **A document alone fails just if it does not go well**: what can be read can be written. -/
theorem failed_alone {h : Host} {o : Options} {p : Path} :
    failed (alone h o p) = none ↔ GoesWell h o p := by
  constructor
  · intro hok
    rw [alone_eq] at hok
    split at hok
    · cases hok
    · next doc hdoc =>
      obtain ⟨bytes, hr, hd⟩ := Option.bind_eq_some_iff.mp hdoc
      split at hok
      · cases hok
      · next c hc => exact ⟨bytes, doc, c, hr, hd, hc⟩
  · rintro ⟨bytes, doc, c, hr, hd, hc⟩
    have hdoc : (h.read? p).bind Utf8.decode? = some doc := by rw [hr, Option.bind_some, hd]
    obtain ⟨u, x, hu, hx⟩ := Host.read?_eq_some.mp hr
    have hlead : leadsTo h [p] u := ⟨p, List.mem_cons_self, hu⟩
    obtain ⟨h', hwrite, -⟩ := writeBack_spec hu (Node.bytes?_eq_some.mpr ⟨x, hx⟩) hd c hlead
    rw [alone_of_ok hdoc hc, hwrite]
    rfl

/-- **No document fails** when they are colorized one after the other. -/
def NoneFails (h : Host) (o : Options) (files : List Path) : Prop :=
  (processFiles h (.withStore o h.searchPath Highlight.Library.newStore) {} files).2.failures = []

end

/-! ## 2. The documents below a path -/

/-- **Documents that are found below a path**, each at a place of its own. -/
structure Found (h : Host) (p : Path) (t : Location) (docs : List Location) : Prop where
  nodup : docs.Nodup
  found : ∀ r ∈ docs, h.place? (Host.below p r) = some (t ++ r) ∧
    isDocumentAt (t ++ r) = true ∧ (h.files.bytes? (t ++ r)).isSome = true

/-- Below what is no directory there are no documents. -/
theorem documentsBelow_eq_nil {h : Host} {p : Path} (hp : h.isDir p = false) :
    documentsBelow h p = [] := by
  have hnone : h.filesBelow p = [] := by
    unfold Host.isDir at hp
    unfold Host.filesBelow
    cases hn : h.node? p with
    | none => rfl
    | some n =>
      rw [hn] at hp
      cases n with
      | file bytes x => simp [Node.contents]
      | dir es => cases hp
  rw [documentsBelow, hnone, List.filter_nil, List.mergeSort_nil]

/-- **The documents of a path are found there**, if the names below it are ones that entries can
have. -/
theorem exists_found {h : Host} {p : Path} (hd : h.files.isDistinct = true)
    (hnames : ∀ t, h.place? p = some t → ∀ r, (h.files.bytes? (t ++ r)).isSome = true →
      ∀ x ∈ r, isEntryName x = true) :
    ∃ t docs, Found h p t docs ∧ documentsBelow h p = docs.map (Host.below p) := by
  have hnil : ∀ t, Found h p t [] := fun t =>
    ⟨List.nodup_nil, fun r hr => absurd hr List.not_mem_nil⟩
  cases hp : h.place? p with
  | none =>
    exact ⟨[], [], hnil _, documentsBelow_eq_nil (by rw [Host.isDir, Host.node?, hp]; rfl)⟩
  | some t =>
    cases ht : h.files.bytes? t with
    | some bytes =>
      have hread : h.read? p = some bytes := by rw [read?_eq_bytes? hp, ht]
      exact ⟨t, [], hnil _, documentsBelow_eq_nil (isDir_of_read? hread).1⟩
    | none =>
      obtain ⟨docs, hnodup, hmem, hdocs⟩ := documentsBelow_spec hd hp ht (hnames t hp)
      refine ⟨t, docs, ⟨hnodup, fun r hr => ?_⟩, hdocs⟩
      obtain ⟨hb, hdoc⟩ := (hmem r).mp hr
      obtain ⟨m, hm⟩ := Node.exists_of_bytes? hb
      have hne : r ≠ [] := by
        rintro rfl
        cases hdoc
      exact ⟨Host.place?_below hp hm (hnames t hp r hb), by rw [isDocumentAt_append t hne, hdoc], hb⟩

/-- **Of documents that are found none fails** just if each goes well, on the machine as it is before
any of them is written, with a lawful library. -/
theorem Found.noneFails_iff [Highlight.Library] [Programs] [LawfulLibrary] {h : Host} {p : Path}
    {t : Location} {docs : List Location} (hf : Found h p t docs) (o : Options) :
    NoneFails h o (docs.map (Host.below p)) ↔ ∀ q ∈ docs.map (Host.below p), GoesWell h o q := by
  obtain ⟨h', st, hrun, -, -, -, hlawful⟩ := processFiles_spec {} (SameButDocuments.refl h)
    (Session.ready_withStore o h.searchPath) hf.nodup hf.found
  obtain ⟨-, hfail⟩ := hlawful inferInstance
  have hnone : ∀ r ∈ docs, (h.files.bytes? (t ++ r)).bind (failure? h o (Host.below p r)) = none ↔
      GoesWell h o (Host.below p r) := by
    intro r hr
    obtain ⟨hplace, -, hb⟩ := hf.found r hr
    obtain ⟨bytes, hb⟩ := Option.isSome_iff_exists.mp hb
    rw [hb, Option.bind_some]
    exact failure?_eq_none (by rw [read?_eq_bytes? hplace, hb])
  rw [NoneFails, hrun, hfail]
  show [] ++ _ = [] ↔ _
  rw [List.nil_append, List.filterMap_eq_nil_iff, List.forall_mem_map]
  exact forall₂_congr hnone

/-! ## 3. What a job prepares -/

section

variable {j : Job} {h h₁ : Host} {files : List Path}

/-- A file below the output is one that was copied, or was there before. -/
theorem isEntryName_of_setsNamed {t r : Location} (htree : h.files.IsTree)
    (hset : Host.SetsFiles (Host.IsNamedBelow t) h h₁)
    (hr : (h₁.files.bytes? (t ++ r)).isSome = true) : ∀ x ∈ r, isEntryName x = true := by
  intro x hx
  by_cases hnew : Host.IsNamedBelow t (t ++ r)
  · obtain ⟨r', hr', he⟩ := hnew
    exact hr' x (List.append_cancel_left he ▸ hx)
  · rw [hset.others _ hnew] at hr
    exact htree.isEntryName_of_bytes? hr x (List.mem_append_right t hx)

/-- **What a job prepares**: one path, or the documents that are found below one. -/
theorem prepare_cases (htree : h.files.IsTree) (hp : j.prepare h = (h₁, .ok files)) :
    (∃ p, files = [p]) ∨ ∃ p t docs, Found h₁ p t docs ∧ files = docs.map (Host.below p) := by
  unfold Job.prepare at hp
  split at hp
  · right
    split at hp
    · -- nothing is brought anywhere
      cases hp
      obtain ⟨t, docs, hfound, hdocs⟩ := exists_found (p := j.input) htree.distinct
        fun t _ r hr x hx => htree.isEntryName_of_bytes? hr x (List.mem_append_right t hx)
      exact ⟨j.input, t, docs, hfound, hdocs⟩
    · next out _ =>
      split at hp
      · next h₂ hcopy =>
        cases hp
        have hset := Host.copyTree_setsNamed htree rfl hcopy
        obtain ⟨t, docs, hfound, hdocs⟩ := exists_found (p := out) (hset.distinct htree.distinct)
          fun t ht r hr => isEntryName_of_setsNamed htree hset
            (by rwa [Host.place?_eq_followed ht, hset.cwd] at hr)
        exact ⟨out, t, docs, hfound, hdocs⟩
      · cases hp
  · left
    split at hp
    · cases hp; exact ⟨_, rfl⟩
    · split at hp
      · cases hp; exact ⟨_, rfl⟩
      · cases hp

/-- **Of what was prepared no document fails** just if each goes well, with a lawful library. -/
theorem noneFails_iff [Highlight.Library] [Programs] [LawfulLibrary] (htree : h.files.IsTree)
    (hp : j.prepare h = (h₁, .ok files)) (o : Options) :
    NoneFails h₁ o files ↔ ∀ p ∈ files, GoesWell h₁ o p := by
  rcases prepare_cases htree hp with ⟨p, rfl⟩ | ⟨p, t, docs, hfound, rfl⟩
  · rw [List.forall_mem_singleton, ← failed_alone]
    simp only [NoneFails, processFiles, (Stats.add_spec _ _).1, outcome_withStore]
    cases failed (alone h₁ o p) <;> simp
  · exact hfound.noneFails_iff o

end

/-! ## 4. The whole job -/

/-- Sorting the failures neither makes one nor takes one away. -/
theorem Stats.success_sorted (st : Stats) : st.sorted.success = true ↔ st.failures = [] := by
  show (List.mergeSort st.failures _).isEmpty = true ↔ _
  rw [List.isEmpty_iff, ← List.length_eq_zero_iff, (List.mergeSort_perm _ _).length_eq,
    List.length_eq_zero_iff]

/-- **A job succeeds** just if its input is there, its preparation goes well, and of the documents that
were prepared none fails. -/
theorem run_success_iff [Highlight.Library] [Programs] {j : Job} {h : Host} :
    (∃ h' st, j.run h = (h', .ok st) ∧ st.success = true) ↔
      h.exists? j.input = true ∧ ∃ h₁ files, j.prepare h = (h₁, .ok files) ∧
        NoneFails h₁ j.options files := by
  unfold Job.run
  split
  · next hexists =>
    simp only [hexists, true_and]
    split
    · next h₁ e hp => simp [hp]
    · next h₁ files hp => simp [hp, NoneFails, Stats.success_sorted]
  · next hmissing => simp [hmissing]

end CodeTint.Batch
