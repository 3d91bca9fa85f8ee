/-
# The words of a class value when a language is put into it

A class value is read as words that ASCII separators keep apart, but before the language's word is put
in, the value is trimmed, and that goes by all blank characters of Unicode.  Where both agree on the ends
of the value, **its words stay in their order, the language's word is there at last, and putting it in
again changes nothing** (`KeepsWords`).  Where they do not, a word is cut or lost
(`class_words_kept_iff`).

The rest of the file says which name a class value has (`NamesFirst`), and what the new one is made of
(`words_ensureClass`).
-/
import CodeTint.Proofs.Document.Plan
import CodeTint.Proofs.Language.Marker
import CodeTint.Proofs.Text.Words

namespace CodeTint.Language

open CodeTint.Text

/-! ## 1. The name in a class value -/

/-- The words of a class value; without one there are none. -/
def wordsOf (cls : Option (List Char)) : List (List Char) := words (cls.getD [])

/-- **The first word that names a language** in a class value, with the name in it.  The lead alone is
no name. -/
def NamesFirst (cls : Option (List Char)) (name : List Char) : Prop :=
  ∃ front back, wordsOf cls = front ++ classWord name :: back ∧ name ≠ [] ∧
    ∀ n, classWord n ∈ front → n = []

theorem after?_classLead {w name : List Char} :
    after? classLead w = some name ↔ w = classWord name :=
  after?_eq_some

theorem bind_ofClass? (cls : Option (List Char)) : cls.bind ofClass? = ofClass? (cls.getD []) := by
  cases cls <;> rfl

/-- **The language that a class value names** is the one in its first word that names one. -/
theorem bind_ofClass?_eq_some {cls : Option (List Char)} {name : List Char} :
    cls.bind ofClass? = some name ↔ NamesFirst cls name := by
  rw [bind_ofClass?, ofClass?, List.find?_filterMap, Option.bind_eq_some_iff]
  constructor
  · rintro ⟨w, hw, hafter⟩
    obtain rfl := after?_classLead.mp hafter
    obtain ⟨hname, front, back, hwords, hfront⟩ := List.find?_eq_some_iff_append.mp hw
    refine ⟨front, back, hwords, ?_, fun n hn => ?_⟩
    · simpa [hafter] using hname
    · simpa [classWord, after?_append] using hfront _ hn
  · rintro ⟨front, back, hwords, hne, hfront⟩
    refine ⟨classWord name, List.find?_eq_some_iff_append.mpr ⟨?_, front, back, hwords, ?_⟩,
      after?_append classLead name⟩
    · simpa [classWord, after?_append] using hne
    · intro w hw
      cases hafter : after? classLead w with
      | none => rfl
      | some n =>
        obtain rfl := after?_classLead.mp hafter
        simp [hfront n hw]

/-- It names none if there is no such word. -/
theorem bind_ofClass?_eq_none {cls : Option (List Char)} :
    cls.bind ofClass? = none ↔ ∀ n, classWord n ∈ wordsOf cls → n = [] := by
  rw [bind_ofClass?, ofClass?, List.find?_eq_none]
  constructor
  · intro h n hn
    have hmem : n ∈ (wordsOf cls).filterMap (after? classLead) :=
      List.mem_filterMap.mpr ⟨_, hn, after?_append classLead n⟩
    simpa using h n hmem
  · intro h n hn
    obtain ⟨w, hw, hafter⟩ := List.mem_filterMap.mp hn
    obtain rfl := after?_classLead.mp hafter
    simp [h n hw]

/-! ## 2. The new class value -/

theorem ensureClass_eq (cls : Option (List Char)) (name : List Char) :
    ensureClass cls name
      = if trim (cls.getD []) = [] then classWord name
        else if classWord name ∈ words (trim (cls.getD [])) then trim (cls.getD [])
        else trim (cls.getD []) ++ ' ' :: classWord name := by
  cases cls with
  | none => rfl
  | some old =>
    rw [ensureClass, Option.map_some, Option.getD_some]
    cases trim old with
    | nil => rfl
    | cons c kept => simp

theorem isBlank_of_mem_classLead : ∀ c ∈ classLead, isBlank c = false := by
  intro c hc
  have hall : classLead.all (fun c => !isBlank c) = true := by decide
  simpa using List.all_eq_true.mp hall c hc

theorem classWord_ne_nil (name : List Char) : classWord name ≠ [] :=
  List.append_ne_nil_of_left_ne_nil (by decide) name

/-- What is no blank is no separator. -/
theorem isSpace_of_isBlank {c : Char} (h : isBlank c = false) : isSpace c = false := by
  rw [Bool.eq_false_iff] at h ⊢
  exact fun hc => h (isBlank_of_isSpace hc)

theorem words_classWord {name : List Char} (h : ∀ c ∈ name, isSpace c = false) :
    words (classWord name) = [classWord name] := by
  refine words_of_forall (classWord_ne_nil name) fun c hc => ?_
  rcases List.mem_append.mp hc with hc | hc
  · exact isSpace_of_isBlank (isBlank_of_mem_classLead c hc)
  · exact h c hc

/-- **The words of the new class value** are those of the trimmed one, with the language's word. -/
theorem words_ensureClass {name : List Char} (h : ∀ c ∈ name, isSpace c = false)
    (cls : Option (List Char)) :
    words (ensureClass cls name) = withWord (classWord name) (words (trim (cls.getD []))) := by
  rw [ensureClass_eq, withWord]
  split
  · next hnil => rw [hnil, words_classWord h, words_nil, if_neg List.not_mem_nil, List.nil_append]
  · split
    · rfl
    · rw [words_append_cons rfl, words_classWord h]

/-- A language's word is not blank. -/
theorem allBlank_classWord (name : List Char) : allBlank (classWord name) = false := rfl

/-- **The new class value is trimmed**, if the language's word was there or has no blank in it. -/
theorem trim_ensureClass {cls : Option (List Char)} {name : List Char}
    (h : classWord name ∈ words (trim (cls.getD [])) ∨ ∀ c ∈ name, isBlank c = false) :
    trim (ensureClass cls name) = ensureClass cls name := by
  rw [ensureClass_eq]
  rcases h with hmem | hname
  · have hne : trim (cls.getD []) ≠ [] := by
      intro hnil
      rw [hnil] at hmem
      cases hmem
    rw [if_neg hne, if_pos hmem, trim_trim]
  · have hword : ∀ c ∈ classWord name, isBlank c = false :=
      List.forall_mem_append.mpr ⟨isBlank_of_mem_classLead, hname⟩
    have hlast : ∀ c ∈ (classWord name).getLast?, isBlank c = false :=
      fun c hc => hword c (List.mem_of_getLast? hc)
    split
    · exact trim_eq_self (fun c hc => hword c (List.mem_of_mem_head? hc)) hlast
    · next hne =>
      split
      · exact trim_trim _
      · -- it begins as the trimmed value does, and ends as the language's word does
        obtain ⟨hhead, -⟩ := ends_trim (cls.getD [])
        refine trim_eq_self (fun c hc => hhead c ?_) fun c hc => hlast c ?_
        · rwa [List.head?_append_of_ne_nil _ hne] at hc
        · rwa [List.getLast?_append_of_ne_nil _ (List.cons_ne_nil _ _),
            List.getLast?_cons_of_ne_nil (classWord_ne_nil name)] at hc

/-- **The new class value has the language's word.** -/
theorem classWord_mem_ensureClass {name : List Char} (h : ∀ c ∈ name, isSpace c = false)
    (cls : Option (List Char)) : classWord name ∈ words (ensureClass cls name) := by
  rw [words_ensureClass h, withWord]
  split
  · assumption
  · exact List.mem_append_right _ (List.mem_singleton_self _)

/-- So it does not change a second time, if it is trimmed. -/
theorem ensureClass_ensureClass {cls : Option (List Char)} {name : List Char}
    (htrim : trim (ensureClass cls name) = ensureClass cls name)
    (hname : ∀ c ∈ name, isSpace c = false) :
    ensureClass (some (ensureClass cls name)) name = ensureClass cls name := by
  have hmem := classWord_mem_ensureClass hname cls
  have hne : ensureClass cls name ≠ [] := by
    intro hnil
    rw [hnil] at hmem
    cases hmem
  rw [ensureClass_eq (some _), Option.getD_some, htrim, if_neg hne, if_pos hmem]

/-! ## 3. Languages that were resolved -/

/-- A name from a class value has no separator in it. -/
theorem NamesFirst.isSpace {cls : Option (List Char)} {name : List Char} (h : NamesFirst cls name) :
    ∀ c ∈ name, isSpace c = false := by
  obtain ⟨front, back, hwords, -, -⟩ := h
  have hmem : classWord name ∈ words (cls.getD []) := by
    rw [← wordsOf, hwords]
    exact List.mem_append_right _ List.mem_cons_self
  exact fun c hc => isSpace_of_mem_words hmem c (List.mem_append_right _ hc)

/-- The language's word names the language again, if it was the first one to or none did. -/
theorem namesFirst_withWord {cls new : Option (List Char)} {name : List Char}
    (hnew : wordsOf new = withWord (classWord name) (wordsOf cls))
    (h : NamesFirst cls name ∨ name ≠ [] ∧ cls.bind ofClass? = none) : NamesFirst new name := by
  rcases h with ⟨front, back, hwords, hne, hfront⟩ | ⟨hne, hnone⟩
  · have hmem : classWord name ∈ wordsOf cls := by
      rw [hwords]
      exact List.mem_append_right _ List.mem_cons_self
    exact ⟨front, back, by rw [hnew, withWord, if_pos hmem, hwords], hne, hfront⟩
  · rw [bind_ofClass?_eq_none] at hnone
    have hmem : classWord name ∉ wordsOf cls := fun hmem => hne (hnone name hmem)
    exact ⟨wordsOf cls, [], by rw [hnew, withWord, if_neg hmem], hne, hnone⟩

/-- **The class value keeps its words** when a language is put into it: it has the same ones in the
same order, then the language's word if that was missing; it names that language, and whoever puts the
language in again changes nothing. -/
structure KeepsWords (cls : Option (List Char)) (name : List Char) : Prop where
  words : Text.words (ensureClass cls name) = withWord (classWord name) (wordsOf cls)
  again : ∀ {m : Type → Type} [Monad m] (recognizes : List Char → m Bool) (text : List Char),
    resolve recognizes (some (ensureClass cls name)) text = pure (some ⟨name, .className⟩)
  stays : ensureClass (some (ensureClass cls name)) name = ensureClass cls name

/-- **When a class value keeps its words.**  The language was resolved from it, or from a marker.  Then
the class value keeps its words just if trimming takes off nothing but separators; a blank of another
kind at either end is part of a word, or a word of its own, and goes. -/
theorem class_words_kept_iff {σ : Type} {recognizes : List Char → Run σ Bool}
    {cls : Option (List Char)} {text : List Char} {s s' : σ} {l : Resolved}
    (h : (resolve recognizes cls text).outcome s = (.ok (some l), s')) :
    KeepsWords cls l.name ↔ SpacedEnds (cls.getD []) := by
  obtain ⟨hspace, horigin, hblank⟩ : (∀ c ∈ l.name, isSpace c = false) ∧
      (NamesFirst cls l.name ∨ l.name ≠ [] ∧ cls.bind ofClass? = none) ∧
      (classWord l.name ∈ wordsOf cls ∨ ∀ c ∈ l.name, isBlank c = false) := by
    rcases Document.resolved_cases h with ⟨-, hclass, -⟩ | ⟨-, hnone, hmarker, -⟩
    · have hnames := bind_ofClass?_eq_some.mp hclass
      obtain ⟨front, back, hwords, -⟩ := id hnames
      exact ⟨hnames.isSpace, .inl hnames, .inl (by rw [hwords]; simp)⟩
    · have hname := (marker?_eq_some.mp hmarker).1
      exact ⟨fun c hc => isSpace_of_isBlank (hname.isBlank hc), .inr ⟨hname.ne_nil, hnone⟩,
        .inr fun c hc => hname.isBlank hc⟩
  constructor
  · rintro ⟨hwords, -, -⟩
    rw [words_ensureClass hspace] at hwords
    exact (withWord_trim_iff (allBlank_classWord l.name)).mp hwords
  · intro hends
    have htrim := words_trim_eq_iff.mpr hends
    have hwords : words (ensureClass cls l.name) = withWord (classWord l.name) (wordsOf cls) := by
      rw [words_ensureClass hspace, htrim]
      rfl
    have hnames : NamesFirst (some (ensureClass cls l.name)) l.name :=
      namesFirst_withWord hwords horigin
    refine ⟨hwords, fun recognizes text => ?_, ensureClass_ensureClass (trim_ensureClass ?_) hspace⟩
    · rw [resolve, bind_ofClass?_eq_some.mpr hnames]
    · rwa [htrim]

/-- A class value between separators, and a text with a marker. -/
theorem class_words_kept_iff_wide :
    (resolve (m := Run Unit) (fun _ => pure true) (some "\n wide\u00A0 deep\t".toList)
        "#!c++\nint x;".toList).outcome () = (.ok (some ⟨"c++".toList, .marker⟩), ()) ∧
      KeepsWords (some "\n wide\u00A0 deep\t".toList) "c++".toList ∧
      ensureClass (some "\n wide\u00A0 deep\t".toList) "c++".toList
        = "wide\u00A0 deep language-c++".toList := by
  have h : (resolve (m := Run Unit) (fun _ => pure true) (some "\n wide\u00A0 deep\t".toList)
      "#!c++\nint x;".toList).outcome () = (.ok (some ⟨"c++".toList, .marker⟩), ()) := by
    decide +kernel
  refine ⟨h, (class_words_kept_iff h).mpr ?_, by decide +kernel⟩
  exact ⟨"\n ".toList, "\t".toList, by decide +kernel, by simp [isSpace]⟩

/-- **A no-break space is taken off.**  At the end of the language's word it was part of the name: the
word is cut, the full one is put in again, and now the cut one names the language.  Alone it was a
word, and is lost. -/
theorem blank_word_lost :
    (resolve (m := Run Unit) (fun _ => pure true) (some "language-k\u00A0".toList) []).outcome ()
        = (.ok (some ⟨"k\u00A0".toList, .className⟩), ()) ∧
      ensureClass (some "language-k\u00A0".toList) "k\u00A0".toList
        = "language-k language-k\u00A0".toList ∧
      ofClass? "language-k language-k\u00A0".toList = some "k".toList ∧
      ¬ KeepsWords (some "language-k\u00A0".toList) "k\u00A0".toList ∧
      wordsOf (some "\u00A0".toList) = ["\u00A0".toList] ∧
      ensureClass (some "\u00A0".toList) "k".toList = "language-k".toList := by
  refine ⟨by decide +kernel, by decide +kernel, by decide +kernel, fun h => ?_, by decide +kernel,
    by decide +kernel⟩
  exact absurd h.words (by decide +kernel)

end CodeTint.Language
