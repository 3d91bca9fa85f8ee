/-
# One grammar for markers

A marker is recognized at one place and taken off at another.  Recognizing looks at the first line of
the trimmed text; taking off cuts the trimmed text behind its first line feed.  Both go by one grammar
(`Marked`): **blank lines, `#!` with a plain name, blanks up to the end of the line, and the rest.**

`marker?_eq_some` says what recognizing asks of the untrimmed text, for trimming costs the first line
blanks at most.  From that come both directions of the grammar, and what is no marker: an indented one,
one with something behind the name on its line, a path.
-/
import CodeTint.Proofs.Language.Lines

namespace CodeTint.Language

open CodeTint.Text

/-! ## 1. The grammar -/

/-- **A plain name**: at least one ASCII letter, digit or one of five further characters. -/
structure PlainName (name : List Char) : Prop where
  ne_nil : name ≠ []
  chars : ∀ c ∈ name, ('a' ≤ c ∧ c ≤ 'z') ∨ ('A' ≤ c ∧ c ≤ 'Z') ∨ ('0' ≤ c ∧ c ≤ '9') ∨
    c ∈ ['-', '_', '+', '#', '.']

/-- **A text with a marker** of a name, and what follows the marker's line: nothing, or the line feed
and all behind it. -/
inductive Marked : (text name rest : List Char) → Prop
  | mk {lines name blanks rest : List Char} (hlines : BlankLines lines) (hname : PlainName name)
      (hblanks : allBlank blanks = true) (hline : '\n' ∉ blanks)
      (hrest : rest = [] ∨ ∃ r, rest = '\n' :: r) :
      Marked (lines ++ (markerLead ++ name ++ blanks ++ rest)) name rest

theorem isNameChar_iff {c : Char} : isNameChar c = true ↔
    ('a' ≤ c ∧ c ≤ 'z') ∨ ('A' ≤ c ∧ c ≤ 'Z') ∨ ('0' ≤ c ∧ c ≤ '9') ∨
      c ∈ ['-', '_', '+', '#', '.'] := by
  have hupper : c.isUpper = true ↔ 'A' ≤ c ∧ c ≤ 'Z' := decide_eq_true_iff
  have hdigit : c.isDigit = true ↔ '0' ≤ c ∧ c ≤ '9' := by
    change (decide ('0' ≤ c) && decide (c ≤ '9')) = true ↔ _
    rw [Bool.and_eq_true, decide_eq_true_eq, decide_eq_true_eq]
  have hlower : c.isLower = true ↔ 'a' ≤ c ∧ c ≤ 'z' := isLower_iff
  have halphanum : c.isAlphanum = ((c.isUpper || c.isLower) || c.isDigit) := rfl
  simp only [isNameChar, halphanum, Bool.or_eq_true, hupper, hlower, hdigit, beq_iff_eq,
    List.mem_cons, List.not_mem_nil, or_false, or_assoc]
  rw [@or_left_comm (c = '#')]
  exact or_left_comm

theorem isName_iff {name : List Char} : isName name = true ↔ PlainName name := by
  simp only [isName, Bool.and_eq_true, Bool.not_eq_true', List.isEmpty_eq_false_iff,
    List.all_eq_true, isNameChar_iff]
  exact ⟨fun ⟨hne, hchars⟩ => ⟨hne, hchars⟩, fun ⟨hne, hchars⟩ => ⟨hne, hchars⟩⟩

/-- A name character stands between the blanks of ASCII and its end. -/
theorem toNat_of_isNameChar {c : Char} (h : isNameChar c = true) : 33 ≤ c.toNat ∧ c.toNat < 128 := by
  rw [isNameChar_iff] at h
  simp only [Char.le_def, UInt32.le_iff_toNat_le, List.mem_cons, List.not_mem_nil, or_false] at h
  rcases h with h | h | h | rfl | rfl | rfl | rfl | rfl
  · change 97 ≤ c.toNat ∧ c.toNat ≤ 122 at h
    omega
  · change 65 ≤ c.toNat ∧ c.toNat ≤ 90 at h
    omega
  · change 48 ≤ c.toNat ∧ c.toNat ≤ 57 at h
    omega
  all_goals decide

theorem isBlank_of_isNameChar {c : Char} (h : isNameChar c = true) : isBlank c = false := by
  have hc := toNat_of_isNameChar h
  rw [Bool.eq_false_iff, isBlank]
  simp only [ne_eq, Bool.or_eq_true, Bool.and_eq_true, decide_eq_true_eq, beq_iff_eq]
  omega

namespace PlainName

variable {name : List Char}

theorem isBlank (h : PlainName name) {c : Char} (hc : c ∈ name) : Text.isBlank c = false :=
  isBlank_of_isNameChar (isNameChar_iff.mpr (h.chars c hc))

theorem trimEnd_eq (h : PlainName name) : trimEnd name = name :=
  trimEnd_of_forall fun _ hc => h.isBlank hc

theorem lineFeed_not_mem (h : PlainName name) : '\n' ∉ name := fun hc => by
  cases h.isBlank hc

theorem slash_not_mem (h : PlainName name) : '/' ∉ name := by
  intro hc
  have hslash := isNameChar_iff.mpr (h.chars _ hc)
  revert hslash
  decide

end PlainName

theorem isBlank_of_mem_markerLead : ∀ c ∈ markerLead, isBlank c = false := by
  simp [markerLead, isBlank]

/-! ## 2. What recognizing asks for -/

/-- **The name of a marker**, seen from the untrimmed text: its first line that is not blank is the
marker, with nothing but blanks behind the name. -/
theorem marker?_eq_some {text name : List Char} : marker? text = some name ↔
    PlainName name ∧ ∃ blanks, allBlank blanks = true ∧
      firstLine (dropBlankLines text) = markerLead ++ name ++ blanks := by
  obtain ⟨lost, hlost, hline⟩ := firstLine_trimEnd (dropBlankLines text)
  rw [← trimBlankLines] at hline
  rw [hline, marker?]
  constructor
  · intro h
    split at h
    · next r hr =>
      dsimp only at h
      split at h
      · next hname =>
        cases h
        obtain ⟨blanks, hblanks, hr'⟩ := trimEnd_append_blanks r
        refine ⟨isName_iff.mp hname, blanks ++ lost, by simp [hblanks, hlost], ?_⟩
        rw [after?_eq_some.mp hr]
        conv_lhs => rw [hr']
        simp
      · cases h
    · cases h
  · rintro ⟨hname, blanks, hblanks, heq⟩
    -- what trimming takes of the line is behind the name
    obtain ⟨kept, hkept, hfirst⟩ := trimEnd_append_blanks (firstLine (trimBlankLines text))
    have hcore : trimEnd (firstLine (trimBlankLines text)) = markerLead ++ name := by
      rw [← trimEnd_append_of_blank hlost, heq, trimEnd_append_of_blank hblanks]
      refine trimEnd_of_forall fun c hc => ?_
      rcases List.mem_append.mp hc with hc | hc
      · exact isBlank_of_mem_markerLead c hc
      · exact hname.isBlank hc
    rw [hcore] at hfirst
    have hafter : after? markerLead (firstLine (trimBlankLines text)) = some (name ++ kept) := by
      rw [after?_eq_some, hfirst, List.append_assoc]
    rw [hafter]
    dsimp only
    rw [trimEnd_append_of_blank hkept, hname.trimEnd_eq, if_pos (isName_iff.mpr hname)]

/-- **A text without a marker on its first line that is not blank** has none. -/
theorem marker?_eq_none {lines s : List Char} (hlines : BlankLines lines)
    (hs : allBlank (firstLine s) = false)
    (h : ∀ name blanks, PlainName name → allBlank blanks = true →
      firstLine s ≠ markerLead ++ name ++ blanks) : marker? (lines ++ s) = none := by
  cases hm : marker? (lines ++ s) with
  | none => rfl
  | some name =>
    obtain ⟨hname, blanks, hblanks, heq⟩ := marker?_eq_some.mp hm
    rw [dropBlankLines_append hlines hs] at heq
    exact absurd heq (h name blanks hname hblanks)

/-- The line of a marker is not blank. -/
theorem allBlank_firstLine_marker (s : List Char) : allBlank (firstLine (markerLead ++ s)) = false :=
  rfl

theorem firstLine_marker (s : List Char) : firstLine (markerLead ++ s) = markerLead ++ firstLine s :=
  rfl

/-! ## 3. Both directions -/

/-- **A text has a marker just if one is recognized in it.** -/
theorem marker?_iff_marked {text name : List Char} :
    marker? text = some name ↔ ∃ rest, Marked text name rest := by
  rw [marker?_eq_some]
  constructor
  · rintro ⟨hname, blanks, hblanks, heq⟩
    rcases dropBlankLines_cases text with ⟨lines, hlines, htext, -⟩ | ⟨-, hnil⟩
    · have hline : '\n' ∉ blanks := by
        intro hc
        refine lineFeed_not_mem_firstLine (dropBlankLines text) ?_
        rw [heq]
        exact List.mem_append_right _ hc
      refine ⟨Language.rest (dropBlankLines text), ?_⟩
      have hmarked := Marked.mk hlines hname hblanks hline (rest_cases (dropBlankLines text))
      rwa [← heq, firstLine_append_rest, ← htext] at hmarked
    · rw [hnil] at heq
      cases heq
  · rintro ⟨rest, hmarked⟩
    cases hmarked with
    | @mk lines _ blanks _ hlines hname hblanks hline hrest =>
      refine ⟨hname, blanks, hblanks, ?_⟩
      have hnot : '\n' ∉ markerLead ++ name ++ blanks := by
        simp [markerLead, hname.lineFeed_not_mem, hline]
      rw [dropBlankLines_append hlines (by simp only [List.append_assoc, allBlank_firstLine_marker])]
      exact (firstLine_eq_of hnot hrest).1

/-- **What is colorized** of a text with a marker is what follows the line feed of the marker's line,
less the blanks at the end. -/
theorem Marked.source_eq {text name rest : List Char} (h : Marked text name rest) :
    source .marker text = trimEnd (rest.drop 1) := by
  cases h with
  | @mk lines _ blanks _ hlines hname hblanks hline hrest =>
    have hnot : '\n' ∉ markerLead ++ name ++ blanks := by
      simp [markerLead, hname.lineFeed_not_mem, hline]
    rw [source, trimBlankLines, afterFirstLine_trimEnd,
      dropBlankLines_append hlines (by simp only [List.append_assoc, allBlank_firstLine_marker]),
      afterFirstLine_eq, (firstLine_eq_of hnot hrest).2]

/-! ## 4. What is no marker -/

section

variable {lines : List Char}

/-- **An indented marker** is none. -/
theorem marker?_indented {indent s : List Char} (hlines : BlankLines lines) (hne : indent ≠ [])
    (hindent : allBlank indent = true) (hline : '\n' ∉ indent) :
    marker? (lines ++ (indent ++ markerLead ++ s)) = none := by
  have hfirst : firstLine (indent ++ markerLead ++ s) = indent ++ markerLead ++ firstLine s := by
    have hnot : '\n' ∉ indent ++ markerLead ++ firstLine s := by
      simp [markerLead, hline, lineFeed_not_mem_firstLine]
    have hcut := (firstLine_eq_of hnot (rest_cases s)).1
    rwa [List.append_assoc, firstLine_append_rest] at hcut
  refine marker?_eq_none hlines ?_ fun name blanks _ _ heq => ?_
  · rw [hfirst]
    simp [markerLead, isBlank]
  · -- the line begins with a blank, and a marker does not
    obtain ⟨c, indent, rfl⟩ := List.exists_cons_of_ne_nil hne
    rw [hfirst] at heq
    have hc : c = '#' := (List.cons.inj heq).1
    rw [hc] at hindent
    cases hindent

/-- **Something behind the name on its line**, be it behind a lone carriage return, makes it none. -/
theorem marker?_followed {name later : List Char} (hlines : BlankLines lines)
    (hname : PlainName name) (hlater : allBlank (firstLine later) = false) :
    marker? (lines ++ (markerLead ++ name ++ '\r' :: later)) = none := by
  have hfirst : firstLine (markerLead ++ name ++ '\r' :: later)
      = markerLead ++ name ++ '\r' :: firstLine later := by
    have hnot : '\n' ∉ markerLead ++ name ++ '\r' :: firstLine later := by
      simp [markerLead, hname.lineFeed_not_mem, lineFeed_not_mem_firstLine]
    have hcut := (firstLine_eq_of hnot (rest_cases later)).1
    rwa [List.append_assoc, List.cons_append, firstLine_append_rest] at hcut
  refine marker?_eq_none hlines (by rw [List.append_assoc, allBlank_firstLine_marker])
    fun name' blanks hname' hblanks heq => ?_
  rw [hfirst, List.append_assoc, List.append_assoc, List.append_cancel_left_eq] at heq
  -- the name ends before the carriage return, so what follows that is among the blanks
  rcases List.append_eq_append_iff.mp heq with ⟨x, hx, hy⟩ | ⟨x, rfl, rfl⟩
  · cases x with
    | nil =>
      rw [List.nil_append] at hy
      rw [← hy, allBlank_cons, hlater] at hblanks
      simp at hblanks
    | cons c x =>
      have hc : '\r' = c := (List.cons.inj hy).1
      have hreturn : '\r' ∈ name' := by
        rw [hx, hc]
        simp
      cases hname'.isBlank hreturn
  · rw [allBlank_append, allBlank_cons, hlater] at hblanks
    simp at hblanks

/-- **A path** is none, wherever in it the slash stands. -/
theorem marker?_path {path : List Char} (hlines : BlankLines lines) (hpath : '/' ∈ firstLine path) :
    marker? (lines ++ (markerLead ++ path)) = none := by
  refine marker?_eq_none hlines (allBlank_firstLine_marker path)
    fun name blanks hname hblanks heq => ?_
  rw [firstLine_marker, List.append_assoc, List.append_cancel_left_eq] at heq
  rw [heq] at hpath
  rcases List.mem_append.mp hpath with h | h
  · exact hname.slash_not_mem h
  · cases allBlank_iff.mp hblanks _ h

end

/-- **Recognizing and taking off a marker go by one grammar.**

* A name is recognized just if the text is blank lines, `#!` with the name, blanks without a line feed,
  and then nothing or a line feed with what follows.
* What is colorized then is what follows that line feed, up to the blanks at the end of the text: the
  marker's line is gone as a whole, and of the lines behind it nothing but these blanks.
* Nothing is recognized in a marker that is indented, in one that only a carriage return separates from
  more text, and in a path. -/
theorem marker_grammar (text : List Char) :
    (∀ name, marker? text = some name ↔ ∃ rest, Marked text name rest) ∧
    (∀ name rest, Marked text name rest →
      source .marker text = trimEnd (rest.drop 1) ∧
        ∃ blanks, allBlank blanks = true ∧ rest.drop 1 = source .marker text ++ blanks) ∧
    ∀ lines, BlankLines lines →
      (∀ indent s, text = lines ++ (indent ++ markerLead ++ s) → indent ≠ [] →
        allBlank indent = true → '\n' ∉ indent → marker? text = none) ∧
      (∀ name later, text = lines ++ (markerLead ++ name ++ '\r' :: later) → PlainName name →
        allBlank (firstLine later) = false → marker? text = none) ∧
      ∀ path, text = lines ++ (markerLead ++ path) → '/' ∈ firstLine path → marker? text = none := by
  refine ⟨fun name => marker?_iff_marked, fun name rest hmarked => ?_, fun lines hlines => ⟨?_, ?_, ?_⟩⟩
  · rw [hmarked.source_eq]
    exact ⟨rfl, trimEnd_append_blanks (rest.drop 1)⟩
  · rintro indent s rfl hne hindent hline
    exact marker?_indented hlines hne hindent hline
  · rintro name later rfl hname hlater
    exact marker?_followed hlines hname hlater
  · rintro path rfl hpath
    exact marker?_path hlines hpath

/-- A text with a marker: two blank lines before it, a tab and a carriage return behind the name. -/
def tagged : List Char := "\n \u00A0\n#!c++\t\r\n  int x;\n\u000B\n  y++;\r\n ".toList

theorem marker_grammar_tagged :
    Marked tagged "c++".toList "\n  int x;\n\u000B\n  y++;\r\n ".toList ∧
      marker? tagged = some "c++".toList ∧
      source .marker tagged = "  int x;\n\u000B\n  y++;".toList ∧
      marker? "\n #!c++\nint x;".toList = none ∧
      marker? "\n#!ruby\rputs 1\n".toList = none ∧
      marker? "\n#!/usr/bin/env ruby\nputs 1".toList = none := by
  have hlines : BlankLines "\n \u00A0\n".toList :=
    @BlankLines.line [] [' ', '\u00A0', '\n'] rfl (by decide)
      (@BlankLines.line [' ', '\u00A0'] [] (by decide) (by decide) .nil)
  have hfeed : BlankLines "\n".toList := @BlankLines.line [] [] rfl (by decide) .nil
  have htext : tagged = "\n \u00A0\n".toList ++ (markerLead ++ "c++".toList ++ "\t\r".toList ++
      "\n  int x;\n\u000B\n  y++;\r\n ".toList) := by decide +kernel
  have hmarked : Marked tagged "c++".toList "\n  int x;\n\u000B\n  y++;\r\n ".toList := by
    rw [htext]
    exact Marked.mk hlines (isName_iff.mp (by decide)) (by decide) (by decide) (Or.inr ⟨_, rfl⟩)
  obtain ⟨hname, hsource, -⟩ := marker_grammar tagged
  refine ⟨hmarked, (hname _).mpr ⟨_, hmarked⟩, ?_, ?_, ?_, ?_⟩
  · rw [(hsource _ _ hmarked).1]
    decide +kernel
  · exact ((marker_grammar _).2.2 _ hfeed).1 " ".toList "c++\nint x;".toList rfl (by decide)
      (by decide) (by decide)
  · exact ((marker_grammar _).2.2 _ hfeed).2.1 "ruby".toList "puts 1\n".toList rfl
      (isName_iff.mp (by decide)) (by decide)
  · exact ((marker_grammar _).2.2 _ hfeed).2.2 "/usr/bin/env ruby\nputs 1".toList rfl (by decide)

end CodeTint.Language
