/-
# What trimming takes off a text, exactly

A text is cut in three (`IsCut`): **complete blank lines, as many as there are in front; what is kept;
and blanks**.  If the text is blank all through, the first part is the whole of it.  Such a cut exists in
one way only, and the part in the middle is what trimming leaves (`isCut_iff`).

Trimming finds the first part line by line and adds up the bytes (`leadSize`).  As lines are taken whole,
the sum is a place between two characters, with blanks of any size in front of it (`size_leadOf`), and the
first line that is kept begins where it began in the text, so it keeps its indentation
(`indent_trimBlankLines`).

From that the rest follows: what is trimmed already has nothing to give, so a second time changes
nothing, and a marker is found in the trimmed text as in the text.
-/
import CodeTint.Proofs.Language.Lines
import CodeTint.Proofs.Text.Slice

namespace CodeTint.Language

open CodeTint.Text

variable {text lead kept blanks s : List Char}

/-! ## 1. The blank lines in front -/

/-- **The longest front part of a text that is made of complete blank lines**, or the whole text if that
is blank all through. -/
structure IsLead (text lead : List Char) : Prop where
  front : lead <+: text
  longest : ∀ lines, BlankLines lines → lines <+: text → lines <+: lead
  whole : allBlank text = true → lead = text
  lines : allBlank text = false → BlankLines lead

theorem allBlank_of_firstLine (h : allBlank (firstLine s) = false) : allBlank s = false := by
  rw [← firstLine_append_rest s, allBlank_append, h, Bool.false_and]

/-- Behind blank lines stands a line that is not blank, so no others in front go further. -/
theorem BlankLines.prefix_of_prefix {lines others : List Char} (ho : BlankLines others)
    (h : BlankLines lines) (hs : allBlank (firstLine s) = false) (hpre : others <+: lines ++ s) :
    others <+: lines := by
  induction ho generalizing lines with
  | nil => exact List.nil_prefix
  | @line line others hblank hline _ ih =>
    obtain ⟨back, hback⟩ := hpre
    rw [List.append_assoc, List.cons_append] at hback
    obtain ⟨hfirst, hrest⟩ := firstLine_eq_of hline (Or.inr ⟨others ++ back, rfl⟩)
    cases h with
    | nil =>
      rw [hback, List.nil_append] at hfirst
      rw [hfirst, hblank] at hs
      cases hs
    | @line line' lines hblank' hline' h =>
      -- both begin with the same line
      rw [List.append_assoc, List.cons_append] at hback
      obtain ⟨hfirst', hrest'⟩ := firstLine_eq_of hline' (Or.inr ⟨lines ++ s, rfl⟩)
      rw [← hback, hfirst] at hfirst'
      rw [← hback, hrest] at hrest'
      rw [hfirst', List.prefix_append_right_inj, List.cons_prefix_cons]
      exact ⟨rfl, ih h ⟨back, (List.cons.inj hrest').2⟩⟩

/-- **Complete blank lines in front of a line that is not blank** are the longest there are. -/
theorem BlankLines.isLead (h : BlankLines lead) (hs : allBlank (firstLine s) = false) :
    IsLead (lead ++ s) lead := by
  have hno : allBlank (lead ++ s) = false := by
    rw [allBlank_append, allBlank_of_firstLine hs, Bool.and_false]
  refine ⟨List.prefix_append lead s, fun lines hlines => hlines.prefix_of_prefix h hs,
    fun hall => ?_, fun _ => h⟩
  rw [hno] at hall
  cases hall

theorem isLead_self (h : allBlank text = true) : IsLead text text := by
  refine ⟨List.prefix_rfl, fun _ _ hpre => hpre, fun _ => rfl, fun hno => ?_⟩
  rw [h] at hno
  cases hno

/-- What is trimmed has no blank lines in front. -/
theorem Trimmed.isLead (h : Trimmed s) : IsLead s [] := by
  by_cases hne : s = []
  · rw [hne]
    exact isLead_self rfl
  · exact BlankLines.nil.isLead (h.front hne)

theorem IsLead.unique {lead' : List Char} (h : IsLead text lead) (h' : IsLead text lead') :
    lead = lead' := by
  cases hall : allBlank text with
  | true => rw [h.whole hall, h'.whole hall]
  | false =>
    have hpre := h'.longest lead (h.lines hall) h.front
    have hpre' := h.longest lead' (h'.lines hall) h'.front
    exact hpre.eq_of_length_le hpre'.length_le

/-! ## 2. The loop over the lines -/

/-- **The lines of a text**, each with its line feed; the last one may have none. -/
def feedLines (s : List Char) : List (List Char) :=
  if _h : s = [] then [] else (firstLine s ++ (rest s).take 1) :: feedLines (afterFirstLine s)
termination_by s.length
decreasing_by exact afterFirstLine_length_lt _h

theorem flatten_feedLines (s : List Char) : (feedLines s).flatten = s := by
  fun_induction feedLines s with
  | case1 => rfl
  | case2 s hne ih =>
    rw [List.flatten_cons, ih, afterFirstLine_eq, List.append_assoc, List.take_append_drop,
      firstLine_append_rest]

/-- A line feed does not count for whether a line is blank. -/
theorem allBlank_feedLine (s : List Char) :
    allBlank (firstLine s ++ (rest s).take 1) = allBlank (firstLine s) := by
  rcases rest_cases s with h | ⟨r, h⟩ <;> simp [h, isBlank]

/-- **What is dropped are the blank lines in front**, and all others stay. -/
theorem dropBlankLines_eq (s : List Char) :
    dropBlankLines s = ((feedLines s).dropWhile allBlank).flatten := by
  fun_induction dropBlankLines s with
  | case1 => simp [feedLines]
  | case2 s hne hblank ih =>
    rw [feedLines, dif_neg hne, List.dropWhile_cons_of_pos (by rwa [allBlank_feedLine]), ih]
  | case3 s hne hblank =>
    have hflat := flatten_feedLines s
    rw [feedLines, dif_neg hne] at hflat ⊢
    rw [List.dropWhile_cons_of_neg (by rwa [allBlank_feedLine]), hflat]

/-- What the loop passes. -/
def leadOf (text : List Char) : List Char := ((feedLines text).takeWhile allBlank).flatten

/-- **The place that it comes to**: the bytes of the blank lines in front, added up. -/
def leadSize (text : List Char) : Nat :=
  ((feedLines text).takeWhile allBlank).foldl (fun place line => place + Utf8.size line) 0

theorem leadOf_append (text : List Char) : leadOf text ++ dropBlankLines text = text := by
  rw [leadOf, dropBlankLines_eq, ← List.flatten_append, List.takeWhile_append_dropWhile,
    flatten_feedLines]

theorem isLead_leadOf (text : List Char) : IsLead text (leadOf text) := by
  have happ := leadOf_append text
  rcases dropBlankLines_cases text with ⟨lines, hlines, htext, hline⟩ | ⟨hblank, hnil⟩
  · have hlead : leadOf text = lines := List.append_cancel_right (happ.trans htext)
    have h := hlines.isLead hline
    rwa [← htext, ← hlead] at h
  · rw [hnil, List.append_nil] at happ
    rw [happ]
    exact isLead_self hblank

theorem isLead_iff : IsLead text lead ↔ lead = leadOf text :=
  ⟨fun h => h.unique (isLead_leadOf text), fun h => h ▸ isLead_leadOf text⟩

/-- **What stands behind the blank lines** is what is left when they are dropped. -/
theorem IsLead.rest_eq (h : IsLead text lead) (htext : text = lead ++ s) :
    s = dropBlankLines text := by
  rw [isLead_iff.mp h] at htext
  exact List.append_cancel_left (htext.symm.trans (leadOf_append text).symm)

theorem foldl_size (ls : List (List Char)) (place : Nat) :
    ls.foldl (fun place line => place + Utf8.size line) place = place + Utf8.size ls.flatten := by
  induction ls generalizing place with
  | nil => rfl
  | cons l ls ih => rw [List.foldl_cons, ih, List.flatten_cons, Utf8.size_append, Nat.add_assoc]

theorem size_leadOf (text : List Char) : Utf8.size (leadOf text) = leadSize text := by
  rw [leadSize, foldl_size, leadOf, Nat.zero_add]

/-! ## 3. The cut -/

/-- **A text cut in three**: its blank lines in front, what is kept, and blanks. -/
structure IsCut (text lead kept blanks : List Char) : Prop where
  before : IsLead text lead
  behind : allBlank blanks = true
  whole : text = lead ++ kept ++ blanks

theorem IsCut.unique {lead' blanks' : List Char} (h : IsCut text lead kept blanks)
    (h' : IsCut text lead' kept blanks') : lead = lead' ∧ blanks = blanks' := by
  have hlead := h.before.unique h'.before
  refine ⟨hlead, ?_⟩
  have htext := h.whole.symm.trans h'.whole
  rwa [hlead, List.append_cancel_left_eq] at htext

theorem exists_isCut (text : List Char) :
    ∃ blanks, IsCut text (leadOf text) (trimBlankLines text) blanks := by
  obtain ⟨blanks, hblanks, heq⟩ := trimEnd_append_blanks (dropBlankLines text)
  refine ⟨blanks, isLead_leadOf text, hblanks, ?_⟩
  rw [trimBlankLines, List.append_assoc, ← heq, leadOf_append]

theorem trimmed_trimBlankLines (text : List Char) : Trimmed (trimBlankLines text) :=
  (trims_trimBlankLines text).1

/-- **What trimming leaves is the middle of the one cut.** -/
theorem isCut_iff :
    (∃ lead blanks, IsCut text lead kept blanks ∧ Trimmed kept) ↔ kept = trimBlankLines text := by
  constructor
  · rintro ⟨lead, blanks, hcut, hkept⟩
    have hrest : kept ++ blanks = dropBlankLines text :=
      hcut.before.rest_eq (hcut.whole.trans (List.append_assoc ..))
    rw [trimBlankLines, ← hrest, trimEnd_append_of_blank hcut.behind, trimEnd_eq_self hkept.back]
  · rintro rfl
    obtain ⟨blanks, hcut⟩ := exists_isCut text
    exact ⟨_, blanks, hcut, trimmed_trimBlankLines text⟩

/-- What is trimmed stays as it is. -/
theorem Trimmed.trimBlankLines_eq (h : Trimmed s) : trimBlankLines s = s :=
  (isCut_iff.mp ⟨[], [], ⟨h.isLead, rfl, (List.append_nil s).symm⟩, h⟩).symm

/-! ## 4. Indentation -/

/-- **The indentation of the first line.** -/
def indent (s : List Char) : List Char := (firstLine s).takeWhile isBlank

/-- Trimming the end keeps the indentation of a first line that is not blank. -/
theorem indent_trimEnd (h : allBlank (firstLine s) = false) : indent (trimEnd s) = indent s := by
  obtain ⟨blanks, hblanks, hline⟩ := firstLine_trimEnd s
  rw [hline, allBlank_append, hblanks, Bool.and_true] at h
  have hstop : ¬ (firstLine (trimEnd s)).takeWhile isBlank = firstLine (trimEnd s) := by
    rw [List.takeWhile_eq_self_iff, ← allBlank_iff, h]
    exact Bool.false_ne_true
  have hlen : ¬ ((firstLine (trimEnd s)).takeWhile isBlank).length
      = (firstLine (trimEnd s)).length :=
    fun hlen => hstop ((List.takeWhile_prefix isBlank).eq_of_length hlen)
  rw [indent, indent, hline, List.takeWhile_append, if_neg hlen]

/-- **The first line that is kept is indented as it was.** -/
theorem indent_trimBlankLines (h : IsLead text lead) (htext : text = lead ++ s) :
    indent (trimBlankLines text) = indent s := by
  have hs := h.rest_eq htext
  rw [trimBlankLines, ← hs]
  rcases dropBlankLines_cases text with ⟨-, -, -, hline⟩ | ⟨-, hnil⟩
  · exact indent_trimEnd (hs ▸ hline)
  · rw [hs, hnil, trimEnd_nil]

/-! ## 5. All of it -/

/-- **What trimming does to any text.**

* The text is what trimming leaves, with its blank lines in front before it and blanks behind it, and
  there is one such cut.
* What is left is empty, or its first line and its last character are not blank.  Nothing else in a cut
  of the text is like that.
* The first line that is left has the indentation that it has in the text.
* The bytes of the blank lines in front, added up, are a place between two characters, and so is the
  place where the blanks begin; what is left is what stands between the two.
* A second time changes nothing, and a marker is found as in the text. -/
theorem trimBlankLines_exact (text : List Char) :
    (∃! parts : List Char × List Char, IsCut text parts.1 (trimBlankLines text) parts.2) ∧
    Trimmed (trimBlankLines text) ∧
    (∀ lead kept blanks, IsCut text lead kept blanks → Trimmed kept →
      kept = trimBlankLines text) ∧
    (∀ lead s, IsLead text lead → text = lead ++ s →
      indent (trimBlankLines text) = indent s ∧ Utf8.size lead = leadSize text) ∧
    slice? (leadSize text) (leadSize text + Utf8.size (trimBlankLines text)) text
      = some (trimBlankLines text) ∧
    trimBlankLines (trimBlankLines text) = trimBlankLines text ∧
    marker? (trimBlankLines text) = marker? text := by
  obtain ⟨blanks, hcut⟩ := exists_isCut text
  have htrimmed := trimmed_trimBlankLines text
  have hagain := htrimmed.trimBlankLines_eq
  refine ⟨⟨(leadOf text, blanks), hcut, ?_⟩, htrimmed, ?_, ?_, ?_, hagain, ?_⟩
  · rintro ⟨lead', blanks'⟩ hcut'
    obtain ⟨hlead, hblanks⟩ := hcut'.unique hcut
    exact Prod.ext hlead hblanks
  · intro lead kept blanks hcut hkept
    exact isCut_iff.mp ⟨lead, blanks, hcut, hkept⟩
  · intro lead s hlead htext
    refine ⟨indent_trimBlankLines hlead htext, ?_⟩
    rw [isLead_iff.mp hlead, size_leadOf]
  · have hslice := slice?_append (leadOf text) (trimBlankLines text) blanks
    rwa [Utf8.size_append, size_leadOf, ← hcut.whole] at hslice
  · rw [marker?, marker?, hagain]

/-- A text with two blank lines in front, of which one has a blank of two bytes and a carriage return,
and a third line that begins with a line separator and a tab. -/
def indented : List Char := "\u00A0\r\n \n\u2028\tif x\n\u000B\n  y\u0085\n ".toList

theorem trimBlankLines_exact_indented :
    IsCut indented "\u00A0\r\n \n".toList "\u2028\tif x\n\u000B\n  y".toList "\u0085\n ".toList ∧
      trimBlankLines indented = "\u2028\tif x\n\u000B\n  y".toList ∧
      indent (trimBlankLines indented) = "\u2028\t".toList ∧ leadSize indented = 6 := by
  have hlines : BlankLines "\u00A0\r\n \n".toList :=
    @BlankLines.line ['\u00A0', '\r'] [' ', '\n'] (by decide) (by decide)
      (@BlankLines.line [' '] [] (by decide) (by decide) .nil)
  have htext : indented = "\u00A0\r\n \n".toList ++ "\u2028\tif x\n\u000B\n  y\u0085\n ".toList := by
    decide +kernel
  have hlead : IsLead indented "\u00A0\r\n \n".toList := by
    rw [htext]
    exact hlines.isLead (by decide)
  have hcut : IsCut indented "\u00A0\r\n \n".toList "\u2028\tif x\n\u000B\n  y".toList
      "\u0085\n ".toList := ⟨hlead, by decide, by decide +kernel⟩
  have htrimmed : Trimmed "\u2028\tif x\n\u000B\n  y".toList := by
    refine ⟨fun _ => by decide, fun c hc => ?_⟩
    cases (show some 'y' = some c from hc)
    rfl
  obtain ⟨-, -, hmiddle, hindent, -⟩ := trimBlankLines_exact indented
  obtain ⟨hkept, hsize⟩ := hindent _ _ hlead htext
  refine ⟨hcut, (hmiddle _ _ _ hcut htrimmed).symm, ?_, ?_⟩
  · rw [hkept]
    decide +kernel
  · rw [← hsize]
    decide +kernel

end CodeTint.Language
