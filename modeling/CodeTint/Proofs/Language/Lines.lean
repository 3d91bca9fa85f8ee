/-
# Lines, and how trimming goes through them

A text is its first line and what follows it (`firstLine_append_rest`).  What follows is nothing, or it
begins with a line feed.  Trimming the end of the text and looking at its first line can be exchanged:
the first line loses blanks at most (`firstLine_trimEnd`), and behind the first line feed it makes no
difference which is done first (`afterFirstLine_trimEnd`).

Dropping blank lines takes complete ones only (`dropBlankLines_cases`), unless the text is blank all
through, and it takes all of them (`dropBlankLines_append`).  So a trimmed text has no blank line in
front and no blank at its end (`trims_trimBlankLines`).
-/
import CodeTint.Language
import CodeTint.Proofs.Text.Blank
import CodeTint.Proofs.Text.Cut

namespace CodeTint.Language

open CodeTint.Text

/-! ## 1. The first line -/

/-- What follows the first line, with the line feed in between. -/
def rest (s : List Char) : List Char := s.dropWhile (· != '\n')

theorem afterFirstLine_eq (s : List Char) : afterFirstLine s = (rest s).drop 1 := rfl

theorem firstLine_append_rest (s : List Char) : firstLine s ++ rest s = s :=
  List.takeWhile_append_dropWhile

theorem lineFeed_not_mem_firstLine (s : List Char) : '\n' ∉ firstLine s := notMem_takeWhile _ s

/-- What follows the first line is nothing, or begins with a line feed. -/
theorem rest_cases (s : List Char) : rest s = [] ∨ ∃ r, rest s = '\n' :: r := by
  cases h : rest s with
  | nil => exact Or.inl rfl
  | cons c r =>
    obtain ⟨hc, -⟩ := eq_of_dropWhile h
    exact Or.inr ⟨r, by rw [hc]⟩

/-- **How a text is cut**: into a stretch without a line feed, and nothing or something that begins with
one. -/
theorem firstLine_eq_of {line r : List Char} (hline : '\n' ∉ line)
    (hr : r = [] ∨ ∃ r', r = '\n' :: r') : firstLine (line ++ r) = line ∧ rest (line ++ r) = r := by
  rcases hr with rfl | ⟨r', rfl⟩
  · have hall := forall_bne_of_notMem hline
    rw [List.append_nil, firstLine, rest, List.takeWhile_eq_self_iff, List.dropWhile_eq_nil_iff]
    exact ⟨hall, hall⟩
  · exact cut_append hline r'

/-! ## 2. Trimming the end -/

/-- **How trimming goes through the lines**: if nothing but blanks follows the first line, what follows
goes and the line is trimmed; else the line stays and what follows is trimmed. -/
theorem trimEnd_cases (s : List Char) :
    (allBlank (rest s) = true ∧ firstLine (trimEnd s) = trimEnd (firstLine s) ∧
        rest (trimEnd s) = []) ∨
      ∃ r, rest s = '\n' :: r ∧ firstLine (trimEnd s) = firstLine s ∧
        rest (trimEnd s) = '\n' :: trimEnd r := by
  have hs : trimEnd s = trimEnd (firstLine s ++ rest s) := by rw [firstLine_append_rest]
  by_cases hblank : allBlank (rest s) = true
  · rw [trimEnd_append, if_pos hblank] at hs
    have hline : '\n' ∉ trimEnd (firstLine s) := fun h =>
      lineFeed_not_mem_firstLine s (( trimEnd_prefix _).subset h)
    have hcut := firstLine_eq_of hline (Or.inl rfl)
    rw [List.append_nil, ← hs] at hcut
    exact Or.inl ⟨hblank, hcut.1.trans hs, hcut.2⟩
  · rcases rest_cases s with hrest | ⟨r, hr⟩
    · rw [hrest] at hblank
      exact absurd allBlank_nil hblank
    · -- what is not blank in the rest stands behind the line feed
      have hr' : ¬ allBlank r = true := by
        intro h
        simp [hr, h, isBlank] at hblank
      have hfeed : trimEnd ('\n' :: r) = '\n' :: trimEnd r := by
        rw [← List.singleton_append, trimEnd_append, if_neg hr', List.singleton_append]
      rw [trimEnd_append, if_neg hblank, hr, hfeed] at hs
      have hcut := firstLine_eq_of (lineFeed_not_mem_firstLine s) (Or.inr ⟨trimEnd r, rfl⟩)
      rw [← hs] at hcut
      exact Or.inr ⟨r, hr, hcut.1, hcut.2⟩

/-- **The first line loses blanks at most.** -/
theorem firstLine_trimEnd (s : List Char) :
    ∃ blanks, allBlank blanks = true ∧ firstLine s = firstLine (trimEnd s) ++ blanks := by
  rcases trimEnd_cases s with ⟨-, hline, -⟩ | ⟨r, -, hline, -⟩
  · rw [hline]
    exact trimEnd_append_blanks (firstLine s)
  · exact ⟨[], rfl, by rw [hline, List.append_nil]⟩

/-- **Behind the first line feed** trimming can come first or last. -/
theorem afterFirstLine_trimEnd (s : List Char) :
    afterFirstLine (trimEnd s) = trimEnd (afterFirstLine s) := by
  rw [afterFirstLine_eq, afterFirstLine_eq]
  rcases trimEnd_cases s with ⟨hblank, -, hrest⟩ | ⟨r, hr, -, hrest⟩
  · rw [hrest, List.drop_nil, eq_comm, trimEnd_eq_nil]
    rcases rest_cases s with h | ⟨r, h⟩
    · rw [h]
      exact allBlank_nil
    · rw [h, allBlank_cons, Bool.and_eq_true] at hblank
      rw [h]
      exact hblank.2
  · rw [hr, hrest]
    rfl

/-! ## 3. Blank lines -/

/-- **Complete lines that are blank**, each with its line feed. -/
inductive BlankLines : List Char → Prop
  | nil : BlankLines []
  | line {line lines : List Char} (hblank : allBlank line = true) (hline : '\n' ∉ line)
      (h : BlankLines lines) : BlankLines (line ++ '\n' :: lines)

/-- **All complete blank lines at the start are dropped.** -/
theorem dropBlankLines_append {lines s : List Char} (h : BlankLines lines)
    (hs : allBlank (firstLine s) = false) : dropBlankLines (lines ++ s) = s := by
  induction h with
  | nil =>
    have hne : s ≠ [] := by
      rintro rfl
      simp [firstLine] at hs
    rw [List.nil_append, dropBlankLines]
    simp [hne, hs]
  | @line line lines hblank hline h ih =>
    have hcut := firstLine_eq_of hline (Or.inr ⟨lines ++ s, rfl⟩)
    rw [List.append_assoc, List.cons_append, dropBlankLines, afterFirstLine_eq, hcut.1, hcut.2]
    simp [hblank, ih]

/-- **Nothing else is dropped**, unless the text is blank all through. -/
theorem dropBlankLines_cases (s : List Char) :
    (∃ lines, BlankLines lines ∧ s = lines ++ dropBlankLines s ∧
        allBlank (firstLine (dropBlankLines s)) = false) ∨
      allBlank s = true ∧ dropBlankLines s = [] := by
  fun_induction dropBlankLines s with
  | case1 => exact Or.inr ⟨rfl, rfl⟩
  | case2 s hne hblank ih =>
    have hs := firstLine_append_rest s
    rw [afterFirstLine_eq] at ih
    rcases rest_cases s with hr | ⟨r, hr⟩
    · -- the last line is blank and has no line feed
      rw [hr, List.append_nil] at hs
      refine Or.inr ⟨hs ▸ hblank, ?_⟩
      rw [afterFirstLine_eq, hr, List.drop_nil, dropBlankLines]
      simp
    · rw [hr] at hs ih
      rw [afterFirstLine_eq, hr, List.drop_succ_cons, List.drop_zero] at *
      rcases ih with ⟨lines, hlines, heq, hrest⟩ | ⟨hall, hnil⟩
      · refine Or.inl ⟨_, .line hblank (lineFeed_not_mem_firstLine s) hlines, ?_, hrest⟩
        rw [List.append_assoc, List.cons_append, ← heq, hs]
      · refine Or.inr ⟨?_, hnil⟩
        rw [← hs]
        simp [hblank, hall, isBlank]
  | case3 s hne hblank => exact Or.inl ⟨[], .nil, rfl, Bool.eq_false_iff.mpr hblank⟩

/-! ## 4. What trimming leaves -/

/-- **A text without leading blank lines and trailing blanks.**  It may be empty. -/
structure Trimmed (s : List Char) : Prop where
  front : s ≠ [] → allBlank (firstLine s) = false
  back : ∀ c ∈ s.getLast?, isBlank c = false

/-- **A text whose end is trimmed is trimmed** just if it is blank all through, or its first line is
not. -/
theorem trimmed_trimEnd_iff {s : List Char} :
    Trimmed (trimEnd s) ↔ allBlank s = true ∨ allBlank (firstLine s) = false := by
  have hback := getLast?_trimEnd s
  by_cases hs : allBlank s = true
  · have hnil := trimEnd_eq_nil.mpr hs
    exact ⟨fun _ => .inl hs, fun _ => ⟨fun hne => absurd hnil hne, hback⟩⟩
  · -- the first line loses blanks at most
    obtain ⟨blanks, hblanks, hline⟩ := firstLine_trimEnd s
    have hsame : allBlank (firstLine s) = allBlank (firstLine (trimEnd s)) := by
      rw [hline, allBlank_append, hblanks, Bool.and_true]
    have hne : trimEnd s ≠ [] := fun hnil => hs (trimEnd_eq_nil.mp hnil)
    rw [hsame]
    exact ⟨fun h => .inr (h.front hne), fun h => ⟨fun _ => h.resolve_left hs, hback⟩⟩

/-- **What is trimmed off a text**: complete blank lines in front, and blanks at the end. -/
def Trims (text kept : List Char) : Prop :=
  Trimmed kept ∧ ∃ lines blanks, BlankLines lines ∧ allBlank blanks = true ∧
    text = lines ++ kept ++ blanks

theorem trims_trimBlankLines (text : List Char) : Trims text (trimBlankLines text) := by
  obtain ⟨blanks, hblanks, heq⟩ := trimEnd_append_blanks (dropBlankLines text)
  rcases dropBlankLines_cases text with ⟨lines, hlines, htext, hline⟩ | ⟨hblank, hnil⟩
  · refine ⟨trimmed_trimEnd_iff.mpr (.inr hline), lines, blanks, hlines, hblanks, ?_⟩
    rw [trimBlankLines, List.append_assoc, ← heq]
    exact htext
  · have hkept : trimBlankLines text = [] := by rw [trimBlankLines, hnil, trimEnd_nil]
    rw [hkept]
    exact ⟨⟨fun hne => absurd rfl hne, by simp⟩, [], text, .nil, hblank, rfl⟩

end CodeTint.Language
