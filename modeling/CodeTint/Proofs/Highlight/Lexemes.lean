/-
# The spans of a grammar suit the source

A list of spans **suits** a source (`Suits`) if those that fit into it begin and end between two
characters, and their tags can stand between double quotes.  A grammar cuts the source into lexemes
and loses nothing of it (`text_lexemes`), so its spans always suit the source (`suits_spans`).
-/
import CodeTint.Highlight.Grammar
import CodeTint.Proofs.Text.Slice

namespace CodeTint.Highlight

open CodeTint.Text

/-- **Spans that suit a source.** -/
structure Suits (source : List Char) (spans : List Span) : Prop where
  /-- Those that fit into the source begin and end between two characters. -/
  edges : ∀ s ∈ spans, s.fits (Utf8.size source) = true →
    IsBoundary s.start source ∧ IsBoundary s.stop source
  /-- Their tags have no double quote. -/
  tags : ∀ s ∈ spans, s.fits (Utf8.size source) = true → '"' ∉ s.tag.toList

instance (source : List Char) (spans : List Span) : Decidable (Suits source spans) :=
  decidable_of_iff (_ ∧ _) ⟨fun ⟨h₁, h₂⟩ => ⟨h₁, h₂⟩, fun ⟨h₁, h₂⟩ => ⟨h₁, h₂⟩⟩

/-! ## 1. Lexemes lose nothing -/

/-- The text of some lexemes. -/
def textOf (ls : List Lexeme) : List Char := ls.flatMap Lexeme.text

@[simp] theorem textOf_nil : textOf [] = [] := rfl

@[simp] theorem textOf_cons (l : Lexeme) (ls : List Lexeme) :
    textOf (l :: ls) = l.text ++ textOf ls := List.flatMap_cons

theorem textOf_lineLexemes (mark line : List Char) : textOf (lineLexemes mark line) = line := by
  rw [lineLexemes]
  split
  · simp only [textOf_cons, textOf_nil, List.append_nil, List.takeWhile_append_dropWhile]
  · simp only [textOf_cons, textOf_nil, List.append_nil]

@[simp] theorem textOf_append (ls ls' : List Lexeme) :
    textOf (ls ++ ls') = textOf ls ++ textOf ls' := List.flatMap_append

/-- The text of lists that are joined is that of the lists, joined by that of the separator. -/
theorem textOf_intercalate (sep : List Lexeme) : ∀ lss : List (List Lexeme),
    textOf (sep.intercalate lss) = (textOf sep).intercalate (lss.map textOf)
  | [] => rfl
  | [ls] => by simp [List.intercalate]
  | ls :: ls' :: lss => by
    rw [List.intercalate_cons_cons, textOf_append, textOf_append, textOf_intercalate sep (ls' :: lss),
      List.map_cons, List.map_cons, List.map_cons, List.intercalate_cons_cons]

/-- What is joined comes from one of the lists, or from a separator. -/
theorem mem_intercalate {l : Lexeme} {sep : List Lexeme} : ∀ {lss : List (List Lexeme)},
    l ∈ sep.intercalate lss → l ∈ sep ∨ ∃ ls ∈ lss, l ∈ ls
  | [], h => by cases h
  | [ls], h => Or.inr ⟨ls, List.mem_cons_self, by simpa [List.intercalate] using h⟩
  | ls :: ls' :: lss, h => by
    rw [List.intercalate_cons_cons, List.mem_append, List.mem_append] at h
    rcases h with (h | h) | h
    · exact Or.inr ⟨ls, List.mem_cons_self, h⟩
    · exact Or.inl h
    · rcases mem_intercalate h with h | ⟨ls'', hls, h⟩
      · exact Or.inl h
      · exact Or.inr ⟨ls'', List.mem_cons_of_mem _ hls, h⟩

theorem textOf_commentLexemes (mark source : List Char) :
    textOf (commentLexemes mark source) = source := by
  have hlines : (source.splitOn '\n').map (textOf ∘ lineLexemes mark) = source.splitOn '\n' :=
    (List.map_congr_left fun line _ => textOf_lineLexemes mark line).trans (List.map_id _)
  calc textOf (commentLexemes mark source)
      = ['\n'].intercalate (((source.splitOn '\n').map (lineLexemes mark)).map textOf) :=
        textOf_intercalate _ _
    _ = ['\n'].intercalate (source.splitOn '\n') := by rw [List.map_map, hlines]
    _ = source := List.intercalate_splitOn '\n'

theorem textOf_jsonLexemes (source : List Char) : textOf (jsonLexemes source) = source := by
  fun_induction jsonLexemes source with
  | case1 => rfl
  | case2 s ih => rw [textOf_cons, ih, List.cons_append, stringBody_append]
  | case3 c s h₁ h₂ ih =>
    rw [textOf_cons, ih, List.cons_append, List.takeWhile_append_dropWhile]
  | case4 c s h₁ h₂ h₃ ih =>
    rw [textOf_cons, ih, List.cons_append, List.takeWhile_append_dropWhile]
  | case5 c s h₁ h₂ h₃ ih => rw [textOf_cons, ih, List.singleton_append]

/-- **A grammar loses nothing of the source.** -/
theorem text_lexemes (g : Grammar) (source : List Char) : textOf (g.lexemes source) = source := by
  unfold Grammar.lexemes
  split
  · exact textOf_jsonLexemes source
  · exact textOf_commentLexemes _ source
  · rw [textOf_cons, textOf_nil, List.append_nil]

/-! ## 2. Tags -/

/-- The tags that the grammars give. -/
def tagNames : List String := ["c", "s", "n", "co"]

theorem tag_lineLexemes {mark line : List Char} {l : Lexeme} (h : l ∈ lineLexemes mark line) :
    ∀ t ∈ l.tag, t ∈ tagNames := by
  rw [lineLexemes] at h
  split at h
  · rcases List.mem_cons.mp h with rfl | h
    · simp
    · rw [List.mem_singleton.mp h]
      simp [tagNames]
  · rw [List.mem_singleton.mp h]
    simp

theorem tag_commentLexemes {mark source : List Char} {l : Lexeme}
    (h : l ∈ commentLexemes mark source) : ∀ t ∈ l.tag, t ∈ tagNames := by
  rcases mem_intercalate h with hl | ⟨ls, hls, hl⟩
  · rw [List.mem_singleton.mp hl]
    simp
  · obtain ⟨line, -, rfl⟩ := List.mem_map.mp hls
    exact tag_lineLexemes hl

theorem tag_jsonLexemes {source : List Char} {l : Lexeme} (h : l ∈ jsonLexemes source) :
    ∀ t ∈ l.tag, t ∈ tagNames := by
  fun_induction jsonLexemes source with
  | case1 => cases h
  | case2 s ih =>
    rcases List.mem_cons.mp h with rfl | h
    · simp [tagNames]
    · exact ih h
  | case3 c s h₁ h₂ ih =>
    rcases List.mem_cons.mp h with rfl | h
    · simp [tagNames]
    · exact ih h
  | case4 c s h₁ h₂ h₃ ih =>
    rcases List.mem_cons.mp h with rfl | h
    · simp [tagNames]
    · exact ih h
  | case5 c s h₁ h₂ h₃ ih =>
    rcases List.mem_cons.mp h with rfl | h
    · simp
    · exact ih h

theorem tag_lexemes {g : Grammar} {source : List Char} {l : Lexeme} (h : l ∈ g.lexemes source) :
    ∀ t ∈ l.tag, t ∈ tagNames := by
  unfold Grammar.lexemes at h
  split at h
  · exact tag_jsonLexemes h
  · exact tag_commentLexemes h
  · rw [List.mem_singleton.mp h]
    simp

/-! ## 3. Spans -/

/-- A span stands where its lexeme does, and has its tag. -/
theorem mem_spansFrom (front : List Char) {ls : List Lexeme} {s : Span}
    (h : s ∈ spansFrom (Utf8.size front) ls) :
    IsBoundary s.start (front ++ textOf ls) ∧ IsBoundary s.stop (front ++ textOf ls) ∧
      ∃ l ∈ ls, l.tag = some s.tag := by
  induction ls generalizing front with
  | nil => cases h
  | cons l ls ih =>
    rw [spansFrom] at h
    rw [textOf_cons]
    have hrest : s ∈ spansFrom (Utf8.size front + Utf8.size l.text) ls →
        IsBoundary s.start (front ++ (l.text ++ textOf ls)) ∧
          IsBoundary s.stop (front ++ (l.text ++ textOf ls)) ∧
          ∃ l' ∈ l :: ls, l'.tag = some s.tag := by
      intro hs
      rw [← Utf8.size_append] at hs
      obtain ⟨h₁, h₂, l', hl', ht⟩ := ih _ hs
      rw [List.append_assoc] at h₁ h₂
      exact ⟨h₁, h₂, l', List.mem_cons_of_mem _ hl', ht⟩
    cases ht : l.tag with
    | none =>
      rw [ht] at h
      exact hrest h
    | some tag =>
      rw [ht] at h
      rcases List.mem_cons.mp h with rfl | h
      · exact ⟨⟨front, _, rfl, rfl⟩,
          ⟨front ++ l.text, textOf ls, (List.append_assoc ..).symm, Utf8.size_append _ _⟩,
          l, List.mem_cons_self, ht⟩
      · exact hrest h

/-- **The spans of a grammar suit the source.** -/
theorem suits_spans (g : Grammar) (source : List Char) : Suits source (g.spans source) := by
  have hspan : ∀ s ∈ g.spans source, IsBoundary s.start source ∧ IsBoundary s.stop source ∧
      ∃ l ∈ g.lexemes source, l.tag = some s.tag := by
    intro s hs
    have h := mem_spansFrom [] hs
    rwa [text_lexemes, List.nil_append] at h
  refine ⟨fun s hs _ => ⟨(hspan s hs).1, (hspan s hs).2.1⟩, fun s hs _ => ?_⟩
  obtain ⟨-, -, l, hl, ht⟩ := hspan s hs
  have hplain : ∀ t ∈ tagNames, '"' ∉ t.toList := by decide
  exact hplain _ (tag_lexemes hl _ ht)

end CodeTint.Highlight
