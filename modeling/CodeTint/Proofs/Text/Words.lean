/-
# The words of a text, and what trimming does to them

`words` cuts a text at the ASCII separators.  Everything about it comes from how it goes through a
separator (`words_append_cons`) and from what the words make up together (`flatten_words`).

Trimming goes by more characters than that.  A no-break space at the end of a text is blank, but it
belongs to a word, or is one.  So **trimming keeps the words of a text just if it takes off separators
only** (`words_trim_eq_iff`), and nothing that is put behind the words can make up for a lost one
(`withWord_trim_iff`).
-/
import CodeTint.Proofs.Text.Blank

namespace CodeTint.Text

/-! ## 1. Words -/

@[simp] theorem words_nil : words [] = [] := rfl

/-- **Words are split at a separator.** -/
theorem words_append_cons {c : Char} (hc : isSpace c = true) (s t : List Char) :
    words (s ++ c :: t) = words s ++ words t := by
  rw [words, List.splitOnP_append_cons s t hc, List.filter_append]
  rfl

theorem words_cons {c : Char} (hc : isSpace c = true) (s : List Char) : words (c :: s) = words s :=
  words_append_cons hc [] s

/-- A text without a separator is one word. -/
theorem words_of_forall {w : List Char} (hne : w ≠ []) (h : ∀ c ∈ w, isSpace c = false) :
    words w = [w] := by
  rw [words, List.splitOnP_eq_singleton h]
  simp [hne]

/-- Separators at the start are in no word. -/
theorem words_spaces_append {s : List Char} (h : ∀ c ∈ s, isSpace c = true) (t : List Char) :
    words (s ++ t) = words t := by
  induction s with
  | nil => rfl
  | cons c s ih =>
    rw [List.cons_append, words_cons (h c List.mem_cons_self)]
    exact ih fun d hd => h d (List.mem_cons_of_mem c hd)

/-- Separators at the end are in no word. -/
theorem words_append_spaces {t : List Char} (h : ∀ c ∈ t, isSpace c = true) (s : List Char) :
    words (s ++ t) = words s := by
  cases t with
  | nil => rw [List.append_nil]
  | cons c t =>
    have ht := words_spaces_append (fun d hd => h d (List.mem_cons_of_mem c hd)) []
    rw [List.append_nil] at ht
    rw [words_append_cons (h c List.mem_cons_self), ht, words_nil, List.append_nil]

/-- **The words of a text make it up but for the separators.** -/
theorem flatten_words (s : List Char) : (words s).flatten = s.filter (fun c => !isSpace c) := by
  rw [words, List.flatten_filter_not_isEmpty]
  induction s with
  | nil => rfl
  | cons c s ih =>
    rw [List.splitOnP_cons_eq_if_modifyHead]
    cases hc : isSpace c with
    | true => simp [hc, ih]
    | false =>
      obtain ⟨w, ws, hw⟩ := List.exists_cons_of_ne_nil (List.splitOnP_ne_nil isSpace s)
      rw [hw] at ih ⊢
      simp [hc, ← ih]

/-- No word has a separator in it. -/
theorem isSpace_of_mem_words {s w : List Char} (h : w ∈ words s) : ∀ c ∈ w, isSpace c = false := by
  intro c hc
  have hmem : c ∈ (words s).flatten := List.mem_flatten.mpr ⟨w, h, hc⟩
  rw [flatten_words] at hmem
  simpa using (List.mem_filter.mp hmem).2

/-! ## 2. The ends of a text -/

/-- **Only separators are around the text**: what trimming takes off at either end is no part of a
word. -/
def SpacedEnds (s : List Char) : Prop :=
  ∃ front back, s = front ++ trim s ++ back ∧ ∀ c ∈ front ++ back, isSpace c = true

/-- A text without its blanks. -/
def ink (s : List Char) : List Char := s.filter (fun c => !isBlank c)

theorem ink_append (s t : List Char) : ink (s ++ t) = ink s ++ ink t := List.filter_append ..

theorem ink_eq_nil {s : List Char} : ink s = [] ↔ allBlank s = true := by
  simp [ink, allBlank_iff]

/-- The words of a text have all that is not blank in it. -/
theorem ink_flatten_words (s : List Char) : ink (words s).flatten = ink s := by
  rw [flatten_words, ink, ink, List.filter_filter]
  refine List.filter_congr fun c _ => ?_
  cases hc : isSpace c with
  | true => simp [isBlank_of_isSpace hc]
  | false => simp

theorem ink_trim (s : List Char) : ink (trim s) = ink s := by
  obtain ⟨front, back, hblank, hs⟩ := trim_append_blanks s
  rw [allBlank_append, Bool.and_eq_true] at hblank
  conv_rhs => rw [hs, ink_append, ink_append, ink_eq_nil.mpr hblank.1, ink_eq_nil.mpr hblank.2]
  simp

/-- **Trimming keeps the words just if it takes off separators only.** -/
theorem words_trim_eq_iff {s : List Char} : words (trim s) = words s ↔ SpacedEnds s := by
  constructor
  · intro h
    obtain ⟨front, back, -, hs⟩ := trim_append_blanks s
    refine ⟨front, back, hs, fun c hc => ?_⟩
    have hflat := congrArg (fun ws => ws.flatten.length) h
    rw [flatten_words, flatten_words] at hflat
    conv_rhs at hflat => rw [hs]
    rw [List.filter_append, List.filter_append, List.length_append, List.length_append] at hflat
    have hnone : ((front ++ back).filter (fun c => !isSpace c)).length = 0 := by
      rw [List.filter_append, List.length_append]
      omega
    rw [List.length_eq_zero_iff, List.filter_eq_nil_iff] at hnone
    simpa using hnone c hc
  · rintro ⟨front, back, hs, hspace⟩
    rw [List.forall_mem_append] at hspace
    conv_rhs => rw [hs, words_append_spaces hspace.2, words_spaces_append hspace.1]

/-! ## 3. One word more -/

/-- **The words with one more at the end**, unless it is among them. -/
def withWord (w : List Char) (ws : List (List Char)) : List (List Char) :=
  if w ∈ ws then ws else ws ++ [w]

/-- **A word that is not blank cannot stand for what trimming takes off.** -/
theorem withWord_trim_iff {w s : List Char} (hw : allBlank w = false) :
    withWord w (words (trim s)) = withWord w (words s) ↔ SpacedEnds s := by
  rw [← words_trim_eq_iff]
  have hink : ink (words (trim s)).flatten = ink (words s).flatten := by
    rw [ink_flatten_words, ink_flatten_words, ink_trim]
  have hmore : ∀ ws : List (List Char),
      (ink (ws ++ [w]).flatten).length ≠ (ink ws.flatten).length := by
    intro ws
    rw [List.flatten_concat, ink_append, List.length_append]
    have hpos : ink w ≠ [] := by
      rw [ne_eq, ink_eq_nil, hw]
      exact Bool.false_ne_true
    have hlen := List.length_pos_iff.mpr hpos
    omega
  refine ⟨fun h => ?_, fun h => by rw [h]⟩
  rw [withWord, withWord] at h
  split at h
  · split at h
    · exact h
    · exact absurd (by rw [← h, hink]) (hmore (words s))
  · split at h
    · exact absurd (by rw [h, ← hink]) (hmore (words (trim s)))
    · exact List.append_cancel_right h

end CodeTint.Text
