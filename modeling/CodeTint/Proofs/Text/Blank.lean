/-
# What trimming takes off a text

`trimEnd` takes off blanks and nothing else (`trimEnd_append_blanks`), and stops at a character that is
none.  Everything else follows from how it goes through two texts that are put together
(`trimEnd_append`): if the second one is blank, it goes with its blanks, and the first is trimmed; else
the first stays whole.

On both sides together the same holds (`trim_append_blanks`), and a second time nothing goes
(`trim_trim`).  So what is left of a text can be said without trimming it: it is **the one text without
blanks at its ends that the text is made of, with blanks around it** (`trim_eq_iff`).
-/
import CodeTint.Text.Blank
import Mathlib.Data.List.DropRight

namespace CodeTint.Text

/-! ## 1. The end -/

@[simp] theorem allBlank_nil : allBlank [] = true := rfl

@[simp] theorem allBlank_cons (c : Char) (s : List Char) :
    allBlank (c :: s) = (isBlank c && allBlank s) := rfl

@[simp] theorem allBlank_append (s t : List Char) :
    allBlank (s ++ t) = (allBlank s && allBlank t) :=
  List.all_append

theorem allBlank_iff {s : List Char} : allBlank s = true ↔ ∀ c ∈ s, isBlank c = true :=
  List.all_eq_true

theorem trimEnd_eq_rdropWhile (s : List Char) : trimEnd s = s.rdropWhile isBlank := rfl

/-- Nothing is left of a blank text, and of no other. -/
@[simp] theorem trimEnd_eq_nil {s : List Char} : trimEnd s = [] ↔ allBlank s = true := by
  rw [trimEnd_eq_rdropWhile, List.rdropWhile_eq_nil_iff, allBlank_iff]

/-- **What is taken off is blank.** -/
theorem trimEnd_append_blanks (s : List Char) :
    ∃ blanks, allBlank blanks = true ∧ s = trimEnd s ++ blanks := by
  refine ⟨s.rtakeWhile isBlank, ?_, ?_⟩
  · rw [allBlank_iff]
    intro c hc
    exact List.mem_rtakeWhile_imp hc
  · rw [trimEnd_eq_rdropWhile, List.rdropWhile_append_rtakeWhile]

/-- **Two texts put together**: a blank one at the end goes, any other keeps the first one whole. -/
theorem trimEnd_append (s t : List Char) :
    trimEnd (s ++ t) = if allBlank t = true then trimEnd s else s ++ trimEnd t := by
  have hempty : (t.reverse.dropWhile isBlank).isEmpty = allBlank t := by
    rw [Bool.eq_iff_iff, List.isEmpty_iff, ← trimEnd_eq_nil, trimEnd, List.reverse_eq_nil_iff]
  rw [trimEnd, List.reverse_append, List.dropWhile_append, hempty]
  split
  · rfl
  · rw [List.reverse_append, List.reverse_reverse, trimEnd]

theorem trimEnd_append_of_blank {s t : List Char} (h : allBlank t = true) :
    trimEnd (s ++ t) = trimEnd s := by
  rw [trimEnd_append, if_pos h]

/-- A text without a blank stays as it is. -/
theorem trimEnd_of_forall {s : List Char} (h : ∀ c ∈ s, isBlank c = false) : trimEnd s = s := by
  rw [trimEnd_eq_rdropWhile, List.rdropWhile_eq_self_iff]
  intro hne
  simp [h _ (List.getLast_mem hne)]

/-- What is left does not end with a blank. -/
theorem getLast?_trimEnd (s : List Char) : ∀ c ∈ (trimEnd s).getLast?, isBlank c = false := by
  intro c hc
  obtain ⟨front, hfront⟩ := List.getLast?_eq_some_iff.mp hc
  have hlast := List.rdropWhile_last_not isBlank s
  rw [← trimEnd_eq_rdropWhile, hfront] at hlast
  simpa using hlast

/-- A text that does not end with a blank stays as it is. -/
theorem trimEnd_eq_self {s : List Char} (h : ∀ c ∈ s.getLast?, isBlank c = false) :
    trimEnd s = s := by
  rw [trimEnd_eq_rdropWhile, List.rdropWhile_eq_self_iff]
  intro hne
  simp [h _ (List.getLast?_eq_some_getLast hne)]

/-! ## 2. Both ends -/

theorem trimStart_eq_self {s : List Char} (h : ∀ c ∈ s.head?, isBlank c = false) :
    trimStart s = s := by
  cases s with
  | nil => rfl
  | cons c s => rw [trimStart, List.dropWhile_cons_of_neg (by simp [h c rfl])]

theorem head?_trimStart (s : List Char) : ∀ c ∈ (trimStart s).head?, isBlank c = false := by
  intro c hc
  have hhead := List.head?_dropWhile_not isBlank s
  rw [show s.dropWhile isBlank = trimStart s from rfl, hc] at hhead
  exact hhead

/-- **What trimming takes off is blank**, on either side. -/
theorem trim_append_blanks (s : List Char) :
    ∃ front back, allBlank (front ++ back) = true ∧ s = front ++ trim s ++ back := by
  obtain ⟨back, hback, hs⟩ := trimEnd_append_blanks (trimStart s)
  refine ⟨s.takeWhile isBlank, back, ?_, ?_⟩
  · rw [allBlank_append, hback, Bool.and_true]
    exact List.all_takeWhile
  · rw [trim, List.append_assoc, ← hs]
    exact List.takeWhile_append_dropWhile.symm

/-- **A trimmed text has no blank at either end.** -/
theorem ends_trim (s : List Char) :
    (∀ c ∈ (trim s).head?, isBlank c = false) ∧ ∀ c ∈ (trim s).getLast?, isBlank c = false := by
  refine ⟨fun c hc => head?_trimStart s c ?_, getLast?_trimEnd (trimStart s)⟩
  obtain ⟨back, hback⟩ := trimEnd_prefix (trimStart s)
  rw [← hback]
  exact List.mem_head?_append_of_mem_head? hc

/-- Trimming leaves a text as it is if there is no blank at either end. -/
theorem trim_eq_self {s : List Char} (hhead : ∀ c ∈ s.head?, isBlank c = false)
    (hlast : ∀ c ∈ s.getLast?, isBlank c = false) : trim s = s := by
  rw [trim, trimStart_eq_self hhead, trimEnd_eq_self hlast]

@[simp] theorem trim_trim (s : List Char) : trim (trim s) = trim s :=
  trim_eq_self (ends_trim s).1 (ends_trim s).2

/-! ## 3. Blanks around a text -/

/-- **A tight text** has no blank at either end. -/
structure Tight (s : List Char) : Prop where
  head : ∀ c ∈ s.head?, isBlank c = false
  last : ∀ c ∈ s.getLast?, isBlank c = false

theorem tight_iff {s : List Char} :
    Tight s ↔ (s.head?.all (!isBlank ·) && s.getLast?.all (!isBlank ·)) = true := by
  simp only [Bool.and_eq_true, Option.all_eq_true, Bool.not_eq_true']
  exact ⟨fun h => ⟨h.head, h.last⟩, fun ⟨hhead, hlast⟩ => ⟨hhead, hlast⟩⟩

-- through `all`, as a quantifier over characters may be decided by trying every one there is
instance (s : List Char) : Decidable (Tight s) :=
  decidable_of_iff _ tight_iff.symm

/-- **A text with blanks around it**, as many as there may be. -/
def Pads (s padded : List Char) : Prop :=
  ∃ front back, allBlank (front ++ back) = true ∧ padded = front ++ s ++ back

@[simp] theorem trim_trimStart (s : List Char) : trim (trimStart s) = trim s := by
  rw [trim, trim, trimStart_eq_self (head?_trimStart s)]

/-- Blanks behind a text go with what is trimmed. -/
theorem trim_append_of_blank {s t : List Char} (h : allBlank t = true) :
    trim (s ++ t) = trim s := by
  rw [trim, trim, trimStart, List.dropWhile_append]
  split
  · next hnil =>
    rw [List.isEmpty_iff] at hnil
    rw [trimStart, hnil, trimEnd_nil, trimEnd_eq_nil]
    rw [allBlank_iff] at h ⊢
    exact fun c hc => h c ((List.dropWhile_sublist _).subset hc)
  · exact trimEnd_append_of_blank h

@[simp] theorem trim_trimEnd (s : List Char) : trim (trimEnd s) = trim s := by
  obtain ⟨blanks, hblanks, hs⟩ := trimEnd_append_blanks s
  conv_rhs => rw [hs, trim_append_of_blank hblanks]

/-- Nothing is left of a blank text, and of no other. -/
@[simp] theorem trim_eq_nil {s : List Char} : trim s = [] ↔ allBlank s = true := by
  rw [trim, trimEnd_eq_nil]
  constructor
  · intro h
    rw [← List.takeWhile_append_dropWhile (p := isBlank) (l := s), allBlank_append]
    exact Bool.and_eq_true_iff.mpr ⟨List.all_takeWhile, h⟩
  · intro h
    rw [allBlank_iff] at h ⊢
    exact fun c hc => h c ((trimStart_suffix s).subset hc)

/-- **Around a character that is not blank** the two ends are trimmed apart. -/
theorem trim_append_cons {c : Char} (hc : isBlank c = false) (s t : List Char) :
    trim (s ++ c :: t) = trimStart s ++ c :: trimEnd t := by
  have hstart : trimStart (s ++ c :: t) = trimStart s ++ c :: t := by
    rw [trimStart, List.dropWhile_append, List.dropWhile_cons_of_neg (by simp [hc])]
    split
    · next hnil => rw [trimStart, List.isEmpty_iff.mp hnil, List.nil_append]
    · rfl
  have hend : trimEnd (c :: t) = c :: trimEnd t := by
    rw [← List.singleton_append, trimEnd_append]
    split
    · next hblank => rw [trimEnd_eq_self (by simp [hc]), trimEnd_eq_nil.mpr hblank]
    · rfl
  rw [trim, hstart, trimEnd_append, if_neg (by simp [hc]), hend]

/-- **What trimming leaves is the tight text that has blanks around it.** -/
theorem trim_eq_iff {s t : List Char} : trim s = t ↔ Tight t ∧ Pads t s := by
  constructor
  · rintro rfl
    obtain ⟨front, back, hblank, hs⟩ := trim_append_blanks s
    exact ⟨⟨(ends_trim s).1, (ends_trim s).2⟩, front, back, hblank, hs⟩
  · rintro ⟨htight, front, back, hblank, rfl⟩
    rw [allBlank_append, Bool.and_eq_true] at hblank
    have hfront : trimStart (front ++ t) = trimStart t := by
      rw [trimStart, List.dropWhile_append_of_pos (allBlank_iff.mp hblank.1), trimStart]
    rw [trim_append_of_blank hblank.2, trim, hfront]
    exact trim_eq_self htight.head htight.last

end CodeTint.Text
