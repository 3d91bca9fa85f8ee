/-
# Stretches of whole characters

A byte offset is a **boundary** of a text if the text can be cut there between two characters
(`IsBoundary`).  Between two boundaries a text can always be sliced, and the slice is what stands
between them (`slice?_append`).  An offset that is no boundary gives nothing, and apart from that only a
stretch that is reversed does (`slice?_eq_none_iff`).
-/
import CodeTint.Text.Slice
import CodeTint.Text.Utf8

namespace CodeTint.Text

open Utf8

/-! ## 1. Sizes -/

@[simp] theorem Utf8.size_nil : size [] = 0 := rfl

@[simp] theorem Utf8.size_cons (c : Char) (s : List Char) : size (c :: s) = c.utf8Size + size s :=
  rfl

@[simp] theorem Utf8.size_append (s t : List Char) : size (s ++ t) = size s + size t := by
  induction s with
  | nil => simp
  | cons c s ih => simp [ih, Nat.add_assoc]

/-- Only the empty text has no size. -/
theorem Utf8.size_eq_zero {s : List Char} : size s = 0 ↔ s = [] := by
  cases s with
  | nil => simp
  | cons c s =>
    have hc := c.utf8Size_pos
    simp only [size_cons, reduceCtorEq, iff_false]
    omega

/-! ## 2. Cutting -/

theorem dropBytes?_append (s t : List Char) : dropBytes? (size s) (s ++ t) = some t := by
  induction s with
  | nil => rw [size_nil, dropBytes?, List.nil_append]
  | cons c s ih =>
    have hc := c.utf8Size_pos
    obtain ⟨n, hn⟩ : ∃ n, size (c :: s) = n + 1 := ⟨size (c :: s) - 1, by rw [size_cons]; omega⟩
    have hrest : n + 1 - c.utf8Size = size s := by rw [← hn, size_cons]; omega
    rw [hn, List.cons_append, dropBytes?, if_pos (by rw [← hn, size_cons]; omega), hrest, ih]

theorem takeBytes?_append (s t : List Char) : takeBytes? (size s) (s ++ t) = some s := by
  induction s with
  | nil => rw [size_nil, takeBytes?]
  | cons c s ih =>
    have hc := c.utf8Size_pos
    obtain ⟨n, hn⟩ : ∃ n, size (c :: s) = n + 1 := ⟨size (c :: s) - 1, by rw [size_cons]; omega⟩
    have hrest : n + 1 - c.utf8Size = size s := by rw [← hn, size_cons]; omega
    rw [hn, List.cons_append, takeBytes?, if_pos (by rw [← hn, size_cons]; omega), hrest, ih]
    rfl

/-- **A slice is what stands between its ends.** -/
theorem slice?_append (front mid back : List Char) :
    slice? (size front) (size (front ++ mid)) (front ++ mid ++ back) = some mid := by
  rw [slice?, if_pos (by rw [size_append]; omega), List.append_assoc, dropBytes?_append,
    size_append, Nat.add_sub_cancel_left]
  exact takeBytes?_append mid back

/-! ## 3. Boundaries -/

/-- **An offset between two characters** of a text, or at one of its ends. -/
def IsBoundary (n : Nat) (s : List Char) : Prop :=
  ∃ front back, s = front ++ back ∧ size front = n

theorem isBoundary_size (s : List Char) : IsBoundary (size s) s :=
  ⟨s, [], (List.append_nil s).symm, rfl⟩

/-- What can be dropped is the text up to a boundary. -/
theorem dropBytes?_eq_some {n : Nat} {s back : List Char} (h : dropBytes? n s = some back) :
    ∃ front, s = front ++ back ∧ size front = n := by
  fun_induction dropBytes? n s with
  | case1 s =>
    cases h
    exact ⟨[], rfl, rfl⟩
  | case2 => cases h
  | case3 n c s hle ih =>
    obtain ⟨front, rfl, hsize⟩ := ih h
    exact ⟨c :: front, rfl, by rw [size_cons]; omega⟩
  | case4 => cases h

theorem isBoundary_iff {n : Nat} {s : List Char} :
    IsBoundary n s ↔ (dropBytes? n s).isSome = true := by
  rw [Option.isSome_iff_exists]
  constructor
  · rintro ⟨front, back, rfl, rfl⟩
    exact ⟨back, dropBytes?_append front back⟩
  · rintro ⟨back, h⟩
    obtain ⟨front, rfl, hsize⟩ := dropBytes?_eq_some h
    exact ⟨front, back, rfl, hsize⟩

instance (n : Nat) (s : List Char) : Decidable (IsBoundary n s) :=
  decidable_of_iff _ isBoundary_iff.symm

/-- A boundary that is not before a given one cuts what follows that. -/
theorem IsBoundary.after {front rest : List Char} {n : Nat} (h : IsBoundary n (front ++ rest))
    (hn : size front ≤ n) : ∃ mid back, rest = mid ++ back ∧ size (front ++ mid) = n := by
  obtain ⟨front', back', heq, hsize⟩ := h
  rcases List.append_eq_append_iff.mp heq with ⟨mid, rfl, rfl⟩ | ⟨extra, rfl, rfl⟩
  · exact ⟨mid, back', rfl, hsize⟩
  · -- the two cuts are at one place, for what lies between them has no size
    rw [size_append] at hn
    have hextra : extra = [] := size_eq_zero.mp (by omega)
    subst hextra
    exact ⟨[], rest, rfl, by simpa using hsize⟩

/-- A boundary of a text lies before a character or behind it. -/
theorem IsBoundary.outside {front back : List Char} {c : Char} {n : Nat}
    (h : IsBoundary n (front ++ c :: back)) : n ≤ size front ∨ size front + c.utf8Size ≤ n := by
  rcases Nat.lt_or_ge (size front) n with hlt | hle
  · obtain ⟨mid, rest, heq, hsize⟩ := h.after (Nat.le_of_lt hlt)
    cases mid with
    | nil =>
      rw [List.append_nil] at hsize
      exact Or.inl (Nat.le_of_eq hsize.symm)
    | cons d mid =>
      cases heq
      rw [size_append, size_cons] at hsize
      exact Or.inr (by omega)
  · exact Or.inl hle

/-- A boundary within a stretch cuts the stretch. -/
theorem IsBoundary.within {front mid back : List Char} {n : Nat}
    (h : IsBoundary n (front ++ mid ++ back)) (hfront : size front ≤ n)
    (hback : n ≤ size (front ++ mid)) :
    ∃ mid₁ mid₂, mid = mid₁ ++ mid₂ ∧ size (front ++ mid₁) = n := by
  rw [List.append_assoc] at h
  obtain ⟨cut, rest, heq, hsize⟩ := h.after hfront
  rcases List.append_eq_append_iff.mp heq with ⟨extra, rfl, -⟩ | ⟨mid₂, rfl, -⟩
  · have hextra : extra = [] := by
      rw [← List.append_assoc, size_append] at hsize
      exact size_eq_zero.mp (by omega)
    subst hextra
    exact ⟨mid, [], (List.append_nil mid).symm, by simpa using hsize⟩
  · exact ⟨cut, mid₂, rfl, hsize⟩

/-! ## 4. What cannot be sliced -/

/-- What can be taken is the text up to a boundary. -/
theorem takeBytes?_eq_some {n : Nat} {s front : List Char} (h : takeBytes? n s = some front) :
    ∃ back, s = front ++ back ∧ size front = n := by
  fun_induction takeBytes? n s generalizing front with
  | case1 s =>
    cases h
    exact ⟨s, rfl, rfl⟩
  | case2 => cases h
  | case3 n c s hle ih =>
    obtain ⟨front, hfront, rfl⟩ := Option.map_eq_some_iff.mp h
    obtain ⟨back, rfl, hsize⟩ := ih hfront
    exact ⟨back, rfl, by rw [size_cons]; omega⟩
  | case4 => cases h

/-- **A slice begins and ends between characters**, and goes forward. -/
theorem slice?_eq_some_iff {a b : Nat} {s mid : List Char} : slice? a b s = some mid ↔
    ∃ front back, s = front ++ mid ++ back ∧ size front = a ∧ size (front ++ mid) = b := by
  constructor
  · intro h
    unfold slice? at h
    split at h
    · next hle =>
      obtain ⟨rest, hdrop, htake⟩ := Option.bind_eq_some_iff.mp h
      obtain ⟨front, rfl, hfront⟩ := dropBytes?_eq_some hdrop
      obtain ⟨back, rfl, hmid⟩ := takeBytes?_eq_some htake
      exact ⟨front, back, (List.append_assoc ..).symm, hfront, by rw [size_append]; omega⟩
    · cases h
  · rintro ⟨front, back, rfl, rfl, rfl⟩
    exact slice?_append front mid back

/-- **A text can be sliced** from a boundary forward to a boundary. -/
theorem exists_slice?_iff {a b : Nat} {s : List Char} :
    (∃ mid, slice? a b s = some mid) ↔ a ≤ b ∧ IsBoundary a s ∧ IsBoundary b s := by
  simp only [slice?_eq_some_iff]
  constructor
  · rintro ⟨mid, front, back, rfl, rfl, rfl⟩
    refine ⟨by rw [size_append]; omega, ⟨front, mid ++ back, List.append_assoc .., rfl⟩, ?_⟩
    exact ⟨front ++ mid, back, rfl, rfl⟩
  · rintro ⟨hle, ⟨front, rest, rfl, rfl⟩, hstop⟩
    obtain ⟨mid, back, rfl, hsize⟩ := hstop.after hle
    exact ⟨mid, front, back, (List.append_assoc ..).symm, rfl, hsize⟩

/-- **What cannot be sliced** is reversed, or has an end that is no boundary. -/
theorem slice?_eq_none_iff {a b : Nat} {s : List Char} :
    slice? a b s = none ↔ b < a ∨ ¬ IsBoundary a s ∨ ¬ IsBoundary b s := by
  rw [Option.eq_none_iff_forall_ne_some, ← not_exists, exists_slice?_iff,
    Decidable.not_and_iff_or_not, Decidable.not_and_iff_or_not, Nat.not_le]

end CodeTint.Text
