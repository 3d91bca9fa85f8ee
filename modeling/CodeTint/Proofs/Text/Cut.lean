/-
# Texts that are cut at a character

A text is cut at the first of some character, or at each.  Cut at the first, it falls into a front part
without that character and whatever follows (`cut_append`), and a text that is cut there was made of
these (`eq_of_dropWhile`).  Cut at each, no piece has the character (`notMem_of_mem_splitOn`).
-/

namespace CodeTint.Text

variable {x : Char}

theorem forall_bne_of_notMem {s : List Char} (h : x ∉ s) : ∀ c ∈ s, (c != x) = true := by
  intro c hc
  rw [bne_iff_ne]
  rintro rfl
  exact h hc

/-- **What a text is cut into** by the first `x`. -/
theorem cut_append {front : List Char} (h : x ∉ front) (back : List Char) :
    (front ++ x :: back).takeWhile (· != x) = front ∧
      (front ++ x :: back).dropWhile (· != x) = x :: back := by
  have hfront := forall_bne_of_notMem h
  rw [List.takeWhile_append_of_pos hfront, List.dropWhile_append_of_pos hfront]
  simp

theorem notMem_takeWhile (x : Char) (s : List Char) : x ∉ s.takeWhile (· != x) := by
  intro h
  simpa using List.all_eq_true.mp List.all_takeWhile x h

/-- A text that is cut has the character where it is cut. -/
theorem eq_of_dropWhile {s back : List Char} {c : Char} (h : s.dropWhile (· != x) = c :: back) :
    c = x ∧ s = s.takeWhile (· != x) ++ x :: back := by
  have hc := List.head?_dropWhile_not (· != x) s
  rw [h] at hc
  have hx : c = x := by simpa using hc
  refine ⟨hx, ?_⟩
  rw [← hx, ← h, hx, List.takeWhile_append_dropWhile]

/-- **The pieces that a text is cut into have no separator.** -/
theorem notMem_of_mem_splitOn {s p : List Char} (hp : p ∈ s.splitOn x) : x ∉ p := by
  induction hn : s.length using Nat.strongRecOn generalizing s with
  | _ n ih =>
    by_cases hx : x ∈ s
    · obtain ⟨front, back, rfl, hfront⟩ := List.eq_append_cons_of_mem hx
      rw [List.splitOn_append_cons_self, List.splitOn_eq_singleton hfront,
        List.singleton_append, List.mem_cons] at hp
      rcases hp with rfl | hp
      · exact hfront
      · refine ih back.length ?_ hp rfl
        rw [← hn, List.length_append, List.length_cons]
        omega
    · rw [List.splitOn_eq_singleton hx, List.mem_singleton] at hp
      rwa [hp]

end CodeTint.Text
