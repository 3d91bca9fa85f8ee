/-
# The sweep goes through the source once, from its start to its end

The sweep writes the source in stretches and drops spans on the way, for four different reasons.  No
reason may move the cursor wrongly, else text would come twice or not at all.  What keeps it right is
that **the open spans are nested around the cursor** (`Sweep.Nested`): each began at or before the
cursor, ends at or behind it, and lies within the one below.  Spans come in the order of their
starts, so behind the closing of those that have ended the cursor has not passed the next start.

From that the stretches of a whole sweep join up (`covers_sweep`): the first begins at the start of
the source, each begins where the one before it ended, and the last ends at the end.
-/
import CodeTint.Highlight.Span
import Mathlib.Data.List.Sort

namespace CodeTint.Highlight

open CodeTint.Text

/-! ## 1. What arranging gives -/

theorem mem_of_mem_lastOfEach {s : Span} {spans : List Span} (h : s ∈ lastOfEach spans) :
    s ∈ spans := by
  fun_induction lastOfEach spans with
  | case1 => cases h
  | case2 => exact h
  | case3 s₁ s₂ rest hsame ih => exact List.mem_cons_of_mem _ (ih h)
  | case4 s₁ s₂ rest hsame ih =>
    rcases List.mem_cons.mp h with rfl | h
    · exact List.mem_cons_self
    · exact List.mem_cons_of_mem _ (ih h)

/-- Leaving out what is repeated keeps the order. -/
theorem pairwise_lastOfEach {r : Span → Span → Prop} {spans : List Span} (h : spans.Pairwise r) :
    (lastOfEach spans).Pairwise r := by
  fun_induction lastOfEach spans with
  | case1 => exact h
  | case2 => exact h
  | case3 s₁ s₂ rest hsame ih => exact ih (List.pairwise_cons.mp h).2
  | case4 s₁ s₂ rest hsame ih =>
    obtain ⟨h₁, h₂⟩ := List.pairwise_cons.mp h
    exact List.pairwise_cons.mpr ⟨fun s hs => h₁ s (mem_of_mem_lastOfEach hs), ih h₂⟩

/-- What is swept was reported, and it fits into the source. -/
theorem mem_of_mem_arrange {size : Nat} {spans : List Span} {s : Span}
    (h : s ∈ arrange size spans) : s ∈ spans ∧ s.fits size = true := by
  have hm := mem_of_mem_lastOfEach h
  rw [List.mem_mergeSort] at hm
  exact List.mem_filter.mp hm

theorem Span.before_trans {a b c : Span} (hab : a.before b = true) (hbc : b.before c = true) :
    a.before c = true := by
  simp only [before, Bool.or_eq_true, Bool.and_eq_true, decide_eq_true_eq, beq_iff_eq] at *
  omega

theorem Span.before_total (a b : Span) : (a.before b || b.before a) = true := by
  simp only [before, Bool.or_eq_true, Bool.and_eq_true, decide_eq_true_eq, beq_iff_eq]
  omega

/-- **What is swept comes in the order of the sweep.** -/
theorem pairwise_arrange (size : Nat) (spans : List Span) :
    (arrange size spans).Pairwise (fun a b => a.before b = true) :=
  pairwise_lastOfEach
    (List.pairwise_mergeSort (@Span.before_trans) Span.before_total _)

theorem Span.start_le_of_before {a b : Span} (h : a.before b = true) : a.start ≤ b.start := by
  simp only [before, Bool.or_eq_true, Bool.and_eq_true, decide_eq_true_eq, beq_iff_eq] at h
  omega

/-! ## 2. The open spans -/

/-- **The open spans are nested around the cursor**: each began before it and ends behind it, and
each lies within all those below. -/
structure Sweep.Nested (size : Nat) (w : Sweep) : Prop where
  cursor_le : w.cursor ≤ size
  around : ∀ s ∈ w.opened, s.start ≤ w.cursor ∧ w.cursor ≤ s.stop ∧ s.stop ≤ size
  within : w.opened.Pairwise (fun inner outer => outer.start ≤ inner.start ∧ inner.stop ≤ outer.stop)

/-- At the start nothing is open. -/
theorem Sweep.nested_start (size : Nat) : Sweep.Nested size ⟨0, []⟩ :=
  ⟨Nat.zero_le _, fun _ h => absurd h List.not_mem_nil, List.Pairwise.nil⟩

/-- Closing the innermost span moves the cursor to its end. -/
theorem Sweep.Nested.close {size cursor : Nat} {top : Span} {below : List Span}
    (h : Sweep.Nested size ⟨cursor, top :: below⟩) : Sweep.Nested size ⟨top.stop, below⟩ := by
  obtain ⟨hin, hbelow⟩ := List.pairwise_cons.mp h.within
  obtain ⟨-, hcur, hsize⟩ := h.around top List.mem_cons_self
  refine ⟨hsize, fun s hs => ?_, hbelow⟩
  obtain ⟨hstart, -, hstop⟩ := h.around s (List.mem_cons_of_mem _ hs)
  exact ⟨hstart.trans hcur, (hin s hs).2, hstop⟩

/-- **A span that is admitted is nested in those that are open.** -/
theorem Sweep.Nested.open {size : Nat} {w : Sweep} {s : Span} (h : w.Nested size)
    (hadm : w.admits s = true) (hfits : s.fits size = true) :
    Sweep.Nested size ⟨s.start, s :: w.opened⟩ := by
  rw [Span.fits, Bool.and_eq_true, decide_eq_true_eq, decide_eq_true_eq] at hfits
  rw [admits, Bool.and_eq_true, decide_eq_true_eq] at hadm
  -- the innermost open span holds the new one, and all others hold the innermost
  have hstop : ∀ o ∈ w.opened, s.stop ≤ o.stop := by
    intro o ho
    cases hw : w.opened with
    | nil => rw [hw] at ho; cases ho
    | cons top below =>
      have hwithin := h.within
      rw [hw] at hadm ho hwithin
      have htop : s.stop ≤ top.stop := of_decide_eq_true (Bool.and_eq_true _ _ ▸ hadm.2).1
      rcases List.mem_cons.mp ho with rfl | ho
      · exact htop
      · exact htop.trans ((List.pairwise_cons.mp hwithin).1 o ho).2
  refine ⟨hfits.1.le.trans hfits.2, fun o ho => ?_,
    List.pairwise_cons.mpr ⟨fun o ho => ?_, h.within⟩⟩
  · rcases List.mem_cons.mp ho with rfl | ho
    · exact ⟨Nat.le_refl _, hfits.1.le, hfits.2⟩
    · obtain ⟨hstart, -, hsize⟩ := h.around o ho
      exact ⟨hstart.trans hadm.1, hfits.1.le.trans (hstop o ho), hsize⟩
  · exact ⟨(h.around o ho).1.trans hadm.1, hstop o ho⟩

/-! ## 3. Stretches that join up -/

/-- **The stretches in some pieces join up from one place to another**, and every place between two
of them, and every tag that is opened, is one that is allowed. -/
def Covers (edge : Nat → Prop) (tag : String → Prop) : Nat → List Piece → Nat → Prop
  | a, [], b => a = b
  | a, .text x y :: ps, b => x = a ∧ a ≤ y ∧ edge y ∧ Covers edge tag y ps b
  | a, .opening t :: ps, b => tag t ∧ Covers edge tag a ps b
  | a, .closing :: ps, b => Covers edge tag a ps b

variable {edge : Nat → Prop} {tag : String → Prop} {size : Nat}

theorem Covers.append {a b c : Nat} {ps qs : List Piece} (h : Covers edge tag a ps b)
    (h' : Covers edge tag b qs c) : Covers edge tag a (ps ++ qs) c := by
  induction ps generalizing a with
  | nil =>
    rw [Covers] at h
    rw [h]
    exact h'
  | cons p ps ih =>
    cases p with
    | text x y => exact ⟨h.1, h.2.1, h.2.2.1, ih h.2.2.2⟩
    | opening t => exact ⟨h.1, ih h.2⟩
    | closing => exact ih h

theorem Covers.le {a b : Nat} {ps : List Piece} (h : Covers edge tag a ps b) : a ≤ b := by
  induction ps generalizing a with
  | nil => exact Nat.le_of_eq h
  | cons p ps ih =>
    cases p with
    | text x y => exact h.2.1.trans (ih h.2.2.2)
    | opening t => exact ih h.2
    | closing => exact ih h

/-- **Closing what has ended**: the stretches join up to the new cursor, which is not past the place,
the rest stays nested, and what is still open ends behind the place. -/
theorem covers_closeBefore {place cursor : Nat} {opened : List Span}
    (h : Sweep.Nested size ⟨cursor, opened⟩) (hedge : ∀ s ∈ opened, edge s.stop)
    (hle : cursor ≤ place) :
    Covers edge tag cursor (closeBefore place cursor opened).1
        (closeBefore place cursor opened).2.cursor ∧
      (closeBefore place cursor opened).2.Nested size ∧
      (closeBefore place cursor opened).2.cursor ≤ place ∧
      (closeBefore place cursor opened).2.opened <:+ opened := by
  fun_induction closeBefore place cursor opened with
  | case1 cursor => exact ⟨rfl, h, hle, List.suffix_refl _⟩
  | case2 cursor top below hstop ps w hclose ih =>
    have hcur := (h.around top List.mem_cons_self).2.1
    obtain ⟨h₁, h₂, h₃, h₄⟩ :=
      ih h.close (fun s hs => hedge s (List.mem_cons_of_mem _ hs)) hstop
    rw [hclose] at h₁ h₂ h₃ h₄
    exact ⟨⟨rfl, hcur, hedge top List.mem_cons_self, h₁⟩, h₂, h₃,
      h₄.trans (List.suffix_cons _ _)⟩
  | case3 cursor top below hstop => exact ⟨rfl, h, hle, List.suffix_refl _⟩

/-- Closing what has ended leaves spans that nest, and does not go past the place. -/
theorem Sweep.Nested.closeBefore {w : Sweep} {place : Nat} (h : w.Nested size)
    (hle : w.cursor ≤ place) :
    (CodeTint.Highlight.closeBefore place w.cursor w.opened).2.Nested size ∧
      (CodeTint.Highlight.closeBefore place w.cursor w.opened).2.cursor ≤ place := by
  obtain ⟨-, hnested, hcursor, -⟩ :=
    @covers_closeBefore (fun _ => True) (fun _ => True) size place _ _ h (fun _ _ => trivial) hle
  exact ⟨hnested, hcursor⟩

/-- Closing everything at the end. -/
theorem covers_closeAll {cursor : Nat} {opened : List Span}
    (h : Sweep.Nested size ⟨cursor, opened⟩) (hedge : ∀ s ∈ opened, edge s.stop) :
    Covers edge tag cursor (closeAll cursor opened).1 (closeAll cursor opened).2 ∧
      (closeAll cursor opened).2 ≤ size := by
  fun_induction closeAll cursor opened with
  | case1 cursor => exact ⟨rfl, h.cursor_le⟩
  | case2 cursor top below ps c hclose ih =>
    have hcur := (h.around top List.mem_cons_self).2.1
    obtain ⟨h₁, h₂⟩ := ih h.close (fun s hs => hedge s (List.mem_cons_of_mem _ hs))
    rw [hclose] at h₁ h₂
    exact ⟨⟨rfl, hcur, hedge top List.mem_cons_self, h₁⟩, h₂⟩

/-- **The pieces of the rest of a sweep join up to the end of the source**, given that the spans to
come are in order and that none begins before the cursor. -/
theorem covers_pieces {spans : List Span} {w : Sweep} (h : w.Nested size)
    (hfits : ∀ s ∈ spans, s.fits size = true) (hsorted : spans.Pairwise (fun a b => a.start ≤ b.start))
    (hcursor : ∀ s ∈ spans, w.cursor ≤ s.start) (hopened : ∀ s ∈ w.opened, edge s.stop)
    (hedge : ∀ s ∈ spans, edge s.start ∧ edge s.stop) (hend : edge size)
    (htag : ∀ s ∈ spans, tag s.tag) : Covers edge tag w.cursor (w.pieces size spans) size := by
  induction spans generalizing w with
  | nil =>
    obtain ⟨h₁, h₂⟩ := @covers_closeAll edge tag _ _ _ h hopened
    exact h₁.append ⟨rfl, h₂, hend, rfl⟩
  | cons s rest ih =>
    obtain ⟨hfirst, hsorted⟩ := List.pairwise_cons.mp hsorted
    obtain ⟨hclose, hnested, hle, hsuffix⟩ :=
      @covers_closeBefore edge tag _ _ _ _ h hopened (hcursor s List.mem_cons_self)
    have hrest := fun {w : Sweep} (hw : w.Nested size) (hc : w.cursor ≤ s.start)
        (ho : ∀ s ∈ w.opened, edge s.stop) =>
      ih hw (fun s hs => hfits s (List.mem_cons_of_mem _ hs)) hsorted
        (fun s hs => hc.trans (hfirst s hs)) ho (fun s hs => hedge s (List.mem_cons_of_mem _ hs))
        (fun s hs => htag s (List.mem_cons_of_mem _ hs))
    rw [Sweep.pieces]
    generalize closeBefore s.start w.cursor w.opened = r at hclose hnested hle hsuffix
    obtain ⟨ps, w'⟩ := r
    dsimp only at hclose hnested hle hsuffix ⊢
    have hopened' : ∀ s ∈ w'.opened, edge s.stop := fun s hs => hopened s (hsuffix.subset hs)
    split
    · next hadm =>
      -- the span is opened, and the cursor moves to its start
      obtain ⟨hstart, hstop⟩ := hedge s List.mem_cons_self
      refine hclose.append ⟨rfl, hle, hstart, htag s List.mem_cons_self, ?_⟩
      refine hrest (hnested.open hadm (hfits s List.mem_cons_self)) (Nat.le_refl _) fun o ho => ?_
      rcases List.mem_cons.mp ho with rfl | ho
      · exact hstop
      · exact hopened' o ho
    · exact hclose.append (hrest hnested hle hopened')

/-- **The pieces of a sweep join up from the start of the source to its end**, whatever spans were
reported. -/
theorem covers_sweep {spans : List Span}
    (hedge : ∀ s ∈ spans, s.fits size = true → edge s.start ∧ edge s.stop) (hend : edge size)
    (htag : ∀ s ∈ spans, s.fits size = true → tag s.tag) :
    Covers edge tag 0 (sweep size (arrange size spans)) size :=
  covers_pieces (Sweep.nested_start size) (fun _ hs => (mem_of_mem_arrange hs).2)
    ((pairwise_arrange size spans).imp Span.start_le_of_before) (fun _ _ => Nat.zero_le _)
    (fun _ hs => absurd hs List.not_mem_nil)
    (fun s hs => hedge s (mem_of_mem_arrange hs).1 (mem_of_mem_arrange hs).2) hend
    (fun s hs => htag s (mem_of_mem_arrange hs).1 (mem_of_mem_arrange hs).2)

end CodeTint.Highlight
