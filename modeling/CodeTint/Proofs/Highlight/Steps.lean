/-
# What holds at every step of a sweep

The sweep is a loop over the arranged spans with a loop inside that closes those that have ended, and a
loop behind it that closes the rest.  Three places write a stretch of the source and move the cursor, two
skip a span.  A stretch that is reversed or reaches past the end would be left out without a word, and
text with it.

Here the loops are one machine (`Step`), which goes from stage to stage as `Sweep.pieces` does
(`Step.pieces_eq`, `exists_runs_end`).  One invariant holds at each of its stages (`Stage.Sound.step`,
`Stage.Sound.runs`): **the open spans are nested around the cursor, and no span that is still to come
begins before it**.  Two things follow.

* That a span must not begin before the cursor is no condition at all.  What decides whether it is opened
  is the innermost open span (`Sweep.admits_iff_of_le`).
* A stretch goes forward and ends within the source, so only an end in the middle of a character can make
  it get lost (`every_step_safe`).
-/
import CodeTint.Proofs.Highlight.Sweep
import CodeTint.Proofs.Text.Slice

namespace CodeTint.Highlight

open CodeTint.Text

/-! ## 1. Steps -/

/-- **Where a sweep stands**, with the arranged spans that are still to come. -/
structure Stage where
  sweep : Sweep
  coming : List Span

/-- Where the sweep of some spans starts. -/
def Stage.first (spans : List Span) : Stage := ⟨⟨0, []⟩, spans⟩

/-- What the sweep gives from here to its end. -/
def Stage.pieces (size : Nat) (st : Stage) : List Piece := st.sweep.pieces size st.coming

/-- **No open span has ended** in front of a place: the innermost one ends behind it. -/
def Sweep.IsSettled (w : Sweep) (place : Nat) : Prop := ∀ top ∈ w.opened.head?, place < top.stop

/-- **One step of a sweep**, with the pieces that it gives. -/
inductive Step : Stage → List Piece → Stage → Prop
  /-- The innermost span has ended in front of the next one. -/
  | close {cursor : Nat} {top s : Span} {below rest : List Span} (hended : top.stop ≤ s.start) :
      Step ⟨⟨cursor, top :: below⟩, s :: rest⟩ [.text cursor top.stop, .closing]
        ⟨⟨top.stop, below⟩, s :: rest⟩
  | enter {w : Sweep} {s : Span} {rest : List Span} (hsettled : w.IsSettled s.start)
      (hadm : w.admits s = true) :
      Step ⟨w, s :: rest⟩ [.text w.cursor s.start, .opening s.tag]
        ⟨⟨s.start, s :: w.opened⟩, rest⟩
  | skip {w : Sweep} {s : Span} {rest : List Span} (hsettled : w.IsSettled s.start)
      (hadm : ¬ w.admits s = true) : Step ⟨w, s :: rest⟩ [] ⟨w, rest⟩
  /-- No span is to come, and the innermost one is closed. -/
  | finish {cursor : Nat} {top : Span} {below : List Span} :
      Step ⟨⟨cursor, top :: below⟩, []⟩ [.text cursor top.stop, .closing] ⟨⟨top.stop, below⟩, []⟩

/-- **Some steps of a sweep**, with the pieces that they give. -/
inductive Runs : Stage → List Piece → Stage → Prop
  | refl (st : Stage) : Runs st [] st
  | step {st st₁ st₂ : Stage} {ps qs : List Piece} (hstep : Step st ps st₁)
      (hrest : Runs st₁ qs st₂) : Runs st (ps ++ qs) st₂

variable {size : Nat} {st st' : Stage} {ps : List Piece}

/-- **A step gives the pieces that the sweep gives.** -/
theorem Step.pieces_eq (h : Step st ps st') : st.pieces size = ps ++ st'.pieces size := by
  have hsettled : ∀ {w : Sweep} {s : Span}, w.IsSettled s.start →
      closeBefore s.start w.cursor w.opened = ([], w) := by
    intro w s hw
    rcases w with ⟨cursor, _ | ⟨top, below⟩⟩
    · rfl
    · rw [closeBefore, if_neg (Nat.not_le.mpr (hw top rfl))]
  cases h with
  | close hended =>
    simp only [Stage.pieces, Sweep.pieces, closeBefore, if_pos hended]
    split <;> rfl
  | enter hw hadm =>
    simp only [Stage.pieces, Sweep.pieces, hsettled hw, if_pos hadm]
    rfl
  | skip hw hadm =>
    simp only [Stage.pieces, Sweep.pieces, hsettled hw, if_neg hadm]
  | finish => rfl

theorem Runs.pieces_eq (h : Runs st ps st') : st.pieces size = ps ++ st'.pieces size := by
  induction h with
  | refl st => rfl
  | step hstep _ ih => rw [hstep.pieces_eq, ih, List.append_assoc]

/-- Once those that have ended are closed, a sweep goes on to the next span. -/
theorem exists_step {w : Sweep} {s : Span} (hsettled : w.IsSettled s.start) (rest : List Span) :
    ∃ ps w', Step ⟨w, s :: rest⟩ ps ⟨w', rest⟩ := by
  by_cases hadm : w.admits s = true
  · exact ⟨_, _, .enter hsettled hadm⟩
  · exact ⟨_, _, .skip hsettled hadm⟩

/-- **A sweep comes to its end**, where no span is open and none is to come. -/
theorem exists_runs_end (st : Stage) : ∃ ps cursor, Runs st ps ⟨⟨cursor, []⟩, []⟩ := by
  obtain ⟨⟨cursor, opened⟩, coming⟩ := st
  induction coming generalizing cursor opened with
  | nil =>
    induction opened generalizing cursor with
    | nil => exact ⟨_, _, .refl _⟩
    | cons top below ih =>
      obtain ⟨ps, last, hrest⟩ := ih top.stop
      exact ⟨_, last, .step .finish hrest⟩
  | cons s rest ih =>
    have hgoes : ∀ w : Sweep, w.IsSettled s.start →
        ∃ ps last, Runs ⟨w, s :: rest⟩ ps ⟨⟨last, []⟩, []⟩ := by
      intro w hsettled
      obtain ⟨ps, ⟨cursor', opened'⟩, hstep⟩ := exists_step hsettled rest
      obtain ⟨qs, last, hrest⟩ := ih cursor' opened'
      exact ⟨_, last, .step hstep hrest⟩
    induction opened generalizing cursor with
    | nil => exact hgoes ⟨cursor, []⟩ (fun top htop => nomatch htop)
    | cons top below ihbelow =>
      by_cases hended : top.stop ≤ s.start
      · obtain ⟨ps, last, hrest⟩ := ihbelow top.stop
        exact ⟨_, last, .step (.close hended) hrest⟩
      · refine hgoes ⟨cursor, top :: below⟩ fun t ht => ?_
        cases ht
        exact Nat.not_le.mp hended

/-! ## 2. The invariant -/

/-- **What every step keeps**: the open spans are nested around the cursor, and the spans to come fit
into the source, stand in order and begin at or behind the cursor. -/
structure Stage.Sound (size : Nat) (st : Stage) : Prop where
  nested : st.sweep.Nested size
  fits : ∀ s ∈ st.coming, s.fits size = true
  sorted : st.coming.Pairwise (fun a b => a.start ≤ b.start)
  ahead : ∀ s ∈ st.coming, st.sweep.cursor ≤ s.start

theorem Stage.sound_first (size : Nat) (spans : List Span) :
    (Stage.first (arrange size spans)).Sound size :=
  ⟨Sweep.nested_start size, fun _ hs => (mem_of_mem_arrange hs).2,
    (pairwise_arrange size spans).imp Span.start_le_of_before, fun _ _ => Nat.zero_le _⟩

/-- **A step keeps it.** -/
theorem Stage.Sound.step (h : st.Sound size) (hstep : Step st ps st') : st'.Sound size := by
  obtain ⟨hnested, hfits, hsorted, hahead⟩ := h
  cases hstep with
  | @close cursor top s below rest hended =>
    -- the cursor moves to an end that the next span is behind, and with it all that follow
    refine ⟨hnested.close, hfits, hsorted, fun t ht => ?_⟩
    rcases List.mem_cons.mp ht with rfl | ht
    · exact hended
    · exact hended.trans ((List.pairwise_cons.mp hsorted).1 t ht)
  | @enter w s rest hsettled hadm =>
    obtain ⟨hfirst, hsorted⟩ := List.pairwise_cons.mp hsorted
    rw [List.forall_mem_cons] at hfits
    exact ⟨hnested.open hadm hfits.1, hfits.2, hsorted, hfirst⟩
  | @skip w s rest hsettled hadm =>
    rw [List.forall_mem_cons] at hfits hahead
    exact ⟨hnested, hfits.2, (List.pairwise_cons.mp hsorted).2, hahead.2⟩
  | finish => exact ⟨hnested.close, hfits, hsorted, fun t ht => absurd ht List.not_mem_nil⟩

/-- **So does every run.** -/
theorem Stage.Sound.runs (h : st.Sound size) (hruns : Runs st ps st') : st'.Sound size := by
  induction hruns with
  | refl st => exact h
  | step hstep _ ih => exact ih (h.step hstep)

/-! ## 3. What follows at every stage -/

/-- **What holds wherever a sweep stands.** -/
structure Stage.Safe (size : Nat) (st : Stage) : Prop where
  /-- Each open span lies within all those below it. -/
  nested : st.sweep.opened.Pairwise
    fun inner outer => outer.start ≤ inner.start ∧ inner.stop ≤ outer.stop
  /-- The cursor is within the source, not past the end of the innermost open span, and not past the
  start of the next one. -/
  cursor_le : st.sweep.cursor ≤ size
  cursor_le_stop : ∀ top ∈ st.sweep.opened.head?, st.sweep.cursor ≤ top.stop
  cursor_le_start : ∀ s ∈ st.coming.head?, st.sweep.cursor ≤ s.start
  /-- What keeps a span from being opened is that it sticks out of the innermost one or has its tag,
  and nothing else. -/
  admits_iff : ∀ s ∈ st.coming.head?, st.sweep.admits s = true ↔
    ∀ top ∈ st.sweep.opened.head?, s.stop ≤ top.stop ∧ s.tag ≠ top.tag

/-- **That a span begins at or behind the cursor** need not be asked. -/
theorem Sweep.admits_iff_of_le {w : Sweep} {s : Span} (h : w.cursor ≤ s.start) :
    w.admits s = true ↔ ∀ top ∈ w.opened.head?, s.stop ≤ top.stop ∧ s.tag ≠ top.tag := by
  rw [admits, decide_eq_true h, Bool.true_and]
  cases w.opened with
  | nil => simp
  | cons top below => simp

theorem Stage.Sound.safe (h : st.Sound size) : st.Safe size where
  nested := h.nested.within
  cursor_le := h.nested.cursor_le
  cursor_le_stop top htop := (h.nested.around top (List.mem_of_mem_head? htop)).2.1
  cursor_le_start s hs := h.ahead s (List.mem_of_mem_head? hs)
  admits_iff s hs := Sweep.admits_iff_of_le (h.ahead s (List.mem_of_mem_head? hs))

/-- Stretches that join up go forward, and end at places that are allowed. -/
theorem Covers.of_mem {edge : Nat → Prop} {tag : String → Prop} {a b x y : Nat}
    (h : Covers edge tag a ps b) (hmem : .text x y ∈ ps) : x ≤ y ∧ edge y := by
  induction ps generalizing a with
  | nil => cases hmem
  | cons p ps ih =>
    cases p with
    | text x' y' =>
      obtain ⟨hx, hle, hedge, hrest⟩ := h
      rcases List.mem_cons.mp hmem with heq | hmem
      · cases heq
        exact ⟨hx ▸ hle, hedge⟩
      · exact ih hrest hmem
    | opening t => exact ih h.2 ((List.mem_cons.mp hmem).resolve_left nofun)
    | closing => exact ih h ((List.mem_cons.mp hmem).resolve_left nofun)

/-- **Every step of a sweep is safe**, for any source and any spans.

* Wherever it stands, the open spans are nested, and the cursor is not past the end of the innermost one
  or the start of the next.  What it has given so far and what it will give from there is the whole.
* It comes to an end, where it gives the rest of the source.
* Every stretch that it gives goes forward and ends within the source.  So it is left out just if one of
  its ends is in the middle of a character. -/
theorem every_step_safe (source : List Char) (spans : List Span) :
    let size := Utf8.size source
    let first := Stage.first (arrange size spans)
    (∀ ps st, Runs first ps st →
      st.Safe size ∧ sweep size (arrange size spans) = ps ++ st.pieces size) ∧
    (∃ ps cursor, Runs first ps ⟨⟨cursor, []⟩, []⟩ ∧
      sweep size (arrange size spans) = ps ++ [.text cursor size]) ∧
    ∀ start stop, .text start stop ∈ sweep size (arrange size spans) →
      start ≤ stop ∧ stop ≤ size ∧
        (slice? start stop source = none ↔
          ¬ IsBoundary start source ∨ ¬ IsBoundary stop source) := by
  intro size first
  have hpieces : first.pieces size = sweep size (arrange size spans) := rfl
  refine ⟨fun ps st hruns => ?_, ?_, fun start stop hmem => ?_⟩
  · exact ⟨((Stage.sound_first size spans).runs hruns).safe, hpieces ▸ hruns.pieces_eq⟩
  · obtain ⟨ps, cursor, hruns⟩ := exists_runs_end first
    exact ⟨ps, cursor, hruns, hpieces ▸ hruns.pieces_eq⟩
  · have hcovers : Covers (· ≤ size) (fun _ => True) 0 (sweep size (arrange size spans)) size := by
      refine covers_sweep (fun s _ hs => ?_) (Nat.le_refl _) fun _ _ _ => trivial
      simp only [Span.fits, Bool.and_eq_true, decide_eq_true_eq] at hs
      exact ⟨hs.1.le.trans hs.2, hs.2⟩
    obtain ⟨hle, hstop⟩ := hcovers.of_mem hmem
    refine ⟨hle, hstop, ?_⟩
    rw [slice?_eq_none_iff, or_iff_right (Nat.not_lt.mpr hle)]

/-- Spans of a source of five bytes: one begins in the middle of the first character, and one sticks out
of that. -/
def astride : List Span := [⟨1, 3, "k"⟩, ⟨0, 4, "s"⟩, ⟨2, 5, "c"⟩]

theorem every_step_safe_astride :
    let st : Stage := ⟨⟨1, [⟨1, 3, "k"⟩, ⟨0, 4, "s"⟩]⟩, [⟨2, 5, "c"⟩]⟩
    Runs (Stage.first (arrange 5 astride)) [.text 0 0, .opening "s", .text 0 1, .opening "k"] st ∧
      st.Safe 5 ∧ ¬ st.sweep.admits ⟨2, 5, "c"⟩ = true ∧
      .text 0 1 ∈ sweep 5 (arrange 5 astride) ∧ slice? 0 1 "é<ab".toList = none := by
  intro st
  have hsort : (astride.filter (Span.fits 5)).mergeSort Span.before
      = [⟨0, 4, "s"⟩, ⟨1, 3, "k"⟩, ⟨2, 5, "c"⟩] := by
    simp [astride, Span.fits, Span.before, List.mergeSort, List.MergeSort.Internal.splitInTwo]
  have harrange : arrange 5 astride = [⟨0, 4, "s"⟩, ⟨1, 3, "k"⟩, ⟨2, 5, "c"⟩] :=
    (congrArg lastOfEach hsort).trans (by decide)
  have hsize : Utf8.size "é<ab".toList = 5 := by decide
  have hruns : Runs (Stage.first (arrange 5 astride))
      [.text 0 0, .opening "s", .text 0 1, .opening "k"] st := by
    rw [harrange]
    exact .step (.enter (by simp [Sweep.IsSettled]) (by decide))
      (.step (.enter (by simp [Sweep.IsSettled]) (by decide)) (.refl st))
  obtain ⟨hsafe, -, hslices⟩ := every_step_safe "é<ab".toList astride
  rw [hsize] at hsafe hslices
  obtain ⟨hst, hpieces⟩ := hsafe _ _ hruns
  have hmem : .text 0 1 ∈ sweep 5 (arrange 5 astride) := by simp [hpieces]
  refine ⟨hruns, hst, ?_, hmem, (hslices 0 1 hmem).2.2.mpr (Or.inr (by decide))⟩
  -- the span is not admitted, though it begins behind the cursor
  rw [hst.admits_iff _ rfl]
  exact fun h => absurd (h ⟨1, 3, "k"⟩ rfl).1 (by decide)

end CodeTint.Highlight
