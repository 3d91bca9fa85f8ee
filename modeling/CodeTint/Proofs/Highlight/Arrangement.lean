/-
# What the order of the sweep depends on

Spans are reported in any order, a range can be reported several times, and some spans are empty,
reversed or reach past the end.  This file says what arranging makes of them, without the sorting:
**for each range within the source that was reported, its last report**, in a strict order
(`isArranged_iff`).  There is only one such list.

That the reports of a range meet, however far apart they stood, is the work of two halves, and neither
is enough alone.

* **Sorting** keeps the reports of a range in their order, for it is stable (`reports_mergeSort`).
* **Thinning out** goes by neighbours only.  It never takes the last report of a range
  (`lastTag?_lastOfEach`), and behind the sorting it leaves no second one (`pairwise_lastOfEach_lt`).

So nothing else in a list of spans shows in the markup (`last_reports_decide`).
-/
import CodeTint.Proofs.Highlight.Sweep

namespace CodeTint.Highlight

open CodeTint.Text

variable {size start stop : Nat} {spans : List Span}

/-! ## 1. The reports of a range -/

/-- Whether a span goes from one place to another. -/
def Span.hasRange (start stop : Nat) (s : Span) : Bool := s.start == start && s.stop == stop

/-- **The reports of a range**, in their order. -/
def reports (start stop : Nat) (spans : List Span) : List Span :=
  spans.filter (Span.hasRange start stop)

/-- **What was reported last for a range**: the tag of its last report, none if there is none. -/
def lastTag? (start stop : Nat) (spans : List Span) : Option String :=
  ((reports start stop spans).getLast?).map Span.tag

@[simp] theorem Span.hasRange_iff {s : Span} :
    s.hasRange start stop = true ↔ s.start = start ∧ s.stop = stop := by
  simp [hasRange]

theorem Span.sameRange_iff {s t : Span} : s.sameRange t = true ↔ s.start = t.start ∧ s.stop = t.stop := by
  simp [sameRange]

@[simp] theorem reports_append (xs ys : List Span) :
    reports start stop (xs ++ ys) = reports start stop xs ++ reports start stop ys :=
  List.filter_append ..

/-- A report behind it wins over a report. -/
theorem lastTag?_append (xs ys : List Span) :
    lastTag? start stop (xs ++ ys) = (lastTag? start stop ys).or (lastTag? start stop xs) := by
  simp only [lastTag?, reports_append, List.getLast?_append, Option.map_or]

theorem lastTag?_cons (s : Span) (spans : List Span) : lastTag? start stop (s :: spans)
    = (lastTag? start stop spans).or (if s.hasRange start stop then some s.tag else none) := by
  rw [← List.singleton_append, lastTag?_append]
  congr 1
  unfold lastTag? reports
  split
  · next h => simp [h]
  · next h => simp [h]

/-- What was reported last for a range was reported. -/
theorem mem_of_lastTag? {tag : String} (h : lastTag? start stop spans = some tag) :
    ⟨start, stop, tag⟩ ∈ spans := by
  obtain ⟨s, hs, rfl⟩ := Option.map_eq_some_iff.mp h
  obtain ⟨hmem, hrange⟩ := List.mem_filter.mp (List.mem_of_getLast? hs)
  obtain ⟨rfl, rfl⟩ := Span.hasRange_iff.mp hrange
  exact hmem

/-! ## 2. What arranging keeps of them -/

/-- Leaving out what does not fit takes no report of a range that does. -/
theorem reports_filter_fits (hlt : start < stop) (hle : stop ≤ size) :
    reports start stop (spans.filter (Span.fits size)) = reports start stop spans := by
  unfold reports
  rw [List.filter_filter]
  refine List.filter_congr fun s _ => ?_
  by_cases h : s.hasRange start stop = true
  · obtain ⟨rfl, rfl⟩ := Span.hasRange_iff.mp h
    simp [Span.fits, hlt, hle]
  · simp [h]

/-- **Sorting keeps the reports of a range in their order.**  They count as equal to each other, so the
list of them is in order as it stands, and a stable sort has it as a part. -/
theorem reports_mergeSort (start stop : Nat) (spans : List Span) :
    reports start stop (spans.mergeSort Span.before) = reports start stop spans := by
  have hsorted : (reports start stop spans).Pairwise (fun a b => a.before b = true) := by
    refine List.pairwise_of_forall_mem_list fun a ha b hb => ?_
    obtain ⟨hastart, hastop⟩ := Span.hasRange_iff.mp (List.mem_filter.mp ha).2
    obtain ⟨hbstart, hbstop⟩ := Span.hasRange_iff.mp (List.mem_filter.mp hb).2
    simp [Span.before, hastart, hastop, hbstart, hbstop]
  have hsub : (reports start stop spans).Sublist (spans.mergeSort Span.before) :=
    @List.sublist_mergeSort _ Span.before spans (fun _ _ _ => Span.before_trans) Span.before_total
      _ hsorted List.filter_sublist
  have hsub' := hsub.filter (Span.hasRange start stop)
  have hself : (reports start stop spans).filter (Span.hasRange start stop)
      = reports start stop spans := by
    unfold reports
    simp
  rw [hself] at hsub'
  refine (hsub'.eq_of_length ?_).symm
  exact ((List.mergeSort_perm spans Span.before).filter _).length_eq.symm

/-- **Thinning out keeps the last report of every range**: what it takes is followed by another. -/
theorem lastTag?_lastOfEach (start stop : Nat) (spans : List Span) :
    lastTag? start stop (lastOfEach spans) = lastTag? start stop spans := by
  fun_induction lastOfEach spans with
  | case1 => rfl
  | case2 => rfl
  | case3 s t rest hsame ih =>
    obtain ⟨hstart, hstop⟩ := Span.sameRange_iff.mp hsame
    have hrange : s.hasRange start stop = t.hasRange start stop := by
      simp only [Span.hasRange, hstart, hstop]
    rw [ih, lastTag?_cons s, lastTag?_cons t, hrange]
    cases lastTag? start stop rest with
    | some tag => simp
    | none => cases t.hasRange start stop <;> simp
  | case4 s t rest hdiff ih => rw [lastTag?_cons, ih, ← lastTag?_cons]

/-- **The strict order of the sweep**: earlier starts first, then later ends. -/
def Span.Precedes (a b : Span) : Prop := a.start < b.start ∨ a.start = b.start ∧ b.stop < a.stop

instance (a b : Span) : Decidable (a.Precedes b) := inferInstanceAs (Decidable (_ ∨ _))

theorem Span.precedes_of_before {a b : Span} (h : a.before b = true) (hdiff : a.sameRange b = false) :
    a.Precedes b := by
  simp only [before, sameRange, Precedes, Bool.or_eq_true, Bool.and_eq_true, decide_eq_true_eq,
    beq_iff_eq, Bool.and_eq_false_iff, beq_eq_false_iff_ne] at *
  omega

theorem Span.Precedes.of_before {a b c : Span} (hab : a.Precedes b) (hbc : b.before c = true) :
    a.Precedes c := by
  simp only [before, Precedes, Bool.or_eq_true, Bool.and_eq_true, decide_eq_true_eq,
    beq_iff_eq] at *
  omega

/-- **Of spans in order, thinning out leaves one of each range.** -/
theorem pairwise_lastOfEach_lt (h : spans.Pairwise (fun a b => a.before b = true)) :
    (lastOfEach spans).Pairwise Span.Precedes := by
  fun_induction lastOfEach spans with
  | case1 => exact List.Pairwise.nil
  | case2 => exact List.pairwise_singleton _ _
  | case3 s t rest hsame ih => exact ih (List.pairwise_cons.mp h).2
  | case4 s t rest hdiff ih =>
    obtain ⟨hs, hrest⟩ := List.pairwise_cons.mp h
    refine List.pairwise_cons.mpr ⟨?_, ih hrest⟩
    -- the next one has another range, and all that follow it come behind it
    have hst : s.Precedes t :=
      Span.precedes_of_before (hs t List.mem_cons_self) (Bool.eq_false_iff.mpr hdiff)
    intro u hu
    rcases List.mem_cons.mp (mem_of_mem_lastOfEach hu) with rfl | hu
    · exact hst
    · exact hst.of_before ((List.pairwise_cons.mp hrest).1 u hu)

/-! ## 3. The arrangement, said without sorting -/

/-- **The last reports of all ranges within the source**, in the order of the sweep. -/
structure IsArranged (size : Nat) (spans arranged : List Span) : Prop where
  sorted : arranged.Pairwise Span.Precedes
  mem : ∀ s, s ∈ arranged ↔
    s.start < s.stop ∧ s.stop ≤ size ∧ lastTag? s.start s.stop spans = some s.tag

theorem lastTag?_arrange (hlt : start < stop) (hle : stop ≤ size) :
    lastTag? start stop (arrange size spans) = lastTag? start stop spans := by
  unfold arrange
  rw [lastTag?_lastOfEach, lastTag?, reports_mergeSort, reports_filter_fits hlt hle, ← lastTag?]

/-- In a strict order each span is the last report of its range. -/
theorem lastTag?_of_mem {s : Span} (hsorted : spans.Pairwise Span.Precedes) (hs : s ∈ spans) :
    lastTag? s.start s.stop spans = some s.tag := by
  obtain ⟨front, back, rfl⟩ := List.append_of_mem hs
  obtain ⟨-, hback, -⟩ := List.pairwise_append.mp hsorted
  have hnone : lastTag? s.start s.stop back = none := by
    cases htag : lastTag? s.start s.stop back with
    | none => rfl
    | some tag =>
      rcases (List.pairwise_cons.mp hback).1 _ (mem_of_lastTag? htag) with h | ⟨-, h⟩
      · exact absurd h (Nat.lt_irrefl _)
      · exact absurd h (Nat.lt_irrefl _)
  rw [lastTag?_append, lastTag?_cons, hnone]
  simp

/-- **What is swept is what was reported last**, range by range. -/
theorem isArranged_arrange (size : Nat) (spans : List Span) :
    IsArranged size spans (arrange size spans) := by
  have hsorted : (arrange size spans).Pairwise Span.Precedes :=
    pairwise_lastOfEach_lt (List.pairwise_mergeSort (@Span.before_trans) Span.before_total _)
  refine ⟨hsorted, fun s => ⟨fun hs => ?_, ?_⟩⟩
  · have hfits := (mem_of_mem_arrange hs).2
    simp only [Span.fits, Bool.and_eq_true, decide_eq_true_eq] at hfits
    refine ⟨hfits.1, hfits.2, ?_⟩
    rw [← lastTag?_arrange hfits.1 hfits.2]
    exact lastTag?_of_mem hsorted hs
  · rintro ⟨hlt, hle, htag⟩
    rw [← lastTag?_arrange hlt hle] at htag
    exact mem_of_lastTag? htag

theorem Span.Precedes.asymm {a b : Span} (hab : a.Precedes b) (hba : b.Precedes a) : False := by
  unfold Precedes at hab hba
  omega

/-- **There is only one arrangement.** -/
theorem isArranged_iff {arranged : List Span} :
    IsArranged size spans arranged ↔ arranged = arrange size spans := by
  constructor
  · intro h
    have harrange := isArranged_arrange size spans
    have hanti : Std.Antisymm Span.Precedes := ⟨fun _ _ hab hba => (hab.asymm hba).elim⟩
    have hirrefl : Std.Irrefl Span.Precedes := ⟨fun _ haa => haa.asymm haa⟩
    exact h.sorted.eq_of_mem_iff harrange.sorted fun s => (h.mem s).trans (harrange.mem s).symm
  · rintro rfl
    exact isArranged_arrange size spans

/-- **Lists that report the same last are arranged alike.** -/
theorem arrange_congr {xs ys : List Span}
    (h : ∀ start stop, start < stop → stop ≤ size → lastTag? start stop xs = lastTag? start stop ys) :
    arrange size xs = arrange size ys := by
  refine isArranged_iff.mp ⟨(isArranged_arrange size xs).sorted, fun s => ?_⟩
  rw [(isArranged_arrange size xs).mem]
  refine and_congr_right fun hlt => and_congr_right fun hle => ?_
  rw [h s.start s.stop hlt hle]

/-! ## 4. What shows in the markup -/

/-- **The reports in front of another one of their range** can be taken away. -/
theorem lastTag?_drop_earlier (front back : List Span) (t : Span) :
    lastTag? start stop (front.filter (fun s => !s.hasRange t.start t.stop) ++ t :: back)
      = lastTag? start stop (front ++ t :: back) := by
  rw [lastTag?_append, lastTag?_append, lastTag?_cons]
  by_cases hrange : t.hasRange start stop = true
  · simp [hrange]
  · -- nothing was taken of another range
    have hkeep : reports start stop (front.filter fun s => !s.hasRange t.start t.stop)
        = reports start stop front := by
      unfold reports
      rw [List.filter_filter]
      refine List.filter_congr fun s _ => ?_
      by_cases hs : s.hasRange start stop = true
      · obtain ⟨rfl, rfl⟩ := Span.hasRange_iff.mp hs
        have hother : ¬ s.hasRange t.start t.stop = true := by
          intro h
          obtain ⟨hstart, hstop⟩ := Span.hasRange_iff.mp h
          exact hrange (Span.hasRange_iff.mpr ⟨hstart.symm, hstop.symm⟩)
        simp [hs, hother]
      · simp [hs]
    unfold lastTag?
    rw [hkeep]

/-- **Only the last report of each range within the source shows.**

* Two lists that report the same ranges within the source, and the same tag last for each of them, are
  rendered alike.
* So the order of the spans does not show, as long as the reports of one range keep theirs;
* nor do the reports of a range that come before its last, wherever they stand;
* nor do spans that are empty, reversed or reach past the end, be they many or few. -/
theorem last_reports_decide (source : List Char) :
    (∀ xs ys : List Span,
      (∀ start stop, start < stop → stop ≤ Utf8.size source →
        lastTag? start stop xs = lastTag? start stop ys) →
      render source xs = render source ys) ∧
    (∀ xs ys : List Span, xs.Perm ys →
      (∀ start stop, reports start stop xs = reports start stop ys) →
      render source xs = render source ys) ∧
    (∀ (front back : List Span) (t : Span),
      render source (front.filter (fun s => !s.hasRange t.start t.stop) ++ t :: back)
        = render source (front ++ t :: back)) ∧
    ∀ xs ys : List Span,
      xs.filter (Span.fits (Utf8.size source)) = ys.filter (Span.fits (Utf8.size source)) →
      render source xs = render source ys := by
  have hlast : ∀ xs ys : List Span,
      (∀ start stop, start < stop → stop ≤ Utf8.size source →
        lastTag? start stop xs = lastTag? start stop ys) →
      render source xs = render source ys := by
    intro xs ys h
    simp only [render, arrange_congr h]
  refine ⟨hlast, ?_, ?_, ?_⟩
  · intro xs ys _ h
    refine hlast xs ys fun start stop _ _ => ?_
    rw [lastTag?, h, ← lastTag?]
  · intro front back t
    exact hlast _ _ fun start stop _ _ => lastTag?_drop_earlier front back t
  · intro xs ys h
    refine hlast xs ys fun start stop hlt hle => ?_
    rw [lastTag?, ← reports_filter_fits hlt hle, h, reports_filter_fits hlt hle, ← lastTag?]

/-- Spans of a source of four bytes; one range is reported twice, with others in between. -/
def repeated : List Span := [⟨0, 4, "s"⟩, ⟨1, 3, "k"⟩, ⟨2, 3, "e"⟩, ⟨0, 4, "c"⟩]

/-- The same with another span first. -/
def shifted : List Span := [⟨1, 3, "k"⟩, ⟨0, 4, "s"⟩, ⟨0, 4, "c"⟩, ⟨2, 3, "e"⟩]

/-- The last reports in another order, with an empty, a reversed and an overlong span among them. -/
def strewn : List Span :=
  [⟨2, 3, "e"⟩, ⟨3, 3, "x"⟩, ⟨0, 4, "c"⟩, ⟨3, 1, "y"⟩, ⟨1, 3, "k"⟩, ⟨2, 9, "z"⟩]

theorem last_reports_decide_strewn :
    (∀ stop ≤ Utf8.size "<abc".toList, ∀ start < stop,
      lastTag? start stop repeated = lastTag? start stop strewn) ∧
    render "<abc".toList repeated = render "<abc".toList strewn ∧
    repeated.Perm shifted ∧ render "<abc".toList repeated = render "<abc".toList shifted ∧
    strewn.filter (Span.fits 4) = [⟨2, 3, "e"⟩, ⟨0, 4, "c"⟩, ⟨1, 3, "k"⟩] ∧
    render "<abc".toList strewn = render "<abc".toList [⟨2, 3, "e"⟩, ⟨0, 4, "c"⟩, ⟨1, 3, "k"⟩] := by
  obtain ⟨hlast, hperm, -, hfit⟩ := last_reports_decide "<abc".toList
  have hsame : ∀ stop ≤ Utf8.size "<abc".toList, ∀ start < stop,
      lastTag? start stop repeated = lastTag? start stop strewn := by decide +kernel
  have hshift : repeated.Perm shifted := by decide
  have hreports : ∀ start stop, reports start stop repeated = reports start stop shifted := by
    intro start stop
    simp only [reports, repeated, shifted, List.filter_cons, List.filter_nil, Span.hasRange_iff]
    grind
  have hfilter : strewn.filter (Span.fits 4) = [⟨2, 3, "e"⟩, ⟨0, 4, "c"⟩, ⟨1, 3, "k"⟩] := by decide
  refine ⟨hsame, hlast _ _ ?_, hshift, hperm _ _ hshift hreports, hfilter, hfit _ _ ?_⟩
  · intro start stop hlt hle
    exact hsame stop hle start hlt
  · decide +kernel

end CodeTint.Highlight
