/-
# Markup closes itself

What is markup is read up to its own closing: a tag and a declaration up to `>`, a comment up to
`-->` or `--!>`.  Only if that is missing is it read up to the end of the document.  So **what is
read does not depend on what follows it**, unless it is all there is (`IsLocal`).

In content this holds of whatever a `<` can begin (`markupStep_tail`), and what follows does not
decide either that the `<` begins markup.
-/
import CodeTint.Markup.Token.Next
import CodeTint.Proofs.Markup.Token.Tag

namespace CodeTint.Markup

open CodeTint.Text

/-! ## 1. Local readers -/

/-- **What is read does not depend on what follows it**, unless it is all there is. -/
def IsLocal (read : List Char → Step) (s : List Char) : Prop :=
  ∃ front, s = front ++ (read s).rest ∧ front.head? = s.head? ∧
    ∀ r, ((read s).rest = [] → r = []) → read (front ++ r) = { read s with rest := r }

/-- A reader that goes to the end of the document is local there. -/
theorem isLocal_of_rest_eq_nil {read : List Char → Step} {s : List Char}
    (h : (read s).rest = []) : IsLocal read s := by
  refine ⟨s, by rw [h, List.append_nil], rfl, fun r hr => ?_⟩
  rw [hr h, List.append_nil, ← h]

/-- **A tag is local** if its token is made of what has been read of it. -/
theorem isLocal_of_tag {read : List Char → Step}
    {token : List Char → List Char → List Attr → Bool → Token}
    (hnone : ∀ s, rest? (s.dropWhile (!isNameEnd ·)) = none → (read s).rest = [])
    (hsome : ∀ s t, rest? (s.dropWhile (!isNameEnd ·)) = some t →
      read s = ⟨token (consumed s t.after) (s.takeWhile (!isNameEnd ·)) t.attrs t.selfClosing,
        .content, t.after⟩) (s : List Char) : IsLocal read s := by
  cases h : rest? (s.dropWhile (!isNameEnd ·)) with
  | none => exact isLocal_of_rest_eq_nil (hnone s h)
  | some t =>
    obtain ⟨front, hs, hhead, htail⟩ := tagText_tail h
    have hread : ∀ r, read (front ++ r)
        = ⟨token front (s.takeWhile (!isNameEnd ·)) t.attrs t.selfClosing, .content, r⟩ := by
      intro r
      obtain ⟨h₁, h₂⟩ := htail r
      rw [hsome _ _ h₁, h₂, consumed_left]
    have hself := hread t.after
    rw [← hs] at hself
    refine ⟨front, by rw [hself, ← hs], hhead, fun r _ => ?_⟩
    rw [hread, hself]

theorem startStep_local (s : List Char) : IsLocal startStep s :=
  @isLocal_of_tag startStep (fun raw name attrs slash => .start ⟨'<' :: raw, name, attrs, slash⟩)
    (fun s h => by rw [startStep, h]) (fun s t h => by rw [startStep, h]) s

theorem endStep_local (s : List Char) : IsLocal endStep s :=
  @isLocal_of_tag endStep (fun raw name _ _ => .finish ('<' :: '/' :: raw) name)
    (fun s h => by rw [endStep, h]) (fun s t h => by rw [endStep, h]) s

/-! ## 2. Comments and their like -/

/-- **A stretch up to a place that `p` holds of** is cut alike, if the places in it are judged
alike and `p` holds of what follows. -/
theorem breakAt_tail {p : List Char → Bool} {s r : List Char}
    (hp : ∀ c u, p (c :: u ++ (breakAt p s).2) = p (c :: u ++ r))
    (hr : r = [] ∨ p r = true) :
    breakAt p ((breakAt p s).1 ++ r) = ((breakAt p s).1, r) := by
  have hstop : breakAt p r = ([], r) := by
    rcases hr with rfl | hr
    · rfl
    · cases r with
      | nil => rfl
      | cons c r => rw [breakAt, if_pos hr]
  induction s with
  | nil => exact hstop
  | cons c s ih =>
    rw [breakAt] at hp ⊢
    split
    · exact hstop
    · next hc =>
      rw [if_neg hc] at hp
      have hsplit : p (c :: (breakAt p s).1 ++ (breakAt p s).2) = p (c :: s) := by
        rw [List.cons_append, breakAt_append]
      have hc' : ¬ p (c :: ((breakAt p s).1 ++ r)) = true := by
        rw [← List.cons_append, ← hp, hsplit]
        exact hc
      rw [List.cons_append, breakAt, if_neg hc', ih hp]

/-- What goes up to a `>` is cut there, whatever follows. -/
theorem throughGreater_tail {s : List Char} (h : (throughGreater s).2 ≠ []) :
    ∃ u, s = u ++ '>' :: (throughGreater s).2 ∧ (throughGreater s).1 = u ++ ['>'] ∧
      ∀ r, throughGreater (u ++ '>' :: r) = (u ++ ['>'], r) := by
  cases hd : s.dropWhile (· != '>') with
  | nil => simp [throughGreater, hd] at h
  | cons c r₀ =>
    have hc : c = '>' := by
      have := head?_dropWhile (p := (· != '>')) (s := s) (c := c) (by rw [hd]; rfl)
      simpa using this
    subst hc
    refine ⟨s.takeWhile (· != '>'), ?_, by simp [throughGreater, hd], fun r => ?_⟩
    · conv => lhs; rw [← List.takeWhile_append_dropWhile (p := (· != '>')) (l := s)]
      simp [throughGreater, hd]
    · obtain ⟨h₁, h₂⟩ := span_tail (p := (· != '>')) (s := s) (t := '>' :: r) (by rw [hd]; rfl)
      rw [throughGreater, h₁, h₂]
      rfl

theorem bogusStep_local (lead s : List Char) : IsLocal (bogusStep lead) s := by
  by_cases h : (throughGreater s).2 = []
  · exact isLocal_of_rest_eq_nil h
  · obtain ⟨u, hs, hu, htail⟩ := throughGreater_tail h
    refine ⟨u ++ ['>'], by rw [bogusStep, List.append_assoc]; exact hs, ?_, fun r _ => ?_⟩
    · conv => rhs; rw [hs]
      cases u <;> rfl
    · rw [bogusStep, List.append_assoc, List.singleton_append, htail, bogusStep, hu]

/-- A stretch goes to such a place or to the end. -/
theorem breakAt_stops (p : List Char → Bool) (s : List Char) :
    (breakAt p s).2 = [] ∨ p (breakAt p s).2 = true := by
  induction s with
  | nil => exact .inl rfl
  | cons c s ih =>
    rw [breakAt]
    split
    · next hc => exact .inr hc
    · exact ih

/-- The closing of a comment is one whatever follows. -/
theorem closesComment_tail {s : List Char} (h : closesComment s = true) :
    ∃ close r, 3 ≤ close.length ∧ s = close ++ r ∧
      ∀ r, closesComment (close ++ r) = true ∧ commentCloseLength (close ++ r) = close.length := by
  rw [closesComment, Bool.or_eq_true] at h
  rcases h with h | h
  · obtain ⟨r, rfl⟩ := List.isPrefixOf_iff_prefix.mp h
    exact ⟨"-->".toList, r, by decide, rfl, fun r => ⟨rfl, rfl⟩⟩
  · obtain ⟨r, rfl⟩ := List.isPrefixOf_iff_prefix.mp h
    exact ⟨"--!>".toList, r, by decide, rfl, fun r => ⟨rfl, rfl⟩⟩

/-- A place in front of the closing is judged by what stands up to the closing and with it. -/
theorem closesComment_append {close : List Char} (h : 3 ≤ close.length) (c : Char)
    (u r r' : List Char) :
    closesComment (c :: u ++ (close ++ r)) = closesComment (c :: u ++ (close ++ r')) := by
  have hlen : 4 ≤ (c :: u ++ close).length := by
    rw [List.length_append, List.length_cons]
    omega
  have hshort : "-->".toList.length ≤ (c :: u ++ close).length := Nat.le_trans (by decide) hlen
  have hlong : "--!>".toList.length ≤ (c :: u ++ close).length := Nat.le_trans (by decide) hlen
  rw [closesComment, closesComment, ← List.append_assoc, ← List.append_assoc,
    isPrefixOf_append hshort, isPrefixOf_append hshort, isPrefixOf_append hlong,
    isPrefixOf_append hlong]

theorem commentStep_local (s : List Char) : IsLocal commentStep s := by
  by_cases hrest : (commentStep s).rest = []
  · exact isLocal_of_rest_eq_nil hrest
  unfold commentStep at hrest
  split at hrest
  · exact ⟨['>'], rfl, rfl, fun r _ => rfl⟩
  · exact ⟨['-', '>'], rfl, rfl, fun r _ => rfl⟩
  · next hgt hdash =>
    have hs := breakAt_append closesComment s
    have hstops := breakAt_stops closesComment s
    have htext := @breakAt_tail closesComment s
    obtain ⟨text, r₀, hcut⟩ : ∃ text r₀, breakAt closesComment s = (text, r₀) := ⟨_, _, rfl⟩
    rw [hcut] at hs hstops htext hrest
    rcases hstops with rfl | hclose
    · exact absurd (List.drop_nil) hrest
    · obtain ⟨close, r₁, hlen, rfl, htail⟩ := closesComment_tail hclose
      obtain ⟨a, b, w, hw⟩ : ∃ a b w, text ++ close = a :: b :: w := by
        have hlong : 2 ≤ (text ++ close).length := by
          rw [List.length_append]
          omega
        match text ++ close, hlong with
        | a :: b :: w, _ => exact ⟨a, b, w, rfl⟩
      have happ : ∀ r, text ++ (close ++ r) = a :: b :: (w ++ r) := by
        intro r
        rw [← List.append_assoc, hw]
        rfl
      -- the text is cut at its closing, and it does not begin like one that closes at once
      have hread : ∀ r, commentStep (text ++ (close ++ r))
          = ⟨.comment ('<' :: '!' :: '-' :: '-' :: (text ++ close)), .content, r⟩ := by
        intro r
        have hcut := htext (r := close ++ r) (fun c u => closesComment_append hlen c u _ _)
          (.inr (htail r).1)
        rw [happ] at hs
        rw [commentStep.eq_3, hcut]
        · simp [(htail r).2]
        · intro s' hs'
          rw [happ] at hs'
          cases hs'
          exact hgt _ hs.symm
        · intro s' hs'
          rw [happ] at hs'
          cases hs'
          exact hdash _ hs.symm
      have hself := hread r₁
      rw [hs] at hself
      refine ⟨text ++ close, by rw [hself, List.append_assoc]; exact hs.symm, ?_, fun r _ => ?_⟩
      · rw [← hs, happ, hw]
        rfl
      · rw [hself, List.append_assoc]
        exact hread r

/-- A name read up to case does not reach beyond a character that it does not have. -/
theorem lower_take_append_cons {key : List Char} {c : Char} (hc : c ∉ key) (hl : c.toLower = c)
    (u r : List Char) : lower ((u ++ c :: r).take key.length) = key ↔
      key.length ≤ u.length ∧ lower (u.take key.length) = key := by
  by_cases hlen : key.length ≤ u.length
  · rw [List.take_append_of_le_length hlen]
    simp [hlen]
  · simp only [hlen, false_and, iff_false]
    intro h
    have hpos : 0 < key.length - u.length := by omega
    have hmem : c ∈ (u ++ c :: r).take key.length := by
      rw [List.take_append, List.mem_append]
      right
      cases hn : key.length - u.length with
      | zero => omega
      | succ n => simp
    have : c.toLower ∈ key := by
      rw [← h]
      exact List.mem_map_of_mem hmem
    exact hc (hl ▸ this)

/-- What `<!` begins. -/
def bangStep (cdataAllowed : Bool) (s : List Char) : Step :=
  if "--".toList.isPrefixOf s then commentStep (s.drop 2) else declarationStep cdataAllowed s

/-- What `<!` begins, up to the next `>`, if it is no comment proper and no CDATA section. -/
theorem bangStep_of_greater {b : Bool} {u r₀ : List Char}
    (hdash : "--".toList.isPrefixOf (u ++ '>' :: r₀) = false)
    (hcdata : (b && "[CDATA[".toList.isPrefixOf (u ++ '>' :: r₀)) = false)
    (hcut : ∀ r, throughGreater (u ++ '>' :: r) = (u ++ ['>'], r)) (r : List Char) :
    bangStep b (u ++ '>' :: r) = { bangStep b (u ++ '>' :: r₀) with rest := r } := by
  rw [isPrefixOf_append_cons (by decide)] at hdash hcdata
  have hname : ∀ r, lower ((u ++ '>' :: r).take 7) = "doctype".toList ↔
      7 ≤ u.length ∧ lower (u.take 7) = "doctype".toList :=
    @lower_take_append_cons "doctype".toList '>' (by decide) rfl u
  simp only [bangStep, isPrefixOf_append_cons (p := "--".toList) (c := '>') (by decide), hdash,
    declarationStep, bogusStep, hname, hcut,
    isPrefixOf_append_cons (p := "[CDATA[".toList) (c := '>') (by decide), hcdata,
    Bool.false_eq_true, if_false]
  by_cases h : 7 ≤ u.length ∧ lower (u.take 7) = "doctype".toList
  · rw [if_pos h, if_pos h]
  · rw [if_neg h, if_neg h]

theorem bangStep_local (b : Bool) (s : List Char) : IsLocal (bangStep b) s := by
  by_cases hrest : (bangStep b s).rest = []
  · exact isLocal_of_rest_eq_nil hrest
  by_cases hdash : "--".toList.isPrefixOf s = true
  · obtain ⟨s, rfl⟩ := List.isPrefixOf_iff_prefix.mp hdash
    obtain ⟨front, hs, -, htail⟩ := commentStep_local s
    exact ⟨'-' :: '-' :: front, congrArg ("--".toList ++ ·) hs, rfl, htail⟩
  by_cases hcdata : (b && "[CDATA[".toList.isPrefixOf s) = true
  · rw [Bool.and_eq_true] at hcdata
    obtain ⟨rfl, hp⟩ := hcdata
    obtain ⟨s, rfl⟩ := List.isPrefixOf_iff_prefix.mp hp
    exact ⟨"[CDATA[".toList, rfl, rfl, fun r _ => rfl⟩
  · rw [Bool.not_eq_true] at hdash hcdata
    have hthrough : (bangStep b s).rest = (throughGreater s).2 := by
      rw [bangStep, hdash, if_neg Bool.false_ne_true, declarationStep, hcdata]
      split <;> rfl
    obtain ⟨u, hs, -, hcut⟩ := throughGreater_tail (hthrough ▸ hrest)
    rw [← hthrough] at hs
    refine ⟨u ++ ['>'], by rw [List.append_assoc]; exact hs, ?_, fun r _ => ?_⟩
    · conv => rhs; rw [hs]
      cases u <;> rfl
    · rw [hs] at hdash hcdata
      rw [List.append_assoc, List.singleton_append, bangStep_of_greater hdash hcdata hcut, ← hs]

/-! ## 3. Markup in content -/

theorem markupStep_bang (b : Bool) (s : List Char) : markupStep b ('!' :: s) = bangStep b s := by
  by_cases h : "--".toList.isPrefixOf s = true
  · obtain ⟨s, rfl⟩ := List.isPrefixOf_iff_prefix.mp h
    rfl
  · rw [bangStep, if_neg h]
    refine markupStep.eq_2 b s ?_
    rintro s' rfl
    exact h rfl

theorem markupStep_letter {c : Char} (hc : c.isAlpha = true) (b : Bool) (s : List Char) :
    markupStep b (c :: s) = startStep (c :: s) := by
  unfold markupStep
  split
  case h_6 => rfl
  all_goals
    next h =>
      cases h
      exact absurd hc (by decide)

theorem opensMarkup_letter {c : Char} (hc : c.isAlpha = true) (s : List Char) :
    opensMarkup (c :: s) = true := by
  unfold opensMarkup
  split
  case h_4 h => cases h; exact hc
  all_goals first | rfl | (next h => cases h)

/-- **Markup in content closes itself**: what follows it decides neither that it is markup nor what
it is. -/
theorem markupStep_tail {b : Bool} {s : List Char} (h : opensMarkup s = true) :
    ∃ front, s = front ++ (markupStep b s).rest ∧
      ∀ r, ((markupStep b s).rest = [] → r = []) → opensMarkup (front ++ r) = true ∧
        markupStep b (front ++ r) = { markupStep b s with rest := r } := by
  unfold opensMarkup at h
  split at h
  · next s =>
    obtain ⟨front, hs, -, htail⟩ := bangStep_local b s
    refine ⟨'!' :: front, ?_, fun r hr => ⟨rfl, ?_⟩⟩
    · rw [markupStep_bang]
      exact congrArg ('!' :: ·) hs
    · rw [markupStep_bang] at hr ⊢
      rw [List.cons_append, markupStep_bang]
      exact htail r hr
  · next s =>
    obtain ⟨front, hs, -, htail⟩ := bogusStep_local ['<', '?'] s
    exact ⟨'?' :: front, congrArg ('?' :: ·) hs, fun r hr => ⟨rfl, htail r hr⟩⟩
  · next c s =>
    by_cases hgt : c = '>'
    · subst hgt
      exact ⟨['/', '>'], rfl, fun r _ => ⟨rfl, rfl⟩⟩
    · -- an end tag, or something that takes its place
      obtain ⟨read, hread, hlocal⟩ : ∃ read : List Char → Step,
          (∀ s, markupStep b ('/' :: c :: s) = read (c :: s)) ∧ ∀ s, IsLocal read s := by
        by_cases hc : c.isAlpha = true
        · refine ⟨endStep, fun s => ?_, endStep_local⟩
          rw [markupStep.eq_5 b c s hgt, if_pos hc]
        · refine ⟨bogusStep ['<', '/'], fun s => ?_, bogusStep_local _⟩
          rw [markupStep.eq_5 b c s hgt, if_neg hc]
      obtain ⟨front, hs, hhead, htail⟩ := hlocal (c :: s)
      obtain ⟨front, rfl⟩ := List.head?_eq_some_iff.mp hhead
      refine ⟨'/' :: c :: front, ?_, fun r hr => ⟨rfl, ?_⟩⟩
      · rw [hread]
        exact congrArg ('/' :: ·) hs
      · rw [hread] at hr ⊢
        rw [List.cons_append, List.cons_append, hread]
        exact htail r hr
  · next c s _ _ _ =>
    obtain ⟨front, hs, hhead, htail⟩ := startStep_local (c :: s)
    obtain ⟨front, rfl⟩ := List.head?_eq_some_iff.mp hhead
    rw [markupStep_letter h]
    refine ⟨c :: front, hs, fun r hr => ⟨opensMarkup_letter h _, ?_⟩⟩
    rw [List.cons_append, markupStep_letter h]
    exact htail r hr
  · cases h

end CodeTint.Markup
