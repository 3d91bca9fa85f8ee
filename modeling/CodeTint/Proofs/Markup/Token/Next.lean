/-
# How far a step looks ahead

Text is read up to where something else begins, so reading it needs a look at what follows.  The
look is a short one: a text stops at the same place if what follows is something that stops it in
both cases (`Mode.Alike.stops_append`), for a text does not look beyond the first character of it.
That holds in content, in the elements that hold only text, in scripts with their escapes, and in
CDATA sections.

So each step is **read alike in a changed document**, if what is changed stands behind it:

* where the text stops, what begins there closes itself (`next_of_stops`);
* where it does not, the text goes on to the end or to where it stops (`next_text_tail`).
-/
import CodeTint.Proofs.Markup.Token.Local

namespace CodeTint.Markup

open CodeTint.Text

/-! ## 1. The end tag of a text element -/

/-- What ends a name in a tag is no letter, in whatever case. -/
theorem isNameEnd_of_isAlpha {c : Char} (h : c.toLower.isAlpha = true) : isNameEnd c = false := by
  rw [Bool.eq_false_iff]
  intro hc
  simp only [isNameEnd, isSpace, Bool.or_eq_true, beq_iff_eq] at hc
  rcases hc with ((((((rfl | rfl) | rfl) | rfl) | rfl) | rfl) | rfl) <;> exact absurd h (by decide)

variable {key : List Char}

theorem lt_not_mem (hkey : ∀ c ∈ key, c.isAlpha = true) : '<' ∉ key := by
  intro h
  exact absurd (hkey _ h) (by decide)

/-- **The whole name of a tag is the key**, up to case, and something ends it. -/
theorem beginsName_iff (hkey : ∀ c ∈ key, c.isAlpha = true) {s : List Char} :
    beginsName key s = true ↔
      lower (s.takeWhile (!isNameEnd ·)) = key ∧ s.dropWhile (!isNameEnd ·) ≠ [] := by
  rw [beginsName, Bool.and_eq_true, beq_iff_eq]
  constructor
  · rintro ⟨hname, hend⟩
    split at hend
    · next c r hc =>
      have hs : s = s.take key.length ++ c :: r := by rw [← hc, List.take_append_drop]
      have hall : ∀ x ∈ s.take key.length, (!isNameEnd x) = true := by
        intro x hx
        have hmem : x.toLower ∈ key := by
          rw [← hname]
          exact List.mem_map_of_mem hx
        rw [isNameEnd_of_isAlpha (hkey _ hmem)]
        rfl
      obtain ⟨h₁, h₂⟩ := span_append (p := (!isNameEnd ·)) (t := c :: r) hall (by
        rintro x ⟨⟩
        rw [hend]
        rfl)
      rw [← hs] at h₁ h₂
      rw [h₁, h₂]
      exact ⟨hname, List.cons_ne_nil _ _⟩
    · cases hend
  · rintro ⟨hname, hne⟩
    have hs : s = s.takeWhile (!isNameEnd ·) ++ s.dropWhile (!isNameEnd ·) :=
      List.takeWhile_append_dropWhile.symm
    have hlen : key.length = (s.takeWhile (!isNameEnd ·)).length := by
      rw [← hname, lower, List.length_map]
    cases hd : s.dropWhile (!isNameEnd ·) with
    | nil => exact absurd hd hne
    | cons c r =>
      have hc : isNameEnd c = true := by
        have := head?_dropWhile (p := (!isNameEnd ·)) (s := s) (c := c) (by rw [hd]; rfl)
        simpa using this
      rw [hd] at hs
      have htake : s.take key.length = s.takeWhile (!isNameEnd ·) := by
        conv => lhs; rw [hs, hlen]
        exact List.take_left
      have hdrop : s.drop key.length = c :: r := by
        conv => lhs; rw [hs, hlen]
        exact List.drop_left
      rw [htake, hdrop]
      exact ⟨hname, hc⟩

/-- A `<` ends no name, so a name does not reach beyond it. -/
theorem beginsName_append (hkey : '<' ∉ key) (u r r' : List Char) :
    beginsName key (u ++ '<' :: r) = beginsName key (u ++ '<' :: r') := by
  have hname := lower_take_append_cons hkey rfl u
  by_cases h : key.length ≤ u.length ∧ lower (u.take key.length) = key
  · rw [beginsName, beginsName, (hname r).mpr h, (hname r').mpr h,
      List.drop_append_of_le_length h.1, List.drop_append_of_le_length h.1]
    cases u.drop key.length <;> rfl
  · rw [beginsName, beginsName, beq_false_of_ne (mt (hname r).mp h),
      beq_false_of_ne (mt (hname r').mp h), Bool.false_and, Bool.false_and]

theorem endsElement_append (hkey : '<' ∉ key) (c : Char) (u r r' : List Char) :
    endsElement key (c :: u ++ '<' :: r) = endsElement key (c :: u ++ '<' :: r') := by
  by_cases hc : c = '<'
  · subst hc
    cases u with
    | nil => rfl
    | cons d u =>
      by_cases hd : d = '/'
      · subst hd
        exact beginsName_append hkey u r r'
      · simp [endsElement, hd]
  · simp [endsElement, hc]

/-- An end tag is one, or it is cut off by the end of the document. -/
theorem endStep_cases (s : List Char) :
    (endStep s).rest = [] ∧ (∃ raw, (endStep s).token = .blank raw) ∨
      ∃ raw, (endStep s).token = .finish raw (s.takeWhile (!isNameEnd ·)) ∧
        s.dropWhile (!isNameEnd ·) ≠ [] := by
  unfold endStep
  split
  · exact .inl ⟨rfl, _, rfl⟩
  · next t ht =>
    refine .inr ⟨_, rfl, ?_⟩
    intro hnil
    rw [hnil, rest?] at ht
    cases ht

/-- **The end tag of a text element closes itself**, and it is the same element's whatever
follows. -/
theorem endStep_tail (hkey : ∀ c ∈ key, c.isAlpha = true) {s : List Char}
    (h : beginsName key s = true) :
    ∃ front, s = front ++ (endStep s).rest ∧
      ∀ r, ((endStep s).rest = [] → r = []) → beginsName key (front ++ r) = true ∧
        endStep (front ++ r) = { endStep s with rest := r } := by
  obtain ⟨front, hs, -, htail⟩ := endStep_local s
  refine ⟨front, hs, fun r hr => ⟨?_, htail r hr⟩⟩
  rcases endStep_cases s with ⟨hnil, -⟩ | ⟨raw, hraw, -⟩
  · rw [hnil, List.append_nil] at hs
    rwa [hr hnil, List.append_nil, ← hs]
  · rcases endStep_cases (front ++ r) with ⟨-, raw', hraw'⟩ | ⟨raw', hraw', hne⟩
    · rw [htail r hr, hraw] at hraw'
      cases hraw'
    · rw [htail r hr, hraw, Token.finish.injEq] at hraw'
      rw [beginsName_iff hkey, ← hraw'.2]
      exact ⟨((beginsName_iff hkey).mp h).1, hne⟩

/-! ## 2. Where a text stops -/

/-- **Whether a text stops at a place**, since something else begins there. -/
def Mode.stops : Mode → List Char → Bool
  | .content, s => isMarkup s
  | .textOf key, s => endsElement key s
  | .script, s => endsElement scriptKey s
  | .plain, _ => false
  | .cdata, s => endsCdata s

/-- A mode whose key, if it has one, is a name made of letters. -/
def Mode.IsLettered (m : Mode) : Prop := ∀ key, m = .textOf key → ∀ c ∈ key, c.isAlpha = true

theorem isAlpha_scriptKey : ∀ c ∈ scriptKey, c.isAlpha = true := by simp [scriptKey]

/-- A place in content is judged by three characters. -/
theorem opensMarkup_cons_cons (c d : Char) (r r' : List Char) :
    opensMarkup (c :: d :: r) = opensMarkup (c :: d :: r') := by
  by_cases hbang : c = '!'
  · subst hbang
    rfl
  · by_cases hquestion : c = '?'
    · subst hquestion
      rfl
    · by_cases hslash : c = '/'
      · subst hslash
        rfl
      · simp [opensMarkup, hslash]

theorem isMarkup_append (c : Char) (u r r' : List Char) :
    isMarkup (c :: u ++ '<' :: r) = isMarkup (c :: u ++ '<' :: r') := by
  by_cases hc : c = '<'
  · subst hc
    rcases u with _ | ⟨d, _ | ⟨x, u⟩⟩
    · rfl
    · exact opensMarkup_cons_cons d '<' r r'
    · exact opensMarkup_cons_cons d x _ _
  · simp [isMarkup, hc]

theorem endsElement_lt {key s : List Char} (h : endsElement key s = true) : ∃ x, s = '<' :: x := by
  cases s with
  | nil => cases h
  | cons c s => exact ⟨s, by rw [(List.cons.inj (endsElement_head h)).1]⟩

/-- **A text stops alike** in front of two texts: at the end of both, or at something in both. -/
def Mode.Alike (m : Mode) (r r' : List Char) : Prop :=
  r = [] ∧ r' = [] ∨ m.stops r = true ∧ m.stops r' = true

/-- **A text does not look beyond the first character of what stops it**, or in a CDATA section
beyond the end of it. -/
theorem Mode.Alike.stops_append {m : Mode} (hm : m.IsLettered) {r r' : List Char}
    (h : m.Alike r r') (c : Char) (u : List Char) :
    m.stops (c :: u ++ r) = m.stops (c :: u ++ r') := by
  rcases h with ⟨rfl, rfl⟩ | ⟨h, h'⟩
  · rfl
  cases m with
  | content =>
    cases r with
    | nil => cases h
    | cons d r =>
      cases r' with
      | nil => cases h'
      | cons d' r' =>
        obtain rfl := isMarkup_head h
        obtain rfl := isMarkup_head h'
        exact isMarkup_append c u r r'
  | textOf key =>
    obtain ⟨x, rfl⟩ := endsElement_lt h
    obtain ⟨y, rfl⟩ := endsElement_lt h'
    exact endsElement_append (lt_not_mem (hm key rfl)) c u x y
  | script =>
    obtain ⟨x, rfl⟩ := endsElement_lt h
    obtain ⟨y, rfl⟩ := endsElement_lt h'
    exact endsElement_append (lt_not_mem isAlpha_scriptKey) c u x y
  | plain => rfl
  | cdata =>
    obtain ⟨x, rfl⟩ := List.isPrefixOf_iff_prefix.mp h
    obtain ⟨y, rfl⟩ := List.isPrefixOf_iff_prefix.mp h'
    have hlen : "]]>".toList.length ≤ (c :: u ++ "]]>".toList).length := by
      rw [List.length_append]
      omega
    show endsCdata _ = endsCdata _
    rw [endsCdata, endsCdata, ← List.append_assoc, ← List.append_assoc, isPrefixOf_append hlen,
      isPrefixOf_append hlen]

/-! ## 3. Scripts -/

theorem Escape.after_append (e : Escape) (c : Char) (u r r' : List Char) :
    e.after c (u ++ '<' :: r) = e.after c (u ++ '<' :: r') := by
  have hlt : '<' ∉ scriptKey := lt_not_mem isAlpha_scriptKey
  have hopen : "!--".toList.isPrefixOf (u ++ '<' :: r)
      = "!--".toList.isPrefixOf (u ++ '<' :: r') := by
    rw [isPrefixOf_append_cons (by decide), isPrefixOf_append_cons (by decide)]
  have hname := beginsName_append hlt u r r'
  have hend : endsElement scriptKey ('<' :: (u ++ '<' :: r))
      = endsElement scriptKey ('<' :: (u ++ '<' :: r')) := endsElement_append hlt '<' u r r'
  unfold Escape.after
  split <;> simp only [hopen, hname, hend]

/-- The text of a script goes to its end tag or to the end. -/
theorem breakScript_stops (e : Escape) (s : List Char) :
    (breakScript e s).2 = [] ∨ Mode.script.stops (breakScript e s).2 = true := by
  induction s generalizing e with
  | nil => exact .inl rfl
  | cons c s ih =>
    rw [breakScript]
    split
    · next h =>
      rw [Bool.and_eq_true] at h
      exact .inr h.2
    · exact ih _

/-- The escape does not look beyond the first character of what ends the script. -/
theorem Escape.after_alike {r r' : List Char} (h : Mode.script.Alike r r') (e : Escape) (c : Char)
    (u : List Char) : e.after c (u ++ r) = e.after c (u ++ r') := by
  rcases h with ⟨rfl, rfl⟩ | ⟨h, h'⟩
  · rfl
  · obtain ⟨x, rfl⟩ := endsElement_lt h
    obtain ⟨y, rfl⟩ := endsElement_lt h'
    exact e.after_append c u x y

/-- **The text of a script is cut alike** if it stops alike. -/
theorem breakScript_tail {e : Escape} {s r : List Char}
    (h : Mode.script.Alike (breakScript e s).2 r) :
    breakScript e ((breakScript e s).1 ++ r) = ((breakScript e s).1, r) := by
  have hm : Mode.script.IsLettered := fun key h => by cases h
  induction s generalizing e with
  | nil =>
    rcases h with ⟨-, rfl⟩ | ⟨hnil, -⟩
    · rfl
    · cases hnil
  | cons c s ih =>
    by_cases hc : (e.isOpen && endsElement scriptKey (c :: s)) = true
    · rw [breakScript, if_pos hc] at h ⊢
      rcases h with ⟨hnil, -⟩ | ⟨-, hr⟩
      · cases hnil
      · cases r with
        | nil => cases hr
        | cons d r =>
          rw [Bool.and_eq_true] at hc
          have hd : endsElement scriptKey (d :: r) = true := hr
          rw [List.nil_append, breakScript, hc.1, hd]
          rfl
    · rw [breakScript, if_neg hc] at h ⊢
      have hs := breakScript_append (e.after c s) s
      have htail := ih h
      obtain ⟨text, r₀, hcut⟩ : ∃ text r₀, breakScript (e.after c s) s = (text, r₀) := ⟨_, _, rfl⟩
      rw [hcut] at h hs htail ⊢
      subst hs
      have hends : endsElement scriptKey (c :: (text ++ r₀))
          = endsElement scriptKey (c :: (text ++ r)) := h.stops_append hm c text
      rw [List.cons_append, breakScript, ← hends, if_neg hc, ← e.after_alike h c text, htail]

/-! ## 4. One step -/

theorem raw_of_append_eq {raw front r s : List Char} {c : Char} (h : raw ++ r = c :: s)
    (hs : s = front ++ r) : raw = c :: front := by
  rw [hs, ← List.cons_append] at h
  exact List.append_cancel_right h

/-- The step at the end tag of a text element. -/
theorem endStep_raw {s front : List Char} (hs : s = front ++ (endStep s).rest) :
    (endStep s).token.raw = '<' :: '/' :: front := by
  refine raw_of_append_eq (endStep_append s) ?_
  rw [List.cons_append, ← hs]

/-- **Where the text of an element stops, its end tag closes itself.** -/
theorem endsElement_tail (hkey : ∀ c ∈ key, c.isAlpha = true) {c : Char} {s r : List Char}
    (h : endsElement key (c :: s) = true) (hr : (endStep (s.drop 1)).rest = [] → r = []) :
    ∃ s', (endStep (s.drop 1)).token.raw ++ r = c :: s' ∧ endsElement key (c :: s') = true ∧
      endStep (s'.drop 1) = { endStep (s.drop 1) with rest := r } := by
  have hs := endsElement_head h
  have hname : beginsName key (s.drop 1) = true := by
    rw [hs] at h
    exact h
  obtain ⟨front, hf, htail⟩ := endStep_tail hkey hname
  obtain ⟨hname', hread⟩ := htail r hr
  refine ⟨'/' :: (front ++ r), ?_, ?_, hread⟩
  · rw [endStep_raw hf, (List.cons.inj hs).1]
    rfl
  · rw [(List.cons.inj hs).1]
    exact hname'

/-- **Where a text stops, what begins closes itself.** -/
theorem next_of_stops {b : Bool} {m : Mode} (hm : m.IsLettered) {c : Char} {s : List Char}
    (h : m.stops (c :: s) = true) {r : List Char} (hr : (next b m c s).rest = [] → r = []) :
    ∃ s', (next b m c s).token.raw ++ r = c :: s' ∧ m.stops (c :: s') = true ∧
      next b m c s' = { next b m c s with rest := r } := by
  cases m with
  | content =>
    obtain rfl := isMarkup_head h
    have hnext : ∀ s, isMarkup ('<' :: s) = true → next b .content '<' s = markupStep b s := by
      intro s hs
      rw [next, if_pos hs]
    rw [hnext s h] at hr ⊢
    obtain ⟨front, hs, htail⟩ := markupStep_tail (b := b) (s := s) h
    obtain ⟨hopens, hread⟩ := htail r hr
    refine ⟨front ++ r, ?_, hopens, (hnext _ hopens).trans hread⟩
    rw [raw_of_append_eq (markupStep_append b s) hs]
    rfl
  | textOf key =>
    have hnext : ∀ s, endsElement key (c :: s) = true →
        next b (.textOf key) c s = endStep (s.drop 1) := by
      intro s hs
      rw [next, if_pos hs]
    rw [hnext s h] at hr ⊢
    obtain ⟨s', hraw, hs', hread⟩ := endsElement_tail (hm key rfl) h hr
    exact ⟨s', hraw, hs', (hnext _ hs').trans hread⟩
  | script =>
    have hnext : ∀ s, endsElement scriptKey (c :: s) = true →
        next b .script c s = endStep (s.drop 1) := by
      intro s hs
      rw [next, if_pos hs]
    rw [hnext s h] at hr ⊢
    obtain ⟨s', hraw, hs', hread⟩ := endsElement_tail isAlpha_scriptKey h hr
    exact ⟨s', hraw, hs', (hnext _ hs').trans hread⟩
  | plain => cases h
  | cdata =>
    obtain ⟨x, hx⟩ := List.isPrefixOf_iff_prefix.mp h
    cases hx
    exact ⟨"]>".toList ++ r, rfl, rfl, rfl⟩

/-- How a mode cuts the text that begins with a character, in front of what follows. -/
def Mode.cut : Mode → Char → List Char → List Char × List Char
  | .script, c, s => breakScript (Escape.none.after c s) s
  | .plain, _, s => (s, [])
  | m, _, s => breakAt m.stops s

theorem Mode.cut_append (m : Mode) (c : Char) (s : List Char) :
    (m.cut c s).1 ++ (m.cut c s).2 = s := by
  cases m with
  | script => exact breakScript_append _ s
  | plain => exact List.append_nil s
  | content | textOf key | cdata => exact breakAt_append _ s

/-- A text goes to the end, or to where it stops. -/
theorem Mode.cut_stops (m : Mode) (c : Char) (s : List Char) :
    (m.cut c s).2 = [] ∨ m.stops (m.cut c s).2 = true := by
  cases m with
  | script => exact breakScript_stops _ s
  | plain => exact .inl rfl
  | content | textOf key | cdata => exact breakAt_stops _ s

/-- **A text is cut alike** if it stops alike. -/
theorem Mode.cut_tail {m : Mode} (hm : m.IsLettered) {c : Char} {s r : List Char}
    (h : m.Alike (m.cut c s).2 r) : m.cut c ((m.cut c s).1 ++ r) = ((m.cut c s).1, r) := by
  cases m with
  | script =>
    have hafter := Escape.none.after_alike h c (Mode.script.cut c s).1
    rw [Mode.script.cut_append] at hafter
    show breakScript (Escape.none.after c ((Mode.script.cut c s).1 ++ r)) _ = _
    rw [← hafter]
    exact breakScript_tail h
  | plain =>
    rcases h with ⟨-, rfl⟩ | ⟨hstop, -⟩
    · simp [cut]
    · cases hstop
  | content | textOf key | cdata =>
    exact breakAt_tail (fun d u => h.stops_append hm d u) (h.imp And.right And.right)

/-- **Where a text does not stop, text is read.** -/
theorem next_of_not_stops {m : Mode} {c : Char} {s : List Char} (h : m.stops (c :: s) = false)
    (b : Bool) : next b m c s = ⟨.text (c :: (m.cut c s).1), m, (m.cut c s).2⟩ := by
  have hne := Bool.eq_false_iff.mp h
  cases m with
  | plain => rfl
  | content | textOf key | script | cdata => exact if_neg hne

/-- **It is read alike** if it stops alike. -/
theorem next_text_tail {m : Mode} (hm : m.IsLettered) {c : Char} {s r : List Char}
    (h : m.stops (c :: s) = false) (hr : m.Alike (m.cut c s).2 r) (b : Bool) :
    next b m c ((m.cut c s).1 ++ r) = { next b m c s with rest := r } := by
  have hstops : m.stops (c :: ((m.cut c s).1 ++ r)) = false := by
    have hsame := hr.stops_append hm c (m.cut c s).1
    rw [List.cons_append, List.cons_append, m.cut_append, h] at hsame
    exact hsame.symm
  rw [next_of_not_stops hstops, next_of_not_stops h, Mode.cut_tail hm hr]

end CodeTint.Markup
