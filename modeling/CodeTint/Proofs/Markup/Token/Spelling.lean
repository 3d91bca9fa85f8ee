/-
# How a tag may be spelled

Between the name of a tag and its `>` stand attributes, in front of each of them at least one blank.
An attribute is a name, or a name and a value with an equals sign between, around which blanks may
stand.  A value in quotes holds all but its own quote; one without holds no blank and no `>`.

`SpellsAttrs` is this grammar, and **what it spells is read** (`SpellsAttrs.rest?_eq`), whatever
follows the tag.
-/
import CodeTint.Proofs.Markup.VoidTags
import CodeTint.Proofs.Text.Cut

namespace CodeTint.Markup

open CodeTint.Text

/-! ## 1. The grammar -/

/-- A stretch of blanks. -/
def IsBlanks (b : List Char) : Prop := ∀ c ∈ b, isSpace c = true

theorem isBlanks_nil : IsBlanks [] := fun _ hc => nomatch hc

/-- **A value in its quotes**, or without any. -/
inductive QuotesValue : List Char → List Char → Prop where
  | double {v : List Char} : '"' ∉ v → QuotesValue ['"'] v
  | single {v : List Char} : '\'' ∉ v → QuotesValue ['\''] v
  | none {c : Char} {v : List Char} : c ≠ '"' → c ≠ '\'' →
      (∀ x ∈ c :: v, goesOnValue x = true) → QuotesValue [] (c :: v)

/-- **A text spells attributes**, behind the name of a tag and up to its `>`. -/
inductive SpellsAttrs : List Char → List Attr → Prop where
  | blanks {b : List Char} : IsBlanks b → SpellsAttrs b []
  | bare {x : Char} {b name s : List Char} {as : List Attr} : IsBlanks (x :: b) → name ≠ [] →
      (∀ c ∈ name, goesOnName c = true) → SpellsAttrs s as →
      SpellsAttrs (x :: b ++ (name ++ s)) (.bare name :: as)
  | value {x : Char} {b name lead gap q v s : List Char} {as : List Attr} : IsBlanks (x :: b) →
      name ≠ [] → (∀ c ∈ name, goesOnName c = true) → IsBlanks lead → IsBlanks gap →
      QuotesValue q v → SpellsAttrs s as →
      SpellsAttrs (x :: b ++ (name ++ (lead ++ '=' :: (gap ++ (q ++ v ++ q ++ s)))))
        (⟨name, lead ++ '=' :: gap ++ q, v, q⟩ :: as)

/-- One attribute, with its value in double quotes. -/
theorem spellsAttrs_single {name value : List Char} (hne : name ≠ [])
    (hname : ∀ c ∈ name, goesOnName c = true) (hvalue : '"' ∉ value) :
    SpellsAttrs (' ' :: (name ++ ('=' :: '"' :: value ++ ['"'])))
      [⟨name, ['=', '"'], value, ['"']⟩] := by
  have hspace : IsBlanks [' '] := by simp [IsBlanks, isSpace]
  have hspelled := SpellsAttrs.value hspace hne hname isBlanks_nil isBlanks_nil (.double hvalue)
    (.blanks isBlanks_nil)
  simpa using hspelled

/-- What may be spelled behind a name does not go on with it. -/
theorem SpellsAttrs.head {s : List Char} {as : List Attr} (h : SpellsAttrs s as) {r : List Char}
    {c : Char} (hc : (s ++ '>' :: r).head? = some c) : isSpace c = true ∨ c = '>' := by
  cases h with
  | blanks hb =>
    cases s with
    | nil =>
      cases hc
      exact .inr rfl
    | cons x b =>
      cases hc
      exact .inl (hb _ (List.mem_cons_self ..))
  | bare hb _ _ _ =>
    cases hc
    exact .inl (hb _ (List.mem_cons_self ..))
  | value hb _ _ _ _ _ _ =>
    cases hc
    exact .inl (hb _ (List.mem_cons_self ..))

theorem isNameEnd_of_head {c : Char} (h : isSpace c = true ∨ c = '>') : isNameEnd c = true := by
  rcases h with h | rfl
  · rw [isNameEnd, h]
    rfl
  · rfl

theorem goesOnValue_of_head {c : Char} (h : isSpace c = true ∨ c = '>') :
    goesOnValue c = false := by
  rcases h with h | rfl
  · rw [goesOnValue, h]
    rfl
  · rfl

theorem isNameEnd_of_goesOnName {c : Char} (h : goesOnName c = true) : isNameEnd c = false := by
  rw [goesOnName, Bool.not_eq_true', Bool.or_eq_false_iff] at h
  exact h.1

theorem goesOnName_of_isSpace {c : Char} (h : isSpace c = true) : goesOnName c = false := by
  rw [goesOnName, isNameEnd, h]
  rfl

/-- Behind the blanks no equals sign stands: it would belong to the name in front. -/
theorem SpellsAttrs.ne_equals {s : List Char} {as : List Attr} (h : SpellsAttrs s as)
    (r u : List Char) : (s ++ '>' :: r).dropWhile isSpace ≠ '=' :: u := by
  intro hu
  have hname : ∀ {b name t : List Char}, IsBlanks b → name ≠ [] →
      (∀ c ∈ name, goesOnName c = true) → (b ++ (name ++ t)).dropWhile isSpace = '=' :: u →
      False := by
    intro b name t hb hne hall heq
    rw [List.dropWhile_append_of_pos hb] at heq
    cases name with
    | nil => exact hne rfl
    | cons c name =>
      have hc := hall c (List.mem_cons_self ..)
      have hspace : isSpace c = false := by
        rw [Bool.eq_false_iff]
        intro hs
        rw [goesOnName_of_isSpace hs] at hc
        cases hc
      rw [List.cons_append, List.dropWhile_cons_of_neg (by rw [hspace]; exact Bool.false_ne_true),
        List.cons.injEq] at heq
      rw [heq.1] at hc
      cases hc
  cases h with
  | blanks hb =>
    rw [List.dropWhile_append_of_pos hb] at hu
    cases hu
  | bare hb hne hall _ =>
    rw [List.append_assoc, List.append_assoc] at hu
    exact hname hb hne hall hu
  | value hb hne hall _ _ _ _ =>
    rw [List.append_assoc, List.append_assoc] at hu
    exact hname hb hne hall hu

/-! ## 2. Reading -/

theorem rest?_blanks {b : List Char} (hb : IsBlanks b) (s : List Char) :
    rest? (b ++ s) = rest? s := by
  induction b with
  | nil => rfl
  | cons c b ih =>
    rw [List.cons_append, rest?_blank (hb c (List.mem_cons_self ..)),
      ih fun x hx => hb x (List.mem_cons_of_mem _ hx)]

theorem rest?_dropWhile (s : List Char) : rest? (s.dropWhile isSpace) = rest? s := by
  conv => rhs; rw [← List.takeWhile_append_dropWhile (p := isSpace) (l := s)]
  exact (rest?_blanks (fun c hc => List.all_eq_true.mp List.all_takeWhile c hc) _).symm

/-- A value in its quotes begins with neither a blank nor the end of the tag. -/
theorem QuotesValue.head {q v t : List Char} (h : QuotesValue q v) {c : Char}
    (hc : (q ++ v ++ q ++ t).head? = some c) : isSpace c = false ∧ c ≠ '>' := by
  cases h with
  | double =>
    cases hc
    exact ⟨rfl, by decide⟩
  | single =>
    cases hc
    exact ⟨rfl, by decide⟩
  | none _ _ hall =>
    cases hc
    have hgo := hall _ (List.mem_cons_self ..)
    rw [goesOnValue, Bool.not_eq_true', Bool.or_eq_false_iff, beq_eq_false_iff_ne] at hgo
    exact hgo

/-- **A value in its quotes is read.** -/
theorem QuotesValue.valueBehind? {q v : List Char} (h : QuotesValue q v) {t : List Char}
    (ht : ∀ c, t.head? = some c → goesOnValue c = false) :
    valueBehind? (q ++ v ++ q ++ t) = some (q, v, t) := by
  have hquote : ∀ {x : Char} {v : List Char}, x ∉ v → upToQuote? x (v ++ x :: t) = some (v, t) := by
    intro x v hx
    obtain ⟨h₁, h₂⟩ := cut_append hx t
    rw [upToQuote?, h₁, h₂]
  cases h with
  | double hv => simp [Markup.valueBehind?, hquote hv]
  | single hv => simp [Markup.valueBehind?, hquote hv]
  | none hdouble hsingle hall =>
    obtain ⟨h₁, h₂⟩ := span_append hall ht
    rw [List.nil_append, List.append_nil, Markup.valueBehind?.eq_3 _
      (by rintro s ⟨⟩; exact hdouble rfl) (by rintro s ⟨⟩; exact hsingle rfl), h₁, h₂]

/-- **What the grammar spells is read.** -/
theorem SpellsAttrs.rest?_eq {s : List Char} {as : List Attr} (h : SpellsAttrs s as)
    (r : List Char) : rest? (s ++ '>' :: r) = some ⟨as, false, r⟩ := by
  induction h with
  | blanks hb => rw [rest?_blanks hb, rest?]
  | @bare x b name s as hb hne hall hs ih =>
    cases name with
    | nil => exact absurd rfl hne
    | cons c name =>
      have hcut : NameCut name ((s ++ '>' :: r).takeWhile isSpace)
          ((s ++ '>' :: r).dropWhile isSpace) := by
        refine ⟨fun y hy => hall y (List.mem_cons_of_mem _ hy),
          List.all_eq_true.mp List.all_takeWhile, ?_, fun y hy => head?_dropWhile hy⟩
        intro y hy
        rw [List.takeWhile_append_dropWhile] at hy
        rw [goesOnName, isNameEnd_of_head (hs.head hy)]
        rfl
      have hread := (ReadsAttr.bare (c := c) hcut (hs.ne_equals r)).read?
      rw [List.takeWhile_append_dropWhile] at hread
      have hc := isNameEnd_of_goesOnName (hall c (List.mem_cons_self ..))
      rw [List.append_assoc, List.append_assoc, rest?_blanks hb, List.cons_append,
        rest?_attr hc hread, rest?_dropWhile, ih]
      rfl
  | @value x b name lead gap q v s as hb hne hall hlead hgap hv hs ih =>
    cases name with
    | nil => exact absurd rfl hne
    | cons c name =>
      have hend : ∀ y, (s ++ '>' :: r).head? = some y → goesOnValue y = false :=
        fun y hy => goesOnValue_of_head (hs.head hy)
      have hvalue := hv.valueBehind? hend
      have hcut : NameCut name lead ('=' :: (gap ++ (q ++ v ++ q ++ (s ++ '>' :: r)))) := by
        refine ⟨fun y hy => hall y (List.mem_cons_of_mem _ hy), hlead, ?_, by rintro y ⟨⟩; rfl⟩
        intro y hy
        cases lead with
        | nil =>
          cases hy
          rfl
        | cons z lead =>
          cases hy
          exact goesOnName_of_isSpace (hlead _ (List.mem_cons_self ..))
      have hread := (ReadsAttr.value (c := c) hcut hgap (fun _ hy => hv.head hy) hvalue).read?
      have hc := isNameEnd_of_goesOnName (hall c (List.mem_cons_self ..))
      have htext : x :: b ++ (c :: name ++ (lead ++ '=' :: (gap ++ (q ++ v ++ q ++ s)))) ++ '>' :: r
          = x :: b ++ c :: (name ++ (lead ++ '=' :: (gap ++ (q ++ v ++ q ++ (s ++ '>' :: r))))) := by
        simp
      rw [htext, rest?_blanks hb, rest?_attr hc hread, ih]
      rfl

/-! ## 3. Tags -/

/-- The text of a start tag. -/
def openTag (name attrs : List Char) : List Char := '<' :: (name ++ attrs ++ ['>'])

/-- The text of an end tag. -/
def closeTag (name attrs : List Char) : List Char := '<' :: '/' :: (name ++ attrs ++ ['>'])

/-- The name is cut where it ends. -/
theorem SpellsAttrs.span {s : List Char} {as : List Attr} (h : SpellsAttrs s as)
    {name : List Char} (hname : ∀ c ∈ name, isNameEnd c = false) (r : List Char) :
    (name ++ (s ++ '>' :: r)).takeWhile (!isNameEnd ·) = name ∧
      (name ++ (s ++ '>' :: r)).dropWhile (!isNameEnd ·) = s ++ '>' :: r := by
  refine span_append (fun c hc => by rw [hname c hc]; rfl) fun c hc => ?_
  rw [isNameEnd_of_head (h.head hc)]
  rfl

/-- **A start tag is read** as it is spelled. -/
theorem SpellsAttrs.startStep {s : List Char} {as : List Attr} (h : SpellsAttrs s as)
    {name : List Char} (hname : ∀ c ∈ name, isNameEnd c = false) (r : List Char) :
    startStep (name ++ s ++ '>' :: r)
      = ⟨.start ⟨openTag name s, name, as, false⟩, .content, r⟩ := by
  obtain ⟨h₁, h₂⟩ := h.span hname r
  have hraw : name ++ (s ++ '>' :: r) = name ++ s ++ ['>'] ++ r := by simp
  rw [List.append_assoc, Markup.startStep, h₂, h.rest?_eq]
  simp only [h₁]
  rw [hraw, consumed_left, openTag]

/-- **An end tag is read** as it is spelled. -/
theorem SpellsAttrs.endStep {s : List Char} {as : List Attr} (h : SpellsAttrs s as)
    {name : List Char} (hname : ∀ c ∈ name, isNameEnd c = false) (r : List Char) :
    endStep (name ++ s ++ '>' :: r) = ⟨.finish (closeTag name s) name, .content, r⟩ := by
  obtain ⟨h₁, h₂⟩ := h.span hname r
  have hraw : name ++ (s ++ '>' :: r) = name ++ s ++ ['>'] ++ r := by simp
  rw [List.append_assoc, Markup.endStep, h₂, h.rest?_eq]
  simp only [h₁]
  rw [hraw, consumed_left, closeTag]

end CodeTint.Markup
