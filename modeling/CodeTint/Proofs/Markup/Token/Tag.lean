/-
# A tag ends at its own closing

Names and values are cut from a text at the first character that does not belong to them.  So what
is read depends on that character, and not on what follows it (`span_tail`).

An attribute can be read in three ways, by how its name goes on (`ReadsAttr`).  In each of them only
the first character behind it matters (`Attr.read?_tail`).  As a tag ends with its `>`, nothing that
follows matters to the tag (`rest?_tail`).
-/
import CodeTint.Markup.Token.Tag

namespace CodeTint.Markup

open CodeTint.Text

/-! ## 1. Stretches and prefixes -/

/-- The longest front part with a property, if it is followed by a character without it. -/
theorem span_append {p : Char → Bool} {l t : List Char} (hl : ∀ c ∈ l, p c = true)
    (ht : ∀ c, t.head? = some c → p c = false) :
    (l ++ t).takeWhile p = l ∧ (l ++ t).dropWhile p = t := by
  rw [List.takeWhile_append_of_pos hl, List.dropWhile_append_of_pos hl]
  cases t with
  | nil => simp
  | cons c t => simp [ht c rfl]

theorem head?_dropWhile {p : Char → Bool} {s : List Char} {c : Char}
    (h : (s.dropWhile p).head? = some c) : p c = false := by
  have hc := List.head?_dropWhile_not p s
  rw [h] at hc
  simpa using hc

/-- The longest front part stays, and so does what follows, if what follows is changed behind its
first character. -/
theorem span_tail {p : Char → Bool} {s t : List Char}
    (ht : t.head? = (s.dropWhile p).head?) :
    (s.takeWhile p ++ t).takeWhile p = s.takeWhile p ∧ (s.takeWhile p ++ t).dropWhile p = t := by
  refine span_append (List.all_eq_true.mp List.all_takeWhile) ?_
  intro c hc
  exact head?_dropWhile (ht ▸ hc)

theorem head?_append_cons (l : List Char) (c : Char) (r r' : List Char) :
    (l ++ c :: r).head? = (l ++ c :: r').head? := by
  cases l <;> rfl

/-- A prefix no longer than what is left as it was. -/
theorem isPrefixOf_append {p l : List Char} (h : p.length ≤ l.length) (r : List Char) :
    p.isPrefixOf (l ++ r) = p.isPrefixOf l := by
  rw [Bool.eq_iff_iff, List.isPrefixOf_iff_prefix, List.isPrefixOf_iff_prefix]
  constructor
  · intro hp
    exact List.prefix_of_prefix_length_le hp (List.prefix_append _ _) h
  · intro hp
    exact hp.trans (List.prefix_append _ _)

/-- A prefix does not reach beyond a character that it does not have. -/
theorem isPrefixOf_append_cons {p : List Char} {c : Char} (hc : c ∉ p) (l r : List Char) :
    p.isPrefixOf (l ++ c :: r) = p.isPrefixOf l := by
  rcases Nat.le_total p.length l.length with h | h
  · exact isPrefixOf_append h _
  · rw [Bool.eq_iff_iff, List.isPrefixOf_iff_prefix, List.isPrefixOf_iff_prefix]
    constructor
    · intro hp
      have hl : l <+: p := List.prefix_of_prefix_length_le (List.prefix_append _ _) hp h
      obtain ⟨q, rfl⟩ := hl
      rw [List.prefix_append_right_inj] at hp
      cases q with
      | nil => simp
      | cons d q =>
        obtain ⟨z, hz⟩ := hp
        cases hz
        simp at hc
    · intro hp
      exact hp.trans (List.prefix_append _ _)

/-! ## 2. Tags -/

theorem upToQuote?_tail {q : Char} {s v r : List Char} (h : upToQuote? q s = some (v, r)) :
    s = v ++ q :: r ∧ ∀ r', upToQuote? q (v ++ q :: r') = some (v, r') := by
  unfold upToQuote? at h
  split at h
  · next x r₀ hd =>
    cases h
    have hx : x = q := by
      have := head?_dropWhile (p := (· != q)) (s := s) (c := x) (by rw [hd]; rfl)
      simpa using this
    subst hx
    refine ⟨?_, fun r' => ?_⟩
    · rw [← hd, List.takeWhile_append_dropWhile]
    · obtain ⟨h₁, h₂⟩ := span_tail (p := (· != x)) (s := s) (t := x :: r') (by rw [hd]; rfl)
      rw [upToQuote?, h₁, h₂]
  · cases h

theorem valueBehind?_tail {s q v r : List Char} {x : Char}
    (h : valueBehind? s = some (q, v, x :: r)) :
    ∃ front, s = front ++ x :: r ∧
      ∀ r', valueBehind? (front ++ x :: r') = some (q, v, x :: r') := by
  unfold valueBehind? at h
  split at h
  · next s =>
    obtain ⟨⟨v', r''⟩, hv, he⟩ := Option.map_eq_some_iff.mp h
    cases he
    obtain ⟨rfl, htail⟩ := upToQuote?_tail hv
    refine ⟨'"' :: v ++ ['"'], by simp, fun r' => ?_⟩
    simp [valueBehind?, htail]
  · next s =>
    obtain ⟨⟨v', r''⟩, hv, he⟩ := Option.map_eq_some_iff.mp h
    cases he
    obtain ⟨rfl, htail⟩ := upToQuote?_tail hv
    refine ⟨'\'' :: v ++ ['\''], by simp, fun r' => ?_⟩
    simp [valueBehind?, htail]
  · next h₁ h₂ =>
    rw [Option.some.injEq, Prod.mk.injEq, Prod.mk.injEq] at h
    obtain ⟨rfl, rfl, hr⟩ := h
    have hs : s = s.takeWhile goesOnValue ++ x :: r := by
      rw [← hr, List.takeWhile_append_dropWhile]
    refine ⟨s.takeWhile goesOnValue, hs, fun r' => ?_⟩
    obtain ⟨htake, hdrop⟩ :=
      span_tail (p := goesOnValue) (s := s) (t := x :: r') (by rw [hr]; rfl)
    have hhead := head?_append_cons (s.takeWhile goesOnValue) x r r'
    rw [← hs] at hhead
    rw [valueBehind?, htake, hdrop]
    · intro s' hs'
      rw [hs'] at hhead
      exact h₁ _ (List.head?_eq_some_iff.mp hhead).choose_spec
    · intro s' hs'
      rw [hs'] at hhead
      exact h₂ _ (List.head?_eq_some_iff.mp hhead).choose_spec

/-- **A name with the blanks behind it**, cut where reading cuts them. -/
structure NameCut (name lead t : List Char) : Prop where
  goesOn : ∀ c ∈ name, goesOnName c = true
  blank : ∀ c ∈ lead, isSpace c = true
  behind : ∀ c, (lead ++ t).head? = some c → goesOnName c = false
  stops : ∀ c, t.head? = some c → isSpace c = false

/-- Only the first character of what follows matters. -/
theorem NameCut.congr {name lead t t' : List Char} (h : NameCut name lead t)
    (ht : t.head? = t'.head?) : NameCut name lead t' where
  goesOn := h.goesOn
  blank := h.blank
  behind := by
    intro c hc
    refine h.behind c ?_
    rwa [List.head?_append, ht, ← List.head?_append]
  stops := by
    intro c hc
    exact h.stops c (ht.trans hc)

/-- **How an attribute is read**, in each of the ways that its name can go on. -/
inductive ReadsAttr (c : Char) : List Char → Attr → List Char → Prop where
  /-- No equals sign follows. -/
  | bare {name lead t : List Char} : NameCut name lead t → (∀ s, t ≠ '=' :: s) →
      ReadsAttr c (name ++ (lead ++ t)) (.bare (c :: name)) t
  /-- The tag ends behind the equals sign. -/
  | cut {name lead gap r : List Char} : NameCut name lead ('=' :: (gap ++ '>' :: r)) →
      (∀ x ∈ gap, isSpace x = true) →
      ReadsAttr c (name ++ (lead ++ '=' :: (gap ++ '>' :: r))) (.bare (c :: name)) ('>' :: r)
  /-- A value follows. -/
  | value {name lead gap t q v r : List Char} : NameCut name lead ('=' :: (gap ++ t)) →
      (∀ x ∈ gap, isSpace x = true) →
      (∀ x, t.head? = some x → isSpace x = false ∧ x ≠ '>') →
      valueBehind? t = some (q, v, r) →
      ReadsAttr c (name ++ (lead ++ '=' :: (gap ++ t)))
        ⟨c :: name, lead ++ '=' :: gap ++ q, v, q⟩ r

theorem readsAttr_of_read? {c : Char} {s r : List Char} {a : Attr}
    (h : Attr.read? c s = some (a, r)) : ReadsAttr c s a r := by
  have hcut : NameCut (s.takeWhile goesOnName) ((s.dropWhile goesOnName).takeWhile isSpace)
      ((s.dropWhile goesOnName).dropWhile isSpace) := by
    refine ⟨List.all_eq_true.mp List.all_takeWhile, List.all_eq_true.mp List.all_takeWhile, ?_,
      fun x hx => head?_dropWhile hx⟩
    intro x hx
    rw [List.takeWhile_append_dropWhile] at hx
    exact head?_dropWhile hx
  have hs : s.takeWhile goesOnName ++ ((s.dropWhile goesOnName).takeWhile isSpace ++
      (s.dropWhile goesOnName).dropWhile isSpace) = s := by
    rw [List.takeWhile_append_dropWhile, List.takeWhile_append_dropWhile]
  rw [Attr.read?] at h
  generalize s.takeWhile goesOnName = name at *
  generalize (s.dropWhile goesOnName).takeWhile isSpace = lead at *
  generalize (s.dropWhile goesOnName).dropWhile isSpace = t at *
  subst hs
  split at h
  · next s =>
    have hgap : ∀ x ∈ s.takeWhile isSpace, isSpace x = true :=
      List.all_eq_true.mp List.all_takeWhile
    have hs : s = s.takeWhile isSpace ++ s.dropWhile isSpace :=
      List.takeWhile_append_dropWhile.symm
    have hstop : ∀ x, (s.dropWhile isSpace).head? = some x → isSpace x = false :=
      fun x hx => head?_dropWhile hx
    generalize s.takeWhile isSpace = gap at *
    generalize s.dropWhile isSpace = u at *
    subst hs
    split at h
    · cases h
      exact .cut hcut hgap
    · next hgt =>
      obtain ⟨⟨q, v, r'⟩, hv, he⟩ := Option.map_eq_some_iff.mp h
      cases he
      refine .value hcut hgap ?_ hv
      intro x hx
      refine ⟨hstop x hx, ?_⟩
      rintro rfl
      obtain ⟨r', rfl⟩ := List.head?_eq_some_iff.mp hx
      exact hgt r' rfl
  · next hne =>
    cases h
    exact .bare hcut hne

theorem ReadsAttr.read? {c : Char} {s r : List Char} {a : Attr} (h : ReadsAttr c s a r) :
    Attr.read? c s = some (a, r) := by
  cases h with
  | bare hcut hne =>
    obtain ⟨h₁, h₂⟩ := span_append hcut.goesOn hcut.behind
    obtain ⟨-, h₄⟩ := span_append hcut.blank hcut.stops
    rw [Attr.read?]
    simp only [h₁, h₂, h₄]
  | @cut name lead gap r hcut hgap =>
    obtain ⟨h₁, h₂⟩ := span_append hcut.goesOn hcut.behind
    obtain ⟨-, h₄⟩ := span_append hcut.blank hcut.stops
    obtain ⟨-, h₆⟩ := span_append (t := '>' :: r) hgap (by rintro x ⟨⟩; rfl)
    rw [Attr.read?]
    simp only [h₁, h₂, h₄, h₆]
  | value hcut hgap hstop hv =>
    obtain ⟨h₁, h₂⟩ := span_append hcut.goesOn hcut.behind
    obtain ⟨h₃, h₄⟩ := span_append hcut.blank hcut.stops
    obtain ⟨h₅, h₆⟩ := span_append hgap fun x hx => (hstop x hx).1
    rw [Attr.read?]
    simp only [h₁, h₂, h₃, h₄, h₅, h₆]
    split
    · exact absurd rfl (hstop '>' rfl).2
    · rw [hv]
      rfl

/-- **An attribute is read alike** if what follows it begins alike. -/
theorem Attr.read?_tail {c x : Char} {s r : List Char} {a : Attr}
    (h : Attr.read? c s = some (a, x :: r)) :
    ∃ front, s = front ++ x :: r ∧
      ∀ r', Attr.read? c (front ++ x :: r') = some (a, x :: r') := by
  generalize ht : x :: r = t at h
  cases readsAttr_of_read? h with
  | @bare name lead t hcut hne =>
    subst ht
    refine ⟨name ++ lead, by simp, fun r' => ?_⟩
    have hne' : ∀ s, x :: r' ≠ '=' :: s := by
      rintro s ⟨⟩
      exact hne r rfl
    have hcut' : NameCut name lead (x :: r') := hcut.congr rfl
    have hread := (ReadsAttr.bare (c := c) hcut' hne').read?
    simpa using hread
  | @cut name lead gap r hcut hgap =>
    cases ht
    refine ⟨name ++ (lead ++ '=' :: gap), by simp, fun r' => ?_⟩
    have hread := (ReadsAttr.cut (c := c) (r := r') (hcut.congr rfl) hgap).read?
    simpa using hread
  | @value name lead gap t q v r hcut hgap hstop hv =>
    subst ht
    obtain ⟨front, rfl, htail⟩ := valueBehind?_tail hv
    refine ⟨name ++ (lead ++ '=' :: (gap ++ front)), by simp, fun r' => ?_⟩
    have hstop' : ∀ y, (front ++ x :: r').head? = some y → isSpace y = false ∧ y ≠ '>' := by
      intro y hy
      exact hstop y ((head?_append_cons _ _ _ _).trans hy)
    have hcut' : NameCut name lead ('=' :: (gap ++ (front ++ x :: r'))) := hcut.congr rfl
    have hread := (ReadsAttr.value (c := c) hcut' hgap hstop' (htail r')).read?
    simpa using hread

/-- **A tag ends at its own `>`**, whatever follows. -/
theorem rest?_tail {s : List Char} {t : TagRest} (h : rest? s = some t) :
    ∃ c front, s = c :: front ++ t.after ∧
      ∀ r, rest? (c :: front ++ r) = some { t with after := r } := by
  fun_induction rest? s generalizing t with
  | case1 => cases h
  | case2 s =>
    cases h
    exact ⟨'>', [], rfl, fun r => by simp [rest?]⟩
  | case3 s =>
    cases h
    exact ⟨'/', ['>'], rfl, fun r => by simp [rest?]⟩
  | case4 c s hgt hslash hc ih =>
    obtain ⟨d, front, rfl, htail⟩ := ih h
    refine ⟨c, d :: front, rfl, fun r => ?_⟩
    have hslash' : ∀ s', c = '/' → d :: front ++ r = '>' :: s' → False := by
      rintro s' hc' hs'
      cases hs'
      exact hslash _ hc' rfl
    rw [List.cons_append, rest?.eq_4 _ _ hgt hslash', if_pos hc, htail]
  | case5 => cases h
  | case6 c s hgt hslash hc a r₀ hr ih =>
    obtain ⟨u, hu, rfl⟩ := Option.map_eq_some_iff.mp h
    obtain ⟨d, front, rfl, htail⟩ := ih hu
    obtain ⟨name, rfl, hname⟩ := Attr.read?_tail hr
    refine ⟨c, name ++ d :: front, by simp, fun r => ?_⟩
    have hslash' : ∀ s', c = '/' → name ++ d :: (front ++ r) = '>' :: s' → False := by
      intro s' hc'
      subst hc'
      exact absurd rfl hc
    rw [List.cons_append, List.append_assoc, List.cons_append, rest?.eq_4 _ _ hgt hslash',
      if_neg hc]
    split
    · next hnone =>
      rw [hname] at hnone
      cases hnone
    · next b r' hsome =>
      rw [hname] at hsome
      cases hsome
      rw [← List.cons_append, htail]
      rfl

theorem consumed_left (l r : List Char) : consumed (l ++ r) r = l := by
  rw [consumed, List.length_append, Nat.add_sub_cancel, List.take_left]

/-- What a tag is made of, in a text that goes on otherwise. -/
theorem tagText_tail {s : List Char} {t : TagRest}
    (h : rest? (s.dropWhile (!isNameEnd ·)) = some t) :
    ∃ front, s = front ++ t.after ∧ front.head? = s.head? ∧ ∀ r,
      rest? ((front ++ r).dropWhile (!isNameEnd ·)) = some { t with after := r } ∧
      (front ++ r).takeWhile (!isNameEnd ·) = s.takeWhile (!isNameEnd ·) := by
  obtain ⟨c, front, hs, htail⟩ := rest?_tail h
  have hsplit : s = s.takeWhile (!isNameEnd ·) ++ c :: front ++ t.after := by
    rw [List.append_assoc, ← hs, List.takeWhile_append_dropWhile]
  refine ⟨s.takeWhile (!isNameEnd ·) ++ c :: front, hsplit, ?_, fun r => ?_⟩
  · conv => rhs; rw [hsplit]
    cases s.takeWhile (!isNameEnd ·) <;> rfl
  · obtain ⟨h₁, h₂⟩ :=
      span_tail (p := (!isNameEnd ·)) (s := s) (t := c :: front ++ r) (by rw [hs]; rfl)
    rw [List.append_assoc, h₁, h₂]
    exact ⟨htail r, rfl⟩

end CodeTint.Markup
