/-
# A void tag that is written anew says what it said

A dialect writes some void tags anew: names in lower case, every value in double quotes.  This file
reads such a tag again.  **It is the same tag but for its spelling** (`startStep_writtenOut`): its
name, and its attributes in their order, with the same values once `&quot;` is read as the quote
that it stands for (`Dialect.meaning_tag`).

The slash is another matter.  In HTML a void name decides that the element is not open, and the
slash does nothing.  In foreign content it is the slash that decides (`Dialect.opens_tag_iff`).

Whatever a void tag was, what the dialect makes of it ends as the dialect asks
(`Dialect.follows_tag`).
-/
import CodeTint.Proofs.Markup.Meaning
import CodeTint.Proofs.Markup.Reading
import CodeTint.Proofs.Markup.Token.Next

namespace CodeTint.Markup

open CodeTint.Text

/-! ## 1. Tags as they are read -/

/-- The name of an attribute as it is read: it may begin with an equals sign, but has no other. -/
def Attr.IsRead (a : Attr) : Prop :=
  ∃ c name, a.name = c :: name ∧ isNameEnd c = false ∧ ∀ x ∈ name, goesOnName x = true

/-- **A tag as it is read**: it begins with a letter, and nothing in its names ends a name. -/
structure Tag.IsRead (t : Tag) : Prop where
  letter : ∃ x name back, x.isAlpha = true ∧ t.name = x :: name ∧ t.raw = '<' :: x :: back
  name : ∀ c ∈ t.name, isNameEnd c = false
  attrs : ∀ a ∈ t.attrs, a.IsRead

theorem ReadsAttr.name_eq {c : Char} {s r : List Char} {a : Attr} (h : ReadsAttr c s a r) :
    ∃ name, a.name = c :: name ∧ ∀ x ∈ name, goesOnName x = true := by
  cases h with
  | bare hcut _ => exact ⟨_, rfl, hcut.goesOn⟩
  | cut hcut _ => exact ⟨_, rfl, hcut.goesOn⟩
  | value hcut _ _ _ => exact ⟨_, rfl, hcut.goesOn⟩

theorem isRead_of_rest? {s : List Char} {t : TagRest} (h : rest? s = some t) :
    ∀ a ∈ t.attrs, a.IsRead := by
  fun_induction rest? s generalizing t with
  | case1 => cases h
  | case2 s =>
    cases h
    intro a ha
    cases ha
  | case3 s =>
    cases h
    intro a ha
    cases ha
  | case4 c s hgt hslash hc ih => exact ih h
  | case5 => cases h
  | case6 c s hgt hslash hc a r hr ih =>
    obtain ⟨u, hu, rfl⟩ := Option.map_eq_some_iff.mp h
    intro b hb
    rcases List.mem_cons.mp hb with rfl | hb
    · obtain ⟨name, hname, hall⟩ := (readsAttr_of_read? hr).name_eq
      refine ⟨c, name, hname, ?_, hall⟩
      rw [Bool.not_eq_true, Bool.or_eq_false_iff] at hc
      rw [isNameEnd, hc.1, hc.2, beq_false_of_ne hgt]
      rfl
    · exact ih hu b hb

/-- What is not a letter in lower case was none, so lower case moves no end of a name. -/
theorem isNameEnd_toLower (c : Char) : isNameEnd c.toLower = isNameEnd c := by
  rcases toLower_cases c with h | ⟨-, h⟩
  · rw [h]
  · have halpha : c.toLower.isAlpha = true := isAlpha_of_isLower h
    rw [isNameEnd_of_isAlpha halpha, isNameEnd_of_isAlpha]
    rwa [toLower_of_isLower h]

/-- A letter does not end a name. -/
theorem isNameEnd_of_letter {c : Char} (h : c.isAlpha = true) : isNameEnd c = false := by
  rw [← isNameEnd_toLower]
  rcases toLower_cases c with hc | ⟨-, hc⟩
  · exact isNameEnd_of_isAlpha (by rw [hc, hc]; exact h)
  · exact isNameEnd_of_isAlpha (by rw [toLower_of_isLower hc]; exact isAlpha_of_isLower hc)

theorem isRead_of_startStep {x : Char} {s : List Char} {t : Tag} (hx : x.isAlpha = true)
    (h : (startStep (x :: s)).token = .start t) : t.IsRead := by
  unfold startStep at h
  split at h
  · cases h
  · next u hu =>
    cases h
    obtain ⟨front, hs, hhead, -⟩ := tagText_tail hu
    obtain ⟨back, rfl⟩ := List.head?_eq_some_iff.mp hhead
    have hname : (x :: s).takeWhile (!isNameEnd ·) = x :: s.takeWhile (!isNameEnd ·) := by
      rw [List.takeWhile_cons_of_pos]
      rw [isNameEnd_of_letter hx]
      rfl
    have hraw : consumed (x :: s) u.after = x :: back := by rw [hs, consumed_left]
    refine ⟨⟨x, _, back, hx, hname, congrArg _ hraw⟩, fun c hc => ?_, isRead_of_rest? hu⟩
    have := List.all_eq_true.mp List.all_takeWhile c hc
    simpa using this

theorem endStep_ne_start (s : List Char) (t : Tag) : (endStep s).token ≠ .start t := by
  rcases endStep_cases s with ⟨-, raw, h⟩ | ⟨raw, h, -⟩ <;> rw [h] <;> intro h <;> cases h

theorem bangStep_ne_start (b : Bool) (s : List Char) (t : Tag) :
    (bangStep b s).token ≠ .start t := by
  intro h
  unfold bangStep commentStep declarationStep at h
  repeat' split at h
  all_goals cases h

/-- Of all markup **only what begins with a letter** is read as a start tag. -/
theorem letter_of_markupStep {b : Bool} {s : List Char} {t : Tag} (hopens : opensMarkup s = true)
    (h : (markupStep b s).token = .start t) : ∃ x l, s = x :: l ∧ x.isAlpha = true := by
  unfold opensMarkup at hopens
  split at hopens
  · rw [markupStep_bang] at h
    exact absurd h (bangStep_ne_start _ _ _)
  · cases h
  · next c s =>
    by_cases hgt : c = '>'
    · subst hgt
      cases h
    · rw [markupStep.eq_5 b c s hgt] at h
      split at h
      · exact absurd h (endStep_ne_start _ _)
      · cases h
  · next x l _ _ _ => exact ⟨x, l, rfl, hopens⟩
  · cases hopens

/-- **A start tag is read in content only**, at a `<`. -/
theorem start_of_next {b : Bool} {m : Mode} {c : Char} {s : List Char} {t : Tag}
    (h : (next b m c s).token = .start t) : m = .content ∧ c = '<' ∧ t.IsRead := by
  by_cases hstops : m.stops (c :: s) = true
  · cases m with
    | content =>
      obtain rfl := isMarkup_head hstops
      have hnext : next b .content '<' s = markupStep b s := if_pos hstops
      rw [hnext] at h
      obtain ⟨x, l, rfl, hx⟩ := letter_of_markupStep hstops h
      rw [markupStep_letter hx] at h
      exact ⟨rfl, rfl, isRead_of_startStep hx h⟩
    | textOf key =>
      have hnext : next b (.textOf key) c s = endStep (s.drop 1) := if_pos hstops
      rw [hnext] at h
      exact absurd h (endStep_ne_start _ _)
    | script =>
      have hnext : next b .script c s = endStep (s.drop 1) := if_pos hstops
      rw [hnext] at h
      exact absurd h (endStep_ne_start _ _)
    | plain => cases hstops
    | cdata =>
      have hnext : next b .cdata c s = ⟨.blank ((c :: s).take 3), .content, (c :: s).drop 3⟩ :=
        if_pos hstops
      rw [hnext] at h
      cases h
  · rw [next_of_not_stops (Bool.eq_false_iff.mpr hstops)] at h
    cases h

/-! ## 2. Tags that are written out -/

theorem goesOnName_toLower (c : Char) : goesOnName c.toLower = goesOnName c := by
  rcases toLower_cases c with h | ⟨halpha, h⟩
  · rw [h]
  · rw [goesOnName, goesOnName, isNameEnd_toLower]
    have hc : c ≠ '=' := by
      rintro rfl
      exact absurd halpha (by decide)
    have hl : c.toLower ≠ '=' := by
      intro heq
      rw [heq] at h
      exact absurd h (by decide)
    rw [beq_false_of_ne hc, beq_false_of_ne hl]

/-- The attribute as it is read once it is written out. -/
def Attr.writtenOut (a : Attr) : Attr := ⟨a.key, ['=', '"'], quoteValue a.value, ['"']⟩

@[simp] theorem Attr.key_writtenOut (a : Attr) : a.writtenOut.key = a.key :=
  Text.lower_lower a.name

/-- What a tag that is written out has between its name and its closing. -/
def attrsText (as : List Attr) : List Char :=
  as.flatMap fun a => ' ' :: attrText a.key a.value

/-- Attributes that are written out have the text that they are written out with. -/
@[simp] theorem attrsText_writtenOut (as : List Attr) :
    attrsText (as.map Attr.writtenOut) = attrsText as := by
  have hattr : ∀ a : Attr, attrText a.writtenOut.key a.writtenOut.value = attrText a.key a.value := by
    intro a
    rw [Attr.key_writtenOut, Attr.writtenOut, attrText, attrText, quoteValue_quoteValue]
  rw [attrsText, attrsText, List.flatMap_map]
  simp only [hattr]

theorem Tag.writtenOut_eq (t : Tag) (closing : List Char) :
    t.writtenOut closing = '<' :: (t.key ++ attrsText t.attrs) ++ closing := rfl

theorem upToQuote?_quoteValue (v r : List Char) :
    upToQuote? '"' (quoteValue v ++ '"' :: r) = some (quoteValue v, r) := by
  obtain ⟨h₁, h₂⟩ := span_append (p := (· != '"')) (l := quoteValue v) (t := '"' :: r) (by
    intro c hc
    have hne : c ≠ '"' := fun h => quote_not_mem_quoteValue v (h ▸ hc)
    simpa using hne) (by rintro c ⟨⟩; rfl)
  rw [upToQuote?, h₁, h₂]

/-- **An attribute that is written out is read again.** -/
theorem read?_writtenOut {c : Char} {name : List Char} (hname : ∀ x ∈ name, goesOnName x = true)
    (v r : List Char) :
    Attr.read? c (name ++ '=' :: '"' :: quoteValue v ++ '"' :: r)
      = some (⟨c :: name, ['=', '"'], quoteValue v, ['"']⟩, r) := by
  have hcut : NameCut name [] ('=' :: ([] ++ '"' :: (quoteValue v ++ '"' :: r))) :=
    ⟨hname, by simp, by rintro x ⟨⟩; rfl, by rintro x ⟨⟩; rfl⟩
  have hstop : ∀ x, ('"' :: (quoteValue v ++ '"' :: r)).head? = some x →
      isSpace x = false ∧ x ≠ '>' := by
    rintro x ⟨⟩
    exact ⟨rfl, by decide⟩
  have hvalue : valueBehind? ('"' :: (quoteValue v ++ '"' :: r))
      = some (['"'], quoteValue v, r) := by
    rw [valueBehind?, upToQuote?_quoteValue]
    rfl
  have hread := (ReadsAttr.value (c := c) hcut (by simp) hstop hvalue).read?
  simpa using hread

theorem rest?_blank {c : Char} (hc : isSpace c = true) (s : List Char) :
    rest? (c :: s) = rest? s := by
  have hgt : c = '>' → False := by
    rintro rfl
    cases hc
  have hslash : ∀ s', c = '/' → s = '>' :: s' → False := by
    rintro s' rfl
    cases hc
  rw [rest?.eq_4 _ _ hgt hslash, if_pos (by rw [hc]; rfl)]

theorem rest?_attr {c : Char} {s r : List Char} {a : Attr} (hc : isNameEnd c = false)
    (h : Attr.read? c s = some (a, r)) :
    rest? (c :: s) = (rest? r).map fun t => { t with attrs := a :: t.attrs } := by
  rw [isNameEnd, Bool.or_eq_false_iff] at hc
  have hgt : c = '>' → False := by
    rintro rfl
    cases hc.2
  have hslash : ∀ s', c = '/' → s = '>' :: s' → False := by
    rintro s' rfl
    cases hc.1
  rw [rest?.eq_4 _ _ hgt hslash, if_neg (by rw [hc.1]; exact Bool.false_ne_true)]
  split
  · next hnone =>
    rw [h] at hnone
    cases hnone
  · next b r' hsome =>
    rw [h] at hsome
    cases hsome
    rfl

/-- **Attributes that are written out are read again**, each by itself. -/
theorem rest?_writtenOut {as : List Attr} (h : ∀ a ∈ as, a.IsRead) {t r : List Char} {slash : Bool}
    (ht : rest? t = some ⟨[], slash, r⟩) :
    rest? (attrsText as ++ t) = some ⟨as.map Attr.writtenOut, slash, r⟩ := by
  induction as with
  | nil => exact ht
  | cons a as ih =>
    obtain ⟨c, name, hname, hc, hall⟩ := h a (List.mem_cons_self ..)
    have hkey : a.key = c.toLower :: lower name := by
      rw [Attr.key, hname]
      rfl
    have hall' : ∀ x ∈ lower name, goesOnName x = true := by
      intro x hx
      obtain ⟨y, hy, rfl⟩ := List.mem_map.mp hx
      rw [goesOnName_toLower]
      exact hall y hy
    have hc' : isNameEnd c.toLower = false := by rw [isNameEnd_toLower, hc]
    have htext : attrsText (a :: as) ++ t = ' ' :: c.toLower ::
        (lower name ++ '=' :: '"' :: quoteValue a.value ++ '"' :: (attrsText as ++ t)) := by
      rw [attrsText, List.flatMap_cons, attrText, hkey]
      simp [attrsText]
    have hself : a.writtenOut
        = ⟨c.toLower :: lower name, ['=', '"'], quoteValue a.value, ['"']⟩ := by
      rw [Attr.writtenOut, hkey]
    rw [htext, rest?_blank rfl, rest?_attr hc' (read?_writtenOut hall' _ _),
      ih fun b hb => h b (List.mem_cons_of_mem _ hb), List.map_cons, hself]
    rfl

/-- **A tag that is written out is read again**, with the slash that its closing has. -/
theorem startStep_writtenOut {t : Tag} (ht : t.IsRead) {closing r : List Char} {slash : Bool}
    (hclose : rest? (closing ++ r) = some ⟨[], slash, r⟩)
    (hend : ∀ c, (closing ++ r).head? = some c → isNameEnd c = true) :
    startStep (t.key ++ attrsText t.attrs ++ closing ++ r)
      = ⟨.start ⟨t.writtenOut closing, t.key, t.attrs.map Attr.writtenOut, slash⟩, .content, r⟩ := by
  have hkey : ∀ c ∈ t.key, (!isNameEnd c) = true := by
    intro c hc
    obtain ⟨x, hx, rfl⟩ := List.mem_map.mp hc
    rw [isNameEnd_toLower, ht.name x hx]
    rfl
  have hhead : ∀ c, (attrsText t.attrs ++ (closing ++ r)).head? = some c →
      (!isNameEnd c) = false := by
    intro c hc
    cases has : t.attrs with
    | nil =>
      rw [has] at hc
      rw [hend c hc]
      rfl
    | cons a as =>
      rw [has] at hc
      cases hc
      rfl
  obtain ⟨h₁, h₂⟩ := span_append hkey hhead
  have hrest := rest?_writtenOut ht.attrs hclose
  have hraw : t.writtenOut closing = '<' :: (t.key ++ attrsText t.attrs ++ closing) := by
    simp [Tag.writtenOut, attrsText]
  rw [hraw]
  conv => lhs; rw [List.append_assoc, List.append_assoc]
  rw [startStep, h₂, hrest]
  simp only [h₁]
  rw [← List.append_assoc, ← List.append_assoc, consumed_left]

/-! ## 3. Void tags in a dialect -/

/-- **The tag as it is read once the dialect has written it.** -/
def Dialect.tag (d : Dialect) (t : Tag) : Tag :=
  match d.voidTag? t with
  | some raw => ⟨raw, t.key, t.attrs.map Attr.writtenOut, d != .html⟩
  | none => t

/-- An event as it is read once the dialect has written it. -/
def Dialect.event (d : Dialect) : Event → Event
  | .start t isOpen => .start (d.tag t) isOpen
  | e => e

theorem Dialect.tag_of_none {d : Dialect} {t : Tag} (h : d.voidTag? t = none) : d.tag t = t := by
  rw [tag, h]

theorem Dialect.tag_of_some {d : Dialect} {t : Tag} {raw : List Char}
    (h : d.voidTag? t = some raw) :
    d.tag t = ⟨raw, t.key, t.attrs.map Attr.writtenOut, d != .html⟩ := by
  rw [tag, h]

theorem Dialect.raw_tag (d : Dialect) (t : Tag) : (d.tag t).raw = (d.voidTag? t).getD t.raw := by
  rw [tag]
  cases d.voidTag? t <;> rfl

@[simp] theorem Dialect.key_tag (d : Dialect) (t : Tag) : (d.tag t).key = t.key := by
  rw [tag]
  cases d.voidTag? t with
  | none => rfl
  | some raw => exact lower_lower t.name

theorem Dialect.voidTag?_eq_some {d : Dialect} {t : Tag} {raw : List Char}
    (h : d.voidTag? t = some raw) :
    t.isVoid = true ∧ ∃ closing, d.closing? t.selfClosing = some closing ∧
      raw = t.writtenOut closing := by
  rw [voidTag?] at h
  split at h
  · next hv =>
    obtain ⟨closing, hc, rfl⟩ := Option.map_eq_some_iff.mp h
    exact ⟨hv, closing, hc, rfl⟩
  · cases h

/-- A dialect closes a tag, with its slash. -/
theorem Dialect.closing?_spec {d : Dialect} {slash : Bool} {closing : List Char}
    (h : d.closing? slash = some closing) (r : List Char) :
    rest? (closing ++ r) = some ⟨[], d != .html, r⟩ ∧
      ∀ c, (closing ++ r).head? = some c → isNameEnd c = true := by
  have hgt : rest? ('>' :: r) = some ⟨[], false, r⟩ := by rw [rest?]
  have hslash : rest? ('/' :: '>' :: r) = some ⟨[], true, r⟩ := by rw [rest?]
  cases d with
  | html =>
    cases slash with
    | false => cases h
    | true =>
      cases h
      exact ⟨hgt, by rintro c ⟨⟩; rfl⟩
  | xhtml =>
    cases h
    exact ⟨(rest?_blank rfl _).trans hslash, by rintro c ⟨⟩; rfl⟩
  | xml =>
    cases slash with
    | false => cases h
    | true =>
      cases h
      exact ⟨hslash, by rintro c ⟨⟩; rfl⟩

theorem Tag.key_of_isVoid {t : Tag} (h : t.isVoid = true) : ∃ n ∈ voidNames, t.key = n.toList := by
  rw [isVoid, isOneOf, List.any_eq_true] at h
  obtain ⟨n, hn, he⟩ := h
  exact ⟨n, hn, (beq_iff_eq.mp he).symm⟩

/-- A void name begins with a letter. -/
theorem letter_of_voidName :
    ∀ n ∈ voidNames, (n.toList.head?.all Char.isAlpha) = true ∧ n.toList ≠ [] := by
  decide

/-- **A void tag that the dialect writes is read again.** -/
theorem next_tag {d : Dialect} {t : Tag} {raw : List Char} (ht : t.IsRead)
    (h : d.voidTag? t = some raw) (b : Bool) (r : List Char) :
    ∃ s, raw ++ r = '<' :: s ∧ Mode.content.stops ('<' :: s) = true ∧
      next b .content '<' s = ⟨.start (d.tag t), .content, r⟩ := by
  obtain ⟨hv, closing, hc, rfl⟩ := Dialect.voidTag?_eq_some h
  obtain ⟨hrest, hend⟩ := Dialect.closing?_spec hc r
  obtain ⟨n, hn, hkey⟩ := Tag.key_of_isVoid hv
  obtain ⟨x, l, hx, halpha⟩ : ∃ x l, t.key = x :: l ∧ x.isAlpha = true := by
    obtain ⟨hall, hne⟩ := letter_of_voidName n hn
    rw [← hkey] at hall hne
    cases hk : t.key with
    | nil => exact absurd hk hne
    | cons x l =>
      rw [hk] at hall
      exact ⟨x, l, rfl, hall⟩
  have hread := startStep_writtenOut ht hrest hend
  refine ⟨t.key ++ attrsText t.attrs ++ closing ++ r, ?_, ?_, ?_⟩
  · simp [Tag.writtenOut, attrsText]
  · rw [hx]
    exact opensMarkup_letter halpha _
  · have hstops : isMarkup ('<' :: (t.key ++ attrsText t.attrs ++ closing ++ r)) = true := by
      rw [hx]
      exact opensMarkup_letter halpha _
    rw [next, if_pos hstops, Dialect.tag_of_some h, ← hread, hx]
    exact markupStep_letter halpha b _

/-! ## 4. What follows from the name -/

/-- In foreign content a void name either drops out of it or changes nothing. -/
theorem Context.onForeignStart_of_isVoid {t : Tag} (h : t.isVoid = true) (ctx : Context) :
    ctx.onForeignStart t = if isOneOf htmlOnly t.key then ctx.leave else ctx := by
  have hnames : ∀ n ∈ voidNames, (∀ ns : Namespace, ns.holdsHtml n.toList = false) ∧
      n.toList ≠ "font".toList ∧ n.toList ≠ annotationKey := by
    intro n hn
    refine ⟨fun ns => ?_, ?_, ?_⟩
    · cases ns <;> revert n <;> decide
    · revert n
      decide
    · revert n
      decide
  obtain ⟨n, hn, hkey⟩ := Tag.key_of_isVoid h
  obtain ⟨hholds, hfont, hencoded⟩ := hnames n hn
  rw [onForeignStart, hkey, hholds, if_neg hfont]
  simp [hencoded]

/-- **The context goes by a void tag's name alone.** -/
theorem Context.onStart_tag {t : Tag} (h : t.isVoid = true) (ctx : Context) (d : Dialect) :
    ctx.onStart (d.tag t) = ctx.onStart t := by
  have hv : (d.tag t).isVoid = true := by rwa [Tag.isVoid, d.key_tag]
  rw [onStart, onStart, d.key_tag]
  simp only [onForeignStart_of_isVoid h, onForeignStart_of_isVoid hv, d.key_tag]

/-- **Whether a void tag opens an element is kept**, except in foreign content by a dialect that
takes a slash away or adds one. -/
theorem Dialect.opens_tag_iff (d : Dialect) (t : Tag) (ns : Namespace) :
    (d.tag t).opens ns = t.opens ns ↔ (t.isVoid = true → ns ≠ .html →
      (d = .html → t.selfClosing = false) ∧ (d = .xhtml → t.selfClosing = true)) := by
  cases hv : t.isVoid with
  | false =>
    have hnone : d.voidTag? t = none := by
      rw [voidTag?, hv]
      rfl
    simp [tag_of_none hnone]
  | true =>
    cases ns with
    | html => simp [Tag.opens]
    | svg | mathml =>
      rw [tag, voidTag?, hv]
      cases d <;> cases hs : t.selfClosing <;> simp [closing?, Tag.opens, hs]

/-- **A void tag that the dialect writes says what it said.** -/
theorem Dialect.meaning_tag (d : Dialect) (t : Tag) : (d.tag t).meaning = t.meaning := by
  rw [tag]
  cases d.voidTag? t with
  | none => rfl
  | some raw =>
    have hattr : ∀ a : Attr, a.writtenOut.meaning = a.meaning := by
      intro a
      rw [Attr.meaning, Attr.meaning, Attr.key_writtenOut, Attr.writtenOut, readQuotes_quoteValue]
    simp [Tag.meaning, Tag.key, hattr]

theorem Dialect.meaning_event (d : Dialect) (e : Event) : (d.event e).meaning = e.meaning := by
  cases e with
  | start t isOpen => simp [event, Event.meaning, meaning_tag]
  | _ => rfl

/-! ## 5. How a void tag ends -/

/-- **What a dialect asks of a void tag** as it is read: in html it has no slash; in xhtml it ends
with a blank and the slash; in xml, if it has the slash, there is no blank in front of it. -/
def Dialect.Follows (d : Dialect) (t : Tag) : Prop :=
  match d with
  | .html => t.selfClosing = false
  | .xhtml => " />".toList <:+ t.raw
  | .xml => t.selfClosing = true →
      "/>".toList <:+ t.raw ∧ ∀ c ∈ t.raw.dropLast.dropLast.getLast?, isSpace c = false

instance (d : Dialect) (t : Tag) : Decidable (d.Follows t) :=
  match d with
  | .html => inferInstanceAs (Decidable (t.selfClosing = false))
  | .xhtml => inferInstanceAs (Decidable (" />".toList <:+ t.raw))
  | .xml => inferInstanceAs (Decidable (t.selfClosing = true →
      "/>".toList <:+ t.raw ∧ ∀ c ∈ t.raw.dropLast.dropLast.getLast?, isSpace c = false))

/-- **The convention of a dialect**: every void tag that is read is as the dialect asks. -/
def Dialect.Conventional (d : Dialect) (es : List Event) : Prop :=
  ∀ t ∈ es.flatMap Event.begun, t.isVoid = true → d.Follows t

instance (d : Dialect) (es : List Event) : Decidable (d.Conventional es) :=
  inferInstanceAs (Decidable (∀ t ∈ es.flatMap Event.begun, t.isVoid = true → d.Follows t))

theorem Dialect.conventional_nil (d : Dialect) : d.Conventional [] := by
  intro t ht
  cases ht

theorem Dialect.conventional_append (d : Dialect) (es es' : List Event) :
    d.Conventional (es ++ es') ↔ d.Conventional es ∧ d.Conventional es' := by
  rw [Conventional, List.flatMap_append, List.forall_mem_append]
  rfl

/-- What a void tag that is written out has in front of its closing does not end with a blank. -/
theorem isSpace_getLast?_of_isVoid {t : Tag} (h : t.isVoid = true) :
    ∀ c ∈ ('<' :: (t.key ++ attrsText t.attrs)).getLast?, isSpace c = false := by
  intro c hc
  rcases List.eq_nil_or_concat t.attrs with has | ⟨as, a, has⟩
  · -- it ends with the name
    have hnames : ∀ n ∈ voidNames, n.toList.all (fun c => !isSpace c) = true := by decide
    obtain ⟨n, hn, hkey⟩ := Tag.key_of_isVoid h
    rw [has, hkey] at hc
    rcases List.mem_cons.mp (List.mem_of_getLast? hc) with rfl | hmem
    · rfl
    · rw [attrsText, List.flatMap_nil, List.append_nil] at hmem
      have hall := List.all_eq_true.mp (hnames n hn) c hmem
      simpa using hall
  · -- it ends with the quote of the last value
    have hquote : '<' :: (t.key ++ attrsText t.attrs)
        = ('<' :: (t.key ++ attrsText as) ++ ' ' :: a.key ++ '=' :: '"' :: quoteValue a.value)
          ++ ['"'] := by
      simp [has, attrsText, attrText]
    rw [hquote, List.getLast?_concat] at hc
    cases hc
    rfl

/-- **A void tag in the dialect's form is as the dialect asks.** -/
theorem Dialect.follows_tag (d : Dialect) {t : Tag} (h : t.isVoid = true) :
    d.Follows (d.tag t) := by
  cases hv : d.voidTag? t with
  | none =>
    rw [tag_of_none hv]
    rw [voidTag?, if_pos h, Option.map_eq_none_iff] at hv
    cases d with
    | html =>
      cases hs : t.selfClosing with
      | false => exact hs
      | true =>
        rw [hs] at hv
        cases hv
    | xhtml => cases hv
    | xml =>
      intro hs
      rw [hs] at hv
      cases hv
  | some raw =>
    rw [tag_of_some hv]
    obtain ⟨-, closing, hc, rfl⟩ := voidTag?_eq_some hv
    have hraw := t.writtenOut_eq closing
    cases d with
    | html => rfl
    | xhtml =>
      cases hc
      exact hraw ▸ List.suffix_append _ _
    | xml =>
      intro _
      have hclosing : closing = "/>".toList := by
        cases hs : t.selfClosing with
        | false =>
          rw [hs] at hc
          cases hc
        | true =>
          rw [hs] at hc
          cases hc
          rfl
      rw [hclosing] at hraw
      have hfront : (t.writtenOut "/>".toList).dropLast.dropLast
          = '<' :: (t.key ++ attrsText t.attrs) := by
        have hsplit : "/>".toList = ['/'] ++ ['>'] := rfl
        rw [hraw, hsplit, ← List.append_assoc, List.dropLast_concat, List.dropLast_concat]
      rw [hclosing, hfront]
      exact ⟨hraw ▸ List.suffix_append _ _, isSpace_getLast?_of_isVoid h⟩

end CodeTint.Markup
