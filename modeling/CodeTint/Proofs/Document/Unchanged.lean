/-
# A document in which nothing is colorized

If no block is colorized, all that a run does is to write void tags in the form of the dialect.  A
tag goes by its name there, but whether an element is open goes by its namespace too.  So **what is
written reads like the document**, in the same tree, except in foreign content
(`void_tags_read_alike_iff`):

* **html** takes the slash from a tag that it has closed, and the element takes in what follows;
* **xhtml** gives one to a tag that had none, and the element loses its content.

The walk is followed as long as nothing is dropped (`Untouched`): then each event is written as
itself or, if it is a void tag, as the dialect writes it.
-/
import CodeTint.Proofs.Document.Filling
import CodeTint.Proofs.Markup.Rereading

namespace CodeTint.Document

open CodeTint.Markup

variable {pick : Selector} {d : Dialect} {plan : List (Option Replacement)}

/-! ## 1. A walk that drops nothing -/

/-- **The walk has dropped nothing, and will not**: the plan has no replacement, and all open
elements keep their content and their end tag. -/
structure Untouched (w : Editing Merging Bool) : Prop where
  plan : ∀ r ∈ w.state.plan, r = none
  shows : ∀ o ∈ w.stack, o.note.hides = false
  keeps : ∀ o ∈ w.stack, o.note.keepsEnd = true

/-- A walk starts so if the plan has no replacement. -/
theorem untouched_start (h : ∀ r ∈ plan, r = none) : Untouched ⟨[], ⟨plan, 0⟩⟩ where
  plan := h
  shows := by
    intro o ho
    cases ho
  keeps := by
    intro o ho
    cases ho

theorem Untouched.isShown {w : Editing Merging Bool} (h : Untouched w)
    {stack : List (Open (Mark Bool))} (hs : stack <:+ w.stack) : isShown stack = true := by
  rw [Markup.isShown, List.all_eq_true]
  intro o ho
  rw [h.shows o (hs.subset ho)]
  rfl

/-- A plan without a replacement leaves each element to the dialect. -/
theorem Merging.edit_untouched {m : Merging} (h : ∀ r ∈ m.plan, r = none) (picked : Bool)
    (t : Tag) :
    (m.edit d picked t).1 = tagEdit d t ∧ ∀ r ∈ (m.edit d picked t).2, r = none := by
  rw [edit]
  split
  · split
    · next r plan hp =>
      rw [hp] at h
      cases h _ List.mem_cons_self
    · next plan hp =>
      rw [hp] at h
      exact ⟨rfl, fun r hr => h r (List.mem_cons_of_mem _ hr)⟩
    · exact ⟨rfl, fun r hr => by cases hr⟩
  · exact ⟨rfl, h⟩

/-- **What is written for one event.** -/
theorem Untouched.written {w : Editing Merging Bool} (h : Untouched w) (e : Event) :
    ((merger pick d).step w e).1 = (d.event e).raw := by
  cases e with
  | start t isOpen =>
    show shown w.stack ((w.state.edit d (pick (tagsOf w.stack) t) t).1.opening isOpen) = _
    rw [shown, if_pos (h.isShown (List.suffix_refl _)), (Merging.edit_untouched h.plan _ t).1,
      Dialect.event, Event.raw, Dialect.raw_tag, tagEdit]
    cases d.voidTag? t <;> cases isOpen <;> simp [Edit.opening, Edit.keep, Edit.replace]
  | finish raw key =>
    rw [Editor.step]
    cases he : endElement? key w.stack with
    | none =>
      show shown w.stack raw = raw
      rw [shown, if_pos (h.isShown (List.suffix_refl _))]
    | some x =>
      obtain ⟨ended, left⟩ := x
      have hstack := endElement?_append he
      have hkeeps : ended.all (fun o => o.note.keepsEnd) = true := by
        rw [List.all_eq_true]
        intro o ho
        exact h.keeps o (hstack ▸ List.mem_append_left _ ho)
      show shown left (if ended.all (fun o => o.note.keepsEnd) then raw else []) = raw
      rw [if_pos hkeeps, shown, if_pos (h.isShown ⟨ended, hstack⟩)]
  | text raw | comment raw | doctype raw | blank raw =>
    show shown w.stack raw = raw
    rw [shown, if_pos (h.isShown (List.suffix_refl _))]

/-- **One event leaves it so**, unless it opens an element whose tag the dialect writes. -/
theorem Untouched.step {w : Editing Merging Bool} (h : Untouched w) {e : Event}
    (hvoid : ∀ t, e = .start t true → d.voidTag? t = none) :
    Untouched ((merger pick d).step w e).2 := by
  cases e with
  | start t isOpen =>
    obtain ⟨hedit, hplan⟩ := Merging.edit_untouched (d := d) h.plan (pick (tagsOf w.stack) t) t
    cases isOpen with
    | false => exact ⟨hplan, h.shows, h.keeps⟩
    | true =>
      have hkeep : (w.state.edit d (pick (tagsOf w.stack) t) t).1 = .keep t := by
        rw [hedit, tagEdit, hvoid t rfl]
      refine ⟨hplan, ?_, ?_⟩
      · intro o ho
        rcases List.mem_cons.mp ho with rfl | ho
        · show (w.state.edit d (pick (tagsOf w.stack) t) t).1.content.isSome = false
          rw [hkeep]
          rfl
        · exact h.shows o ho
      · intro o ho
        rcases List.mem_cons.mp ho with rfl | ho
        · show (w.state.edit d (pick (tagsOf w.stack) t) t).1.keepsEnd = true
          rw [hkeep]
          rfl
        · exact h.keeps o ho
  | finish raw key =>
    rw [Editor.step]
    cases he : endElement? key w.stack with
    | none => exact h
    | some x =>
      obtain ⟨ended, left⟩ := x
      have hleft : ∀ o ∈ left, o ∈ w.stack := by
        intro o ho
        exact endElement?_append he ▸ List.mem_append_right _ ho
      refine ⟨?_, fun o ho => h.shows o (hleft o ho), fun o ho => h.keeps o (hleft o ho)⟩
      show ∀ r ∈ (ended.foldl (fun s o => (merger pick d).finish o.note.note s) w.state).plan,
        r = none
      rw [foldl_finish]
      exact h.plan
  | text raw | comment raw | doctype raw | blank raw => exact h

/-- **What is written for a stretch** that opens no element whose tag the dialect writes. -/
theorem Untouched.walk {w : Editing Merging Bool} (h : Untouched w) {es : List Event}
    (hvoid : ∀ t, .start t true ∈ es → d.voidTag? t = none) :
    ((merger pick d).walk w es).1 = es.flatMap (fun e => (d.event e).raw) ∧
      Untouched ((merger pick d).walk w es).2 := by
  induction es generalizing w with
  | nil => exact ⟨rfl, h⟩
  | cons e es ih =>
    have hstep : Untouched ((merger pick d).step w e).2 :=
      h.step fun t ht => hvoid t (ht ▸ List.mem_cons_self)
    obtain ⟨hout, hrest⟩ := ih hstep fun t ht => hvoid t (List.mem_cons_of_mem _ ht)
    refine ⟨?_, hrest⟩
    rw [Editor.walk, List.flatMap_cons, ← hout]
    exact congrArg (· ++ _) (h.written e)

/-! ## 2. When the dialect keeps what is open -/

/-- **What the dialect has to find** in a front part of a document: in html no void tag of foreign
content with a slash, in xhtml no open element of a void name.  In xml there may be both. -/
theorem keeps_iff {doc : List Char} {es front : List Event} (h : events doc = .ok es)
    (hfront : front <+: es) :
    Keeps d .start front ↔
      (d = .html → ∀ p ∈ places front, p.tag.isVoid = true → p.tag.selfClosing = true →
        namespaceBehind (p.before ++ [p.event]) = .html) ∧
      (d = .xhtml → ∀ t, .start t true ∈ front → t.isVoid = false) := by
  have hopens : ∀ before t isOpen, before ++ [.start t isOpen] <+: front →
      t.opens (namespaceBehind (before ++ [.start t isOpen])) = isOpen :=
    fun _ _ _ hf => opens_namespaceBehind h (hf.trans hfront)
  -- by the slash of each void tag in foreign content
  have hslash : Keeps d .start front ↔ ∀ before t isOpen, before ++ [.start t isOpen] <+: front →
      t.isVoid = true → namespaceBehind (before ++ [.start t isOpen]) ≠ .html →
        (d = .html → t.selfClosing = false) ∧ (d = .xhtml → t.selfClosing = true) := by
    refine forall₄_congr fun before t isOpen hf => ?_
    rw [← d.opens_tag_iff, hopens before t isOpen hf]
    rfl
  rw [hslash]
  constructor
  · intro hkeep
    refine ⟨fun hd p hp hv hs => ?_, fun hd t ht => ?_⟩
    · by_contra hns
      have hnone := (hkeep _ _ _ (prefix_of_mem_places hp) hv hns).1 hd
      rw [hs] at hnone
      cases hnone
    · by_contra hv
      rw [Bool.not_eq_false] at hv
      obtain ⟨before, back, rfl⟩ := List.append_of_mem ht
      have hf : before ++ [Event.start t true] <+: before ++ .start t true :: back :=
        ⟨back, by simp⟩
      obtain ⟨hns, hnone⟩ := (Tag.opens_iff_of_isVoid hv).mp (hopens before t true hf)
      have hs := (hkeep before t true hf hv hns).2 hd
      rw [hnone] at hs
      cases hs
  · rintro ⟨hhtml, hxhtml⟩ before t isOpen hf hv hns
    refine ⟨fun hd => ?_, fun hd => ?_⟩
    · by_contra hs
      rw [Bool.not_eq_false] at hs
      have hp := mem_places_of_prefix hf
      exact hns (hhtml hd _ hp hv hs)
    · by_contra hs
      rw [Bool.not_eq_true] at hs
      have hopen := (Tag.opens_iff_of_isVoid hv).mpr ⟨hns, hs⟩
      rw [hopens before t isOpen hf] at hopen
      subst hopen
      have hnone := hxhtml hd t (hf.subset (by simp))
      rw [hv] at hnone
      cases hnone

/-- Then it writes no tag of an element that is open. -/
theorem voidTag?_of_keeps {doc : List Char} {es front : List Event} (h : events doc = .ok es)
    (hfront : front <+: es) (hkeep : Keeps d .start front) :
    ∀ t, .start t true ∈ front → d.voidTag? t = none := by
  intro t ht
  refine (Dialect.voidTag?_eq_none h (hfront.subset ht) d).mpr ?_
  intro hd
  exact ((keeps_iff h hfront).mp hkeep).2 hd t ht

/-- A run in which nothing is colorized has no replacement in its plan. -/
theorem eq_none_of_skippedIn (h : plan.length - skippedIn plan = 0) : ∀ r ∈ plan, r = none := by
  have hle : skippedIn plan ≤ plan.length := List.countP_le_length
  have heq : skippedIn plan = plan.length := by omega
  intro r hr
  exact Option.isNone_iff_eq_none.mp (List.countP_eq_length.mp heq r hr)

/-! ## 3. Reading what is written -/

/-- **What is written reads alike** as long as the dialect keeps what is open. -/
theorem reads_alike {doc html : List Char} {left : List (Option Replacement)} {es : List Event}
    (h : events doc = .ok es) (hplan : ∀ r ∈ plan, r = none)
    (hm : merge pick d plan doc = .ok (html, left)) (hkeep : Keeps d .start es) :
    events html = .ok (es.map d.event) := by
  rw [merge_eq h] at hm
  cases hm
  rw [((untouched_start hplan).walk (voidTag?_of_keeps h (List.prefix_refl es) hkeep)).1]
  exact events_event h hkeep

/-- **It does not if it keeps less**: the first tag that opens otherwise is read so. -/
theorem keeps_of_meaning {doc html : List Char} {left : List (Option Replacement)}
    {es es' : List Event} (h : events doc = .ok es) (hplan : ∀ r ∈ plan, r = none)
    (hm : merge pick d plan doc = .ok (html, left)) (h' : events html = .ok es')
    (hsame : es'.map Event.meaning = es.map Event.meaning) : Keeps d .start es := by
  by_contra hnot
  obtain ⟨front, t, isOpen, hf, hkeep, hne⟩ := exists_of_not_keeps hnot
  have hopens := opens_namespaceBehind h hf
  -- the tag is one that the dialect writes
  cases hv : d.voidTag? t with
  | none =>
    rw [Dialect.tag_of_none hv] at hne
    exact hne hopens
  | some raw =>
    have hfront : front <+: es := (List.prefix_append _ _).trans hf
    obtain ⟨hout, hbehind⟩ :=
      (untouched_start hplan).walk (voidTag?_of_keeps h hfront hkeep)
    have hraw : (d.event (.start t isOpen)).raw = raw := by
      rw [Dialect.event, Event.raw, Dialect.raw_tag, hv]
      rfl
    rw [merge_eq h] at hm
    cases hm
    obtain ⟨back, rfl⟩ := hf
    rw [List.append_assoc, Editor.walk_append, hout, List.singleton_append, Editor.walk] at h'
    dsimp only at h'
    rw [hbehind.written, hraw] at h'
    obtain ⟨back', rfl⟩ := events_of_front h ⟨back, rfl⟩ hkeep hv h'
    rw [List.append_assoc, List.map_append, List.map_append, List.map_map, List.singleton_append,
      List.map_cons, List.map_cons] at hsame
    have htail := List.append_inj_right hsame (by simp)
    rw [List.cons.injEq, Event.meaning, Event.meaning, Event.start.injEq] at htail
    exact hne htail.1.2

variable {σ : Type}

/-- **When void tags can be rewritten.**  Let a document be colorized without a block that is.  What
is written reads like the document, each element with its name and its attributes, open if it was
open, and in the same tree, just if

* in html no void tag of foreign content has a slash, and
* in xhtml no open element has a void name, for such an element is one of foreign content.

In xml it always does. -/
theorem void_tags_read_alike_iff {e : Engine σ} {o : Options} {doc : List Char} {s s' : σ}
    {c : Colorized} (h : (colorize e o doc).outcome s = (.ok c, s')) (h0 : c.colorized = 0) :
    ∃ es, events doc = .ok es ∧
      ((∃ es', events c.html = .ok es' ∧ es'.map Event.meaning = es.map Event.meaning ∧
          meaningIn (treeOf es') = meaningIn (treeOf es)) ↔
        (o.dialect = .html → ∀ p ∈ places es, p.tag.isVoid = true → p.tag.selfClosing = true →
          namespaceBehind (p.before ++ [p.event]) = .html) ∧
        (o.dialect = .xhtml → ∀ t, .start t true ∈ es → t.isVoid = false)) := by
  obtain ⟨blocks, plan, html, left, hc, -, hm, rfl⟩ := colorize_ok h
  obtain ⟨es, he, -⟩ := collect_ok hc
  have hplan := eq_none_of_skippedIn h0
  refine ⟨es, he, ?_⟩
  rw [← keeps_iff he (List.prefix_refl es)]
  constructor
  · rintro ⟨es', he', hsame, -⟩
    exact keeps_of_meaning he hplan hm he' hsame
  · intro hkeep
    have hsame : (es.map o.dialect.event).map Event.meaning = es.map Event.meaning := by
      rw [List.map_map]
      exact List.map_congr_left fun e _ => o.dialect.meaning_event e
    refine ⟨_, reads_alike he hplan hm hkeep, hsame, ?_⟩
    rw [meaningIn_treeOf, meaningIn_treeOf, hsame]

/-- A document with a void tag in capitals, and one with a slash in foreign content. -/
def slashed : List Char := "a<BR Class='x\"y' hidden><svg><link/>b<g></g></svg>".toList

theorem void_tags_read_alike_slashed :
    (colorize verbatim { dialect := .xhtml } slashed).outcome ()
        = (.ok ⟨"a<br class=\"x&quot;y\" hidden=\"\" /><svg><link />b<g></g></svg>".toList, 0, 0⟩,
          ()) ∧
      ∃ es es', events slashed = .ok es ∧
        events "a<br class=\"x&quot;y\" hidden=\"\" /><svg><link />b<g></g></svg>".toList = .ok es' ∧
        es'.map Event.meaning = es.map Event.meaning ∧
        meaningIn (treeOf es') = meaningIn (treeOf es) := by
  have h : (colorize verbatim { dialect := .xhtml } slashed).outcome ()
      = (.ok ⟨"a<br class=\"x&quot;y\" hidden=\"\" /><svg><link />b<g></g></svg>".toList, 0, 0⟩,
        ()) := by decide +kernel
  obtain ⟨es, he, hiff⟩ := void_tags_read_alike_iff h rfl
  have hopen : ((events slashed).toOption.getD []).any Event.opensVoid = false := by
    decide +kernel
  rw [he] at hopen
  have hvoid : ∀ t, .start t true ∈ es → t.isVoid = false := by
    intro t ht
    simpa [Event.opensVoid] using List.any_eq_false.mp hopen _ ht
  have hhtml : Dialect.xhtml ≠ .html := by decide
  obtain ⟨es', he', hsame, htree⟩ := hiff.mpr ⟨fun hd => absurd hd hhtml, fun _ => hvoid⟩
  exact ⟨h, es, es', he, he', hsame, htree⟩

/-- The elements of a document, each by its name with the text in it. -/
def outline (doc : List Char) : Except Ambiguity (List (List Char × List Char)) :=
  (events doc).map fun es =>
    (elementsIn [] (treeOf es)).map fun x => (x.tag.key, textIn x.content)

/-- **Void names in foreign content.**  In html an element that its slash had closed takes in the
text behind it, and in xhtml an element loses the text that it had. -/
theorem slash_moves_text :
    (colorize verbatim {} "<svg><link/>x</svg>".toList).outcome ()
        = (.ok ⟨"<svg><link>x</svg>".toList, 0, 0⟩, ()) ∧
      outline "<svg><link/>x</svg>".toList
        = .ok [("svg".toList, "x".toList), ("link".toList, [])] ∧
      outline "<svg><link>x</svg>".toList
        = .ok [("svg".toList, "x".toList), ("link".toList, "x".toList)] ∧
      (colorize verbatim { dialect := .xhtml } "<svg><link>x</link></svg>".toList).outcome ()
        = (.ok ⟨"<svg><link /></svg>".toList, 0, 0⟩, ()) ∧
      outline "<svg><link>x</link></svg>".toList
        = .ok [("svg".toList, "x".toList), ("link".toList, "x".toList)] ∧
      outline "<svg><link /></svg>".toList = .ok [("svg".toList, []), ("link".toList, [])] := by
  refine ⟨by decide +kernel, by decide +kernel, by decide +kernel, by decide +kernel,
    by decide +kernel, by decide +kernel⟩

end CodeTint.Document
