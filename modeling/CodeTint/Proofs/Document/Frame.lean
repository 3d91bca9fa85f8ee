/-
# What a run leaves as it was

The document and what is written for it are compared event by event (`Framed`).  Only these pieces
differ from the document.

* **A block that is colorized**: its start tag gets the new class value, if there is one, and the
  fragment behind it; for nothing inside is anything written.
* **A void tag** anywhere else has the form of the dialect.

In xhtml this holds as long as no element of a void name is open anywhere, for such an element would
take its content and its end tag with it.  Then **only a colorized block hides anything**
(`hidden_of_colorized`): if an element drops its content, it began where a block is colorized, and
all that was read since is inside of it.
-/
import CodeTint.Proofs.Document.Filling
import CodeTint.Proofs.Document.Plan

namespace CodeTint.Document

open CodeTint.Markup

variable {pick : Selector} {d : Dialect} {plan : List (Option Replacement)} {es : List Event}

/-! ## 1. Where something changes -/

/-- **A block is colorized at a place**: the plan has a replacement for the block that begins
there. -/
def ColorizedAt (pick : Selector) (plan : List (Option Replacement)) (es : List Event) (p : Place)
    (r : Replacement) : Prop :=
  p ∈ places es ∧ ∃ i, blockNo? pick p = some i ∧ plan[i]? = some (some r)

/-- Event `k` is inside of a block that is colorized. -/
def InsideColorized (pick : Selector) (plan : List (Option Replacement)) (es : List Event)
    (k : Nat) : Prop :=
  ∃ p r, ColorizedAt pick plan es p r ∧ p.before.length < k ∧
    k ≤ p.before.length + (p.inside es).length

/-- **What is written differs from the document in nothing else** than the blocks that are colorized
and the void tags outside of their content. -/
structure Framed (pick : Selector) (d : Dialect) (plan : List (Option Replacement))
    (es : List Event) (out : List (List Char)) : Prop where
  /-- There is one piece for each event. -/
  length : out.length = es.length
  /-- A block has its start tag with the new class value, and the fragment if it has a place. -/
  block : ∀ p r, ColorizedAt pick plan es p r →
    out[p.before.length]? = some (r.tagOf p.tag ++ if p.isOpen then r.fragment else [])
  /-- Nothing is written for what is inside. -/
  content : ∀ k, InsideColorized pick plan es k → out[k]? = some []
  /-- Any other start tag is as it was, or as the dialect writes a void tag. -/
  tag : ∀ p ∈ places es, (∀ r, ¬ ColorizedAt pick plan es p r) →
    ¬ InsideColorized pick plan es p.before.length →
    out[p.before.length]? = some ((d.voidTag? p.tag).getD p.tag.raw)
  /-- All else is as it was. -/
  rest : ∀ k e, es[k]? = some e → e.begun = [] → ¬ InsideColorized pick plan es k →
    out[k]? = some e.raw

/-- The second walk takes the replacement where the block is colorized. -/
theorem colorizedAt_iff (d : Dialect) (hlen : plan.length = (collecting pick es).blocks.length)
    {p : Place} {r : Replacement} :
    ColorizedAt pick plan es p r ↔ p ∈ places es ∧ entryAt? pick d plan p = some (some r) := by
  refine and_congr_right fun hp => ?_
  rw [entryAt?_eq hp hlen, Option.bind_eq_some_iff]

theorem ColorizedAt.isBlock {p : Place} {r : Replacement} (h : ColorizedAt pick plan es p r) :
    p.isBlock pick = true := by
  obtain ⟨-, i, hi, -⟩ := h
  rw [blockNo?_eq] at hi
  split at hi
  · next hb => exact hb
  · cases hi

/-! ## 2. What is hidden -/

/-- What is inside of an element goes on as long as the element is open. -/
theorem Place.inside_concat {p : Place} {mid : List Event} {e : Event} (ho : p.isOpen = true)
    (hf : p.before ++ p.event :: mid ++ [e] <+: es) (hmid : mid <+: p.inside es)
    (hl : (openTags p.before).length < (openTags (p.before ++ p.event :: mid ++ [e])).length) :
    mid ++ [e] <+: p.inside es := by
  have hafter : mid ++ [e] <+: p.after es := by
    obtain ⟨rest, rfl⟩ := hf
    rw [Place.after, List.append_assoc, List.append_assoc, List.cons_append,
      List.append_cons p.before, ← List.length_singleton (a := p.event), ← List.length_append,
      List.drop_left, ← List.append_assoc]
    exact List.prefix_append _ _
  have hopen : openTags (p.before ++ p.event :: mid)
      = mid.foldl tagsBehind (p.tag :: openTags p.before) := by
    rw [openTags, List.foldl_append, List.foldl_cons, Place.event, ho]
    rfl
  rw [openTags_concat, hopen] at hl
  rw [Place.inside, if_pos ho] at hmid ⊢
  exact whileOpen_concat_prefix hmid hafter hl

/-- **Only a colorized block hides anything.**  If an element drops its content, it began at a place
where a block is colorized, and all events since then are inside. -/
theorem hidden_of_colorized (hvoid : ∀ t, .start t true ∈ es → d.voidTag? t = none)
    (hlen : plan.length = (collecting pick es).blocks.length) {front : List Event}
    (hf : front <+: es) {o : Open (Mark Bool)} {base : List (Open (Mark Bool))}
    (hs : o :: base <:+ (merging pick d plan front).stack) (ho : o.note.hides = true) :
    ∃ p r mid, ColorizedAt pick plan es p r ∧ p.isOpen = true ∧ front = p.before ++ p.event :: mid ∧
      mid <+: p.inside es ∧ (openTags p.before).length = base.length := by
  induction front using List.reverseRecOn with
  | nil => exact absurd (List.suffix_nil.mp hs) (List.cons_ne_nil _ _)
  | append_singleton front e ih =>
    -- the element was there already, and the event is inside, or it begins with the event
    have hcases : o :: base <:+ (merging pick d plan front).stack ∨
        ∃ t, e = .start t true ∧ base = (merging pick d plan front).stack ∧
          (editAt pick d plan ⟨front, t, true⟩).content.isSome = true := by
      have hlast := hs
      rw [merging_concat] at hlast
      rcases (merger pick d).stack_step (merging pick d plan front) e with h | ⟨t, he, h⟩
      · exact .inl (hlast.trans h)
      · rw [h] at hlast
        rcases List.suffix_cons_iff.mp hlast with heq | hin
        · cases heq
          exact .inr ⟨t, he, rfl, ho⟩
        · exact .inl hin
    rcases hcases with hin | ⟨t, rfl, rfl, hfill⟩
    · obtain ⟨p, r, mid, hp, hopen, rfl, hmid, hbase⟩ :=
        ih ((List.prefix_append _ _).trans hf) hin
      refine ⟨p, r, mid ++ [e], hp, hopen, by simp, p.inside_concat hopen hf hmid ?_, hbase⟩
      rw [hbase, ← tagsOf_merging pick d plan, tagsOf, List.length_map]
      exact hs.length_le
    · have hmem := mem_places_of_prefix hf
      have hnone : d.voidTag? t = none := hvoid t (hf.subset (by simp))
      obtain ⟨r, hr⟩ : ∃ r, entryAt? pick d plan ⟨front, t, true⟩ = some (some r) := by
        rw [editAt_eq] at hfill
        split at hfill
        · next r hr => exact ⟨r, hr⟩
        · rw [(tagEdit_marks d t).2, hnone] at hfill
          cases hfill
      refine ⟨⟨front, t, true⟩, r, [], (colorizedAt_iff d hlen).mpr ⟨hmem, hr⟩, rfl, rfl,
        List.nil_prefix, ?_⟩
      rw [← tagsOf_merging pick d plan, tagsOf, List.length_map]

/-- Outside of the content of colorized blocks **all that is open behind an event and was open in
front of it is shown**. -/
theorem isShown_outside (hvoid : ∀ t, .start t true ∈ es → d.voidTag? t = none)
    (hlen : plan.length = (collecting pick es).blocks.length) {front : List Event} {e : Event}
    (hf : front ++ [e] <+: es) (hout : ¬ InsideColorized pick plan es front.length)
    {stack : List (Open (Mark Bool))} (h₁ : stack <:+ (merging pick d plan front).stack)
    (h₂ : stack <:+ (merging pick d plan (front ++ [e])).stack) : isShown stack = true := by
  rw [isShown, List.all_eq_true]
  intro o hmem
  rw [Bool.not_eq_true']
  by_contra hhides
  rw [Bool.not_eq_false] at hhides
  obtain ⟨inner, base, rfl⟩ := List.append_of_mem hmem
  have hbase : o :: base <:+ inner ++ o :: base := List.suffix_append _ _
  obtain ⟨p, r, mid, hp, -, hfront, hmid, hlenb⟩ :=
    hidden_of_colorized hvoid hlen hf (hbase.trans h₂) hhides
  have hle : mid.length ≤ (p.inside es).length := hmid.length_le
  have hcount : front.length + 1 = p.before.length + (mid.length + 1) := by
    have h := congrArg List.length hfront
    simpa using h
  -- the block did not begin with this very event: its element was open in front of it
  have hpos : 0 < mid.length := by
    rcases Nat.eq_zero_or_pos mid.length with hz | hpos
    · rw [List.length_eq_zero_iff.mp hz] at hfront
      rw [← (List.append_inj_left' hfront rfl), ← tagsOf_merging pick d plan, tagsOf,
        List.length_map] at hlenb
      have := (hbase.trans h₁).length_le
      rw [List.length_cons] at this
      omega
    · exact hpos
  exact hout ⟨p, r, hp, by omega, by omega⟩

/-! ## 3. What is written -/

/-- What is written for an event. -/
theorem written_getElem? {front : List Event} {e : Event} (hf : front ++ [e] <+: es) :
    (written pick d plan es)[front.length]?
      = some ((merger pick d).step (merging pick d plan front) e).1 := by
  obtain ⟨rest, rfl⟩ := hf
  rw [List.append_assoc, List.singleton_append]
  exact (merger pick d).pieces_getElem? _ _ _ _

/-- A block that is colorized. -/
theorem written_block (hvoid : ∀ t, .start t true ∈ es → d.voidTag? t = none)
    (hpick : ∀ around t, pick around t = true → t.isVoid = false)
    (hlen : plan.length = (collecting pick es).blocks.length) {p : Place} {r : Replacement}
    (h : ColorizedAt pick plan es p r) :
    (written pick d plan es)[p.before.length]?
      = some (r.tagOf p.tag ++ if p.isOpen then r.fragment else []) := by
  obtain ⟨hp, hr⟩ := (colorizedAt_iff d hlen).mp h
  have hprefix := prefix_of_mem_places hp
  have hedit : editAt pick d plan p = r.edit p.tag := by rw [editAt_eq, hr]
  have hshown : isShown (merging pick d plan p.before).stack = true := by
    refine (isShown_block d plan hpick h.isBlock).mpr fun t ht => hvoid t ?_
    exact ((List.prefix_append _ _).trans hprefix).subset (mem_openTags ht)
  rw [written_getElem? hprefix]
  show some (shown _ ((editAt pick d plan p).opening p.isOpen)) = _
  rw [shown, if_pos hshown, hedit, Replacement.edit, Edit.fill, Edit.opening, Replacement.tagOf]
  cases p.isOpen
  · simp
  · rfl

/-- What is inside of it. -/
theorem written_content (hlen : plan.length = (collecting pick es).blocks.length) {k : Nat}
    (h : InsideColorized pick plan es k) : (written pick d plan es)[k]? = some [] := by
  obtain ⟨p, r, hp, hlt, hle⟩ := h
  obtain ⟨hmem, hr⟩ := (colorizedAt_iff d hlen).mp hp
  have hopen : p.isOpen = true := by
    by_contra ho
    rw [Place.inside, if_neg ho, List.length_nil] at hle
    omega
  have hfront : (written pick d plan p.before).length = p.before.length :=
    (merger pick d).length_pieces _ _
  obtain ⟨j, rfl⟩ : ∃ j, k = p.before.length + (j + 1) := ⟨k - p.before.length - 1, by omega⟩
  have hj : j < (p.inside es).length := by omega
  rw [written_split hmem, (pieces_inside hr hopen es).1, List.getElem?_append_right (by omega),
    hfront, Nat.add_sub_cancel_left, List.getElem?_cons_succ,
    List.getElem?_append_left (by simpa using hj), List.getElem?_map,
    List.getElem?_eq_getElem hj]
  rfl

/-- Any other start tag. -/
theorem written_tag (hvoid : ∀ t, .start t true ∈ es → d.voidTag? t = none)
    (hlen : plan.length = (collecting pick es).blocks.length) {p : Place} (hp : p ∈ places es)
    (hnone : ∀ r, ¬ ColorizedAt pick plan es p r)
    (hout : ¬ InsideColorized pick plan es p.before.length) :
    (written pick d plan es)[p.before.length]? = some ((d.voidTag? p.tag).getD p.tag.raw) := by
  have hprefix := prefix_of_mem_places hp
  have hbehind : (merging pick d plan p.before).stack
      <:+ (merging pick d plan (p.before ++ [p.event])).stack := by
    rw [merging_concat, Place.event]
    cases p.isOpen
    · exact List.suffix_refl _
    · exact List.suffix_cons _ _
  have hshown := isShown_outside hvoid hlen hprefix hout (List.suffix_refl _) hbehind
  have hedit : editAt pick d plan p = tagEdit d p.tag := by
    rw [editAt_eq]
    split
    · next r hr => exact absurd ((colorizedAt_iff d hlen).mpr ⟨hp, hr⟩) (hnone r)
    · rfl
  rw [written_getElem? hprefix]
  show some (shown _ ((editAt pick d plan p).opening p.isOpen)) = _
  rw [shown, if_pos hshown, hedit, tagEdit]
  cases d.voidTag? p.tag with
  | none => cases p.isOpen <;> simp [Edit.opening, Edit.keep]
  | some s => cases p.isOpen <;> simp [Edit.opening, Edit.replace]

/-- All else. -/
theorem written_rest (hvoid : ∀ t, .start t true ∈ es → d.voidTag? t = none)
    (hpick : ∀ around t, pick around t = true → t.isVoid = false)
    (hlen : plan.length = (collecting pick es).blocks.length) {front : List Event} {e : Event}
    (hf : front ++ [e] <+: es) (hbegun : e.begun = [])
    (hout : ¬ InsideColorized pick plan es front.length) :
    (written pick d plan es)[front.length]? = some e.raw := by
  have hshown : ∀ stack : List (Open (Mark Bool)),
      stack <:+ (merging pick d plan front).stack →
        stack <:+ (merging pick d plan (front ++ [e])).stack → isShown stack = true :=
    fun _ => isShown_outside hvoid hlen hf hout
  rw [written_getElem? hf]
  rw [merging_concat] at hshown
  have hmarked : ∀ o ∈ (merging pick d plan front).stack, o.note.keepsEnd = true := by
    intro o ho
    have htag : o.tag ∈ openTags front := by
      rw [← tagsOf_merging pick d plan]
      exact List.mem_map_of_mem ho
    have hstart : .start o.tag true ∈ es :=
      ((List.prefix_append _ _).trans hf).subset (mem_openTags htag)
    rw [(marked d plan hpick front o ho).keepsEnd, hvoid _ hstart]
    rfl
  generalize merging pick d plan front = w at hshown hmarked ⊢
  cases e with
  | start t isOpen => cases hbegun
  | finish raw key =>
    rw [Editor.step] at hshown ⊢
    cases he : endElement? key w.stack with
    | none =>
      rw [he] at hshown
      show some (shown w.stack raw) = _
      rw [shown, if_pos (hshown _ (List.suffix_refl _) (List.suffix_refl _))]
      rfl
    | some x =>
      obtain ⟨ended, left⟩ := x
      rw [he] at hshown
      have hstack : ended ++ left = w.stack := endElement?_append he
      have hkeeps : ended.all (fun o => o.note.keepsEnd) = true :=
        List.all_eq_true.mpr fun o ho => hmarked o (hstack ▸ List.mem_append_left _ ho)
      show some (shown left (if ended.all (fun o => o.note.keepsEnd) then raw else [])) = _
      rw [if_pos hkeeps, shown, if_pos (hshown _ ⟨ended, hstack⟩ (List.suffix_refl _))]
      rfl
  | text raw | comment raw | doctype raw | blank raw =>
    show some (shown w.stack raw) = _
    rw [shown, if_pos (hshown _ (List.suffix_refl _) (List.suffix_refl _))]
    rfl

/-- **What the second walk writes differs from the document only where it may.** -/
theorem framed_written (hvoid : ∀ t, .start t true ∈ es → d.voidTag? t = none)
    (hpick : ∀ around t, pick around t = true → t.isVoid = false)
    (hlen : plan.length = (collecting pick es).blocks.length) :
    Framed pick d plan es (written pick d plan es) where
  length := (merger pick d).length_pieces _ _
  block := fun _ _ h => written_block hvoid hpick hlen h
  content := fun _ h => written_content hlen h
  tag := fun _ hp hnone hout => written_tag hvoid hlen hp hnone hout
  rest := by
    intro k e hk hbegun hout
    obtain ⟨hlt, rfl⟩ := List.getElem?_eq_some_iff.mp hk
    have hfront : (es.take k).length = k := List.length_take_of_le (Nat.le_of_lt hlt)
    have hprefix : es.take k ++ [es[k]] <+: es := by
      rw [List.take_append_getElem hlt]
      exact List.take_prefix _ _
    rw [← hfront] at hout
    have h := written_rest hvoid hpick hlen hprefix hbegun hout
    rwa [hfront] at h

/-! ## 4. Colorizing a document -/

/-- **The frame of a run.**  Let a document be colorized.  Its plan has an entry for each block, and
a replacement for each block that has a language; the class value that goes into the start tag is the
one with that language in it, and there is none if the old value is that already.  In xhtml, let no
open element have a void name.  Then what is written for the events of the document differs from them
only where a block is colorized, and in the void tags outside of those blocks. -/
theorem html_framed {σ : Type} {e : Engine σ} {o : Options} {doc : List Char} {s s' : σ}
    {c : Colorized} (h : (colorize e o doc).outcome s = (.ok c, s')) :
    ∃ es blocks plan, events doc = .ok es ∧ es.flatMap Event.raw = doc ∧
      collect o.blocks doc = .ok blocks ∧
      (blocks.mapM (planBlock e)).outcome s = (.ok plan, s') ∧
      (places es).filterMap (blockNo? o.blocks) = List.range plan.length ∧
      (∀ p r, ColorizedAt o.blocks plan es p r →
        ∃ text l s₁ s₂, (Language.resolve e.recognizes (classOf p.tag) text).outcome s₁
            = (.ok (some l), s₂) ∧ r.cls = newClass (classOf p.tag) l.name) ∧
      ((o.dialect = .xhtml → ∀ t, .start t true ∈ es → t.isVoid = false) →
        ∃ out, c.html = out.flatten ∧ Framed o.blocks o.dialect plan es out) := by
  obtain ⟨blocks, plan, html, left, hc, hp, hm, rfl⟩ := colorize_ok h
  obtain ⟨es, he, hb⟩ := collect_ok hc
  have hlen : plan.length = (collecting o.blocks es).blocks.length := by
    rw [Run.length_of_mapM hp, hb, List.length_reverse]
  refine ⟨es, blocks, plan, he, raw_events he, hc, hp, by rw [filterMap_blockNo?, hlen], ?_, ?_⟩
  · intro p r hr
    have hblock := hr.isBlock
    obtain ⟨hmem, i, hi, hplan⟩ := hr
    rw [blockNo?_eq, if_pos hblock] at hi
    cases hi
    have hcls := classes_getElem? hmem hblock
    rw [Collecting.classes, ← List.map_reverse, ← hb, List.getElem?_map] at hcls
    obtain ⟨b, hbi, hbc⟩ := Option.map_eq_some_iff.mp hcls
    obtain ⟨r', s₁, s₂, hr', hout⟩ := Run.getElem?_of_mapM hp hbi
    rw [hplan] at hr'
    cases hr'
    obtain ⟨l, s₃, hl, -, hnew⟩ := planBlock_some.mp hout
    rw [hbc] at hl hnew
    exact ⟨Entity.decode b.text, l, s₁, s₃, hl, hnew⟩
  · intro hvoid
    refine ⟨written o.blocks o.dialect plan es, (flatten_written he hm).symm, ?_⟩
    refine framed_written (fun t ht => ?_) (isVoid_of_blocks o) hlen
    exact (Dialect.voidTag?_eq_none he ht o.dialect).mpr fun hx => hvoid hx t ht

/-- A document with a block that is colorized, one that is left alone, and void tags everywhere. -/
def dotted : List Char :=
  ("<br><pre><code class=w >#!k\na<br></code></pre><!--<br>-->" ++
    "<pre><code>s<hr></code></pre>").toList

theorem html_framed_dotted :
    (colorize verbatim { dialect := .xhtml } dotted).outcome ()
        = (.ok ⟨("<br /><pre><code class=\"w language-k\">a</code></pre><!--<br>-->" ++
            "<pre><code>s<hr /></code></pre>").toList, 1, 1⟩, ()) ∧
      ∃ es plan out, events dotted = .ok es ∧
        out.flatten = ("<br /><pre><code class=\"w language-k\">a</code></pre><!--<br>-->" ++
          "<pre><code>s<hr /></code></pre>").toList ∧
        Framed (Options.blocks {}) .xhtml plan es out := by
  have h : (colorize verbatim { dialect := .xhtml } dotted).outcome ()
      = (.ok ⟨("<br /><pre><code class=\"w language-k\">a</code></pre><!--<br>-->" ++
          "<pre><code>s<hr /></code></pre>").toList, 1, 1⟩, ()) := by decide +kernel
  obtain ⟨es, blocks, plan, he, -, -, -, -, -, hf⟩ := html_framed h
  have hopen : ((events dotted).toOption.getD []).any Event.opensVoid = false := by decide +kernel
  rw [he] at hopen
  obtain ⟨out, hout, hframed⟩ := hf fun _ t ht => by
    simpa [Event.opensVoid] using List.any_eq_false.mp hopen _ ht
  exact ⟨h, es, plan, out, he, hout.symm, hframed⟩

/-- **A start tag that gets a class value is respelled.**  The blank in front of its `>` is gone, so
the document has not only got another class attribute. -/
theorem respelled_start_tag :
    (colorize verbatim {} "<pre><code class=w >#!k\na</code></pre>".toList).outcome ()
        = (.ok ⟨"<pre><code class=\"w language-k\">a</code></pre>".toList, 1, 0⟩, ()) ∧
      ∀ attr : List Char, "<pre><code class=\"w language-k\">a</code></pre>".toList
        ≠ "<pre><code ".toList ++ attr ++ " >a</code></pre>".toList := by
  refine ⟨by decide +kernel, fun attr h => ?_⟩
  have hsuffix : " >a</code></pre>".toList
      <:+ "<pre><code class=\"w language-k\">a</code></pre>".toList := ⟨_, h.symm⟩
  exact absurd hsuffix (by decide +kernel)

end CodeTint.Document
