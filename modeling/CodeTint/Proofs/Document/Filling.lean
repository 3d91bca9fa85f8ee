/-
# What stands in the output where a block was

A block that is colorized keeps its start tag, gets the fragment for its content, and keeps the end
tag that ends it.  This file says when the output looks that way (`IsFilled`): **one piece of the
output after the other**, from the block's start tag to the event that ends the element.

The old content never shows, whatever it is (`Editor.pieces_whileOpen`).  The rest can go wrong in
two ways, and `block_filled_iff` has exactly these.

* **The element is not open.**  Its tag has a closing slash and stands in foreign content.  Then
  there is no place for a fragment.
* **An open element of a void name is involved, in xhtml.**  Such an element, which only foreign
  content has, gives way to its tag written anew: it drops its content, and an end tag that ends it
  goes.  If it is around a block, the block goes with it.  If it is inside a block and the block's
  end tag ends both, **the block loses its end tag**, and what follows becomes part of it.
-/
import CodeTint.Proofs.Document.Passes
import CodeTint.Proofs.Markup.Reading

namespace CodeTint.Document

open CodeTint.Markup

variable {pick : Selector} {d : Dialect} {plan : List (Option Replacement)}

/-! ## 1. From a block's start tag to its end -/

/-- The events behind a place. -/
def Place.after (p : Place) (es : List Event) : List Event := es.drop (p.before.length + 1)

/-- **The events inside the element of a place**: those behind its start tag for as long as it is
open. -/
def Place.inside (p : Place) (es : List Event) : List Event :=
  if p.isOpen then
    whileOpen (openTags p.before).length (p.tag :: openTags p.before) (p.after es)
  else []

/-- The events from the one on that ends the element. -/
def Place.behind (p : Place) (es : List Event) : List Event :=
  (p.after es).drop (p.inside es).length

/-- The elements that are open where the content ends, the one of the place among them. -/
def Place.openAtEnd (p : Place) (es : List Event) : List Tag :=
  openTags (p.before ++ p.event :: p.inside es)

/-- What is behind a place is what is inside and what follows. -/
theorem Place.after_eq (p : Place) (es : List Event) :
    p.after es = p.inside es ++ p.behind es := by
  have hi : p.inside es <+: p.after es := by
    rw [inside]
    split
    · exact whileOpen_prefix _ _ _
    · exact List.nil_prefix
  obtain ⟨back, hb⟩ := hi
  rw [behind, ← hb, List.drop_left]

/-- **A document is cut at a place**: what stands in front, the start tag, what is inside and what
follows. -/
theorem Place.split {es : List Event} {p : Place} (hp : p ∈ places es) :
    es = p.before ++ p.event :: (p.inside es ++ p.behind es) := by
  obtain ⟨rest, hr⟩ := prefix_of_mem_places hp
  have ha : p.after es = rest := by
    rw [after, ← hr, ← List.length_singleton (a := p.event), ← List.length_append,
      List.drop_left]
  rw [← after_eq, ha, ← hr, List.append_assoc]
  rfl

/-- Behind what is inside stands the event that leaves nothing more open than there was in front. -/
theorem Place.length_tagsBehind {es rest : List Event} {p : Place} (ho : p.isOpen = true)
    {e : Event} (h : p.behind es = e :: rest) :
    (tagsBehind (p.openAtEnd es) e).length ≤ (openTags p.before).length := by
  have ha := p.after_eq es
  rw [h, inside, if_pos ho] at ha
  have hl := length_tagsBehind_of_whileOpen ha
  have hend : p.openAtEnd es = (p.inside es).foldl tagsBehind (p.tag :: openTags p.before) := by
    rw [openAtEnd, openTags, List.foldl_append, List.foldl_cons, event, ho]
    rfl
  rw [hend, inside, if_pos ho]
  exact hl

/-- The start tag of a block that is filled. -/
def Replacement.tagOf (r : Replacement) (t : Tag) : List Char :=
  (r.cls.map (t.withAttr "class".toList)).getD t.raw

/-- **What the second walk writes**, one piece for each event. -/
def written (pick : Selector) (d : Dialect) (plan : List (Option Replacement)) (es : List Event) :
    List (List Char) :=
  (merger pick d).pieces ⟨[], ⟨plan, 0⟩⟩ es

/-- **The output fills a block as it should**: where its start tag was there is the start tag with
the fragment behind it; for nothing inside is anything written; and if the element is open, the
event that ends it is written as it was. -/
structure IsFilled (out : List (List Char)) (es : List Event) (p : Place) (r : Replacement) :
    Prop where
  opening : out[p.before.length]? = some (r.tagOf p.tag ++ r.fragment)
  content : (out.drop (p.before.length + 1)).take (p.inside es).length
    = (p.inside es).map fun _ => []
  ending : p.isOpen = true →
    out[p.before.length + 1 + (p.inside es).length]? = (p.behind es).head?.map Event.raw

instance (out : List (List Char)) (es : List Event) (p : Place) (r : Replacement) :
    Decidable (IsFilled out es p r) :=
  decidable_of_iff (_ ∧ _ ∧ _)
    ⟨fun ⟨h1, h2, h3⟩ => ⟨h1, h2, h3⟩, fun ⟨h1, h2, h3⟩ => ⟨h1, h2, h3⟩⟩

/-- The output cut at the same places as the document. -/
theorem isFilled_append {front inner back : List (List Char)} {x : List Char} {es : List Event}
    {p : Place} {r : Replacement} (hf : front.length = p.before.length)
    (hi : inner.length = (p.inside es).length) :
    IsFilled (front ++ x :: (inner ++ back)) es p r
      ↔ x = r.tagOf p.tag ++ r.fragment ∧ inner = (p.inside es).map (fun _ => []) ∧
        (p.isOpen = true → back.head? = (p.behind es).head?.map Event.raw) := by
  have h1 : (front ++ x :: (inner ++ back))[p.before.length]? = some x := by
    rw [← hf]
    simp
  have h2 : ((front ++ x :: (inner ++ back)).drop (p.before.length + 1)).take
      (p.inside es).length = inner := by
    rw [← hf, ← hi, ← List.drop_drop]
    simp
  have h3 : (front ++ x :: (inner ++ back))[p.before.length + 1 + (p.inside es).length]?
      = back.head? := by
    rw [← hf, ← hi, Nat.add_assoc, List.getElem?_append_right (Nat.le_add_right _ _),
      Nat.add_sub_cancel_left, Nat.add_comm, List.getElem?_cons_succ,
      List.getElem?_append_right (Nat.le_refl _), Nat.sub_self, List.head?_eq_getElem?]
  constructor
  · rintro ⟨ho, hc, he⟩
    rw [h1] at ho
    rw [h2] at hc
    rw [h3] at he
    exact ⟨Option.some.inj ho, hc, he⟩
  · rintro ⟨ho, hc, he⟩
    refine ⟨?_, ?_, ?_⟩
    · rw [h1, ho]
    · rw [h2, hc]
    · rw [h3]
      exact he

/-! ## 2. What the open elements are marked with -/

/-- **How an open element is marked.**  Its end tag stays unless the dialect writes its start tag
anew; and if it is not picked, that also decides whether its content is dropped. -/
structure Marked (d : Dialect) (o : Open (Mark Bool)) : Prop where
  keepsEnd : o.note.keepsEnd = (d.voidTag? o.tag).isNone
  hides : o.note.note = false → o.note.hides = (d.voidTag? o.tag).isSome

/-- A dialect leaves a tag that has no void name. -/
theorem voidTag?_of_isVoid {t : Tag} (h : t.isVoid = false) : d.voidTag? t = none := by
  rw [Dialect.voidTag?, h]
  rfl

/-- The edit for an element that is no block marks it as a void tag. -/
theorem tagEdit_marks (d : Dialect) (t : Tag) :
    (tagEdit d t).keepsEnd = (d.voidTag? t).isNone ∧
      (tagEdit d t).content.isSome = (d.voidTag? t).isSome := by
  rw [tagEdit]
  cases d.voidTag? t with
  | none => exact ⟨rfl, rfl⟩
  | some s => exact ⟨rfl, rfl⟩

/-- So does every edit, given that no picked element has a void name. -/
theorem Merging.edit_marks (m : Merging) {picked : Bool} {t : Tag}
    (hp : picked = true → t.isVoid = false) :
    (m.edit d picked t).1.keepsEnd = (d.voidTag? t).isNone ∧
      (picked = false → (m.edit d picked t).1.content.isSome = (d.voidTag? t).isSome) := by
  obtain ⟨h1, h2⟩ := tagEdit_marks d t
  rw [edit]
  split
  · next hc =>
    rw [Bool.and_eq_true] at hc
    have hpick : picked = true := hc.1
    have hnone : d.voidTag? t = none := voidTag?_of_isVoid (hp hpick)
    refine ⟨?_, fun h => by rw [h] at hpick; cases hpick⟩
    split
    · rw [hnone]
      rfl
    · exact h1
    · exact h1
  · exact ⟨h1, fun _ => h2⟩

/-- **Behind any events every open element is marked that way.** -/
theorem marked (d : Dialect) (plan : List (Option Replacement))
    (hpick : ∀ around t, pick around t = true → t.isVoid = false) (es : List Event) :
    ∀ o ∈ (merging pick d plan es).stack, Marked d o := by
  induction es using List.reverseRecOn with
  | nil =>
    intro o ho
    cases ho
  | append_singleton es e ih =>
    rw [merging_concat]
    intro o ho
    generalize merging pick d plan es = w at ih ho
    cases e with
    | start t isOpen =>
      cases isOpen with
      | false => exact ih o ho
      | true =>
        rcases List.mem_cons.mp ho with rfl | ho
        · obtain ⟨h1, h2⟩ := w.state.edit_marks (d := d) (hpick (tagsOf w.stack) t)
          exact ⟨h1, h2⟩
        · exact ih o ho
    | finish raw key =>
      rw [Editor.step] at ho
      cases he : endElement? key w.stack with
      | none =>
        rw [he] at ho
        exact ih o ho
      | some p =>
        obtain ⟨ended, left⟩ := p
        rw [he] at ho
        have hl : left <:+ w.stack := ⟨ended, endElement?_append he⟩
        exact ih o (hl.subset ho)
    | text s => exact ih o ho
    | comment raw => exact ih o ho
    | doctype raw => exact ih o ho
    | blank raw => exact ih o ho

/-- The second walk has open what the tags say. -/
theorem tagsOf_merging (pick : Selector) (d : Dialect) (plan : List (Option Replacement))
    (es : List Event) :
    tagsOf (merging pick d plan es).stack = openTags es := Editor.tagsOf_walk _ _ es

/-- Where a block begins, no open element is noted as picked. -/
theorem not_noted_of_isBlock (d : Dialect) (plan : List (Option Replacement)) {p : Place}
    (hb : p.isBlock pick = true) :
    ∀ o ∈ (merging pick d plan p.before).stack, o.note.note = false := by
  intro o ho
  rw [Place.isBlock, Bool.and_eq_true] at hb
  have hany : (noted pick (openTags p.before)).any Open.note = false := by
    rw [any_noted, hb.2]
    rfl
  rw [← collecting_stack, ← (inStep pick d plan p.before).stack, List.any_map] at hany
  exact Bool.eq_false_iff.mpr (List.any_eq_false.mp hany o ho)

/-- **A block is shown just if no open element around it is written anew.** -/
theorem isShown_block (d : Dialect) (plan : List (Option Replacement))
    (hpick : ∀ around t, pick around t = true → t.isVoid = false) {p : Place}
    (hb : p.isBlock pick = true) :
    isShown (merging pick d plan p.before).stack = true
      ↔ ∀ t ∈ openTags p.before, d.voidTag? t = none := by
  rw [isShown, List.all_eq_true, ← tagsOf_merging pick d plan, tagsOf]
  have hm := marked d plan hpick p.before
  have hn := not_noted_of_isBlock d plan hb
  constructor
  · intro h t ht
    obtain ⟨o, ho, rfl⟩ := List.mem_map.mp ht
    have hh := h o ho
    rw [(hm o ho).hides (hn o ho), Bool.not_eq_true', Option.isSome_eq_false_iff] at hh
    exact Option.isNone_iff_eq_none.mp hh
  · intro h o ho
    rw [(hm o ho).hides (hn o ho), h o.tag (List.mem_map_of_mem ho)]
    rfl

/-! ## 3. The start tag and the end -/

/-- The start tag of a block is written with something. -/
theorem Replacement.tagOf_ne_nil (r : Replacement) {t : Tag} (h : t.raw ≠ []) :
    r.tagOf t ≠ [] := by
  rw [tagOf]
  cases r.cls with
  | none => exact h
  | some v => exact List.cons_ne_nil _ _

/-- **A block's start tag is written with the fragment** just if it is shown and has a place for it. -/
theorem opening_eq_iff (r : Replacement) {t : Tag} (ht : t.raw ≠ []) (isOpen : Bool)
    (stack : List (Open (Mark Bool))) :
    shown stack ((r.edit t).opening isOpen) = r.tagOf t ++ r.fragment
      ↔ isShown stack = true ∧ (isOpen = true ∨ r.fragment = []) := by
  have hne : r.tagOf t ++ r.fragment ≠ [] := by
    intro h
    exact r.tagOf_ne_nil ht (List.append_eq_nil_iff.mp h).1
  rw [shown]
  cases hs : isShown stack with
  | false => simp [hne.symm]
  | true =>
    cases isOpen with
    | true => simp [Edit.opening, Replacement.edit, Edit.fill, Replacement.tagOf]
    | false => simp [Edit.opening, Replacement.edit, Edit.fill, Replacement.tagOf]

/-- **The event that ends a block is written as it was** just if nothing that is open there is
written anew, given that nothing around the block is. -/
theorem ending_eq_iff {w : Editing Merging Bool} {base : List (Open (Mark Bool))}
    {b : Open (Mark Bool)} (hm : ∀ o ∈ w.stack, Marked d o) (hs : b :: base <:+ w.stack)
    (hshown : isShown base = true) (hbase : ∀ t ∈ tagsOf base, d.voidTag? t = none) {e : Event}
    (hraw : e.raw ≠ []) (hl : (tagsBehind (tagsOf w.stack) e).length ≤ base.length) :
    ((merger pick d).step w e).1 = e.raw ↔ ∀ t ∈ tagsOf w.stack, d.voidTag? t = none := by
  obtain ⟨raw, key, ended, left, rfl, he, hleft⟩ := endElement?_of_length_le hs hl
  have hsl : isShown left = true := by
    cases h : isShown left with
    | true => rfl
    | false => exact absurd (isShown_eq_false h hleft) (by rw [hshown]; decide)
  have hstack : w.stack = ended ++ left := (endElement?_append he).symm
  have hout : ((merger pick d).step w (.finish raw key)).1
      = if ended.all (fun o => o.note.keepsEnd) then raw else [] := by
    rw [Editor.step, he]
    show shown left _ = _
    rw [shown, if_pos hsl]
  have hkeep : (ended.all (fun o => o.note.keepsEnd)) = true
      ↔ ∀ t ∈ tagsOf ended, d.voidTag? t = none := by
    rw [List.all_eq_true, tagsOf, List.forall_mem_map]
    refine forall₂_congr fun o ho => ?_
    rw [(hm o (hstack ▸ List.mem_append_left _ ho)).keepsEnd, Option.isNone_iff_eq_none]
  have hpos : (if ended.all (fun o => o.note.keepsEnd) then raw else []) = raw
      ↔ ended.all (fun o => o.note.keepsEnd) = true := by
    split
    · next h => exact iff_of_true rfl h
    · next h => exact iff_of_false (fun hnil => hraw hnil.symm) h
  rw [hout, Event.raw, hpos, hkeep, hstack, tagsOf, tagsOf, List.map_append, List.forall_mem_append]
  refine (and_iff_left fun t ht => hbase t ?_).symm
  exact (hleft.map Open.tag).subset ht

/-! ## 4. A block in the output -/

/-- What the second walk writes is the document with the plan carried out. -/
theorem flatten_written {doc html : List Char} {left : List (Option Replacement)} {es : List Event}
    (he : events doc = .ok es) (hm : merge pick d plan doc = .ok (html, left)) :
    (written pick d plan es).flatten = html := by
  rw [merge_eq he] at hm
  cases hm
  exact Editor.flatten_pieces _ _ _

/-- A start tag is written with something, whatever the edit. -/
theorem Merging.edit_tag_ne_nil (m : Merging) (picked : Bool) {t : Tag} (h : t.raw ≠ []) :
    (m.edit d picked t).1.tag ≠ [] := by
  have hv : (tagEdit d t).tag ≠ [] := by
    rw [tagEdit]
    split
    · next s hs =>
      rw [Dialect.voidTag?] at hs
      split at hs
      · obtain ⟨closing, -, rfl⟩ := Option.map_eq_some_iff.mp hs
        exact List.cons_ne_nil _ _
      · cases hs
    · exact h
  rw [edit]
  split
  · split
    · next r _ _ => exact r.tagOf_ne_nil h
    · exact hv
    · exact hv
  · exact hv

/-- The first event of a document is written with something. -/
theorem step_ne_nil (pick : Selector) (d : Dialect) (m : Merging) {e : Event} (h : e.raw ≠ []) :
    ((merger pick d).step ⟨[], m⟩ e).1 ≠ [] := by
  cases e with
  | start t isOpen =>
    have ht := m.edit_tag_ne_nil (d := d) (pick [] t) h
    show (m.edit d (pick [] t) t).1.opening isOpen ≠ []
    rw [Edit.opening]
    split
    · exact List.append_ne_nil_of_left_ne_nil ht _
    · exact ht
  | finish raw key => exact h
  | text s => exact h
  | comment raw => exact h
  | doctype raw => exact h
  | blank raw => exact h

/-- **Only an empty document becomes empty.** -/
theorem merge_eq_nil_iff {doc html : List Char} {left : List (Option Replacement)}
    (hm : merge pick d plan doc = .ok (html, left)) : html = [] ↔ doc = [] := by
  obtain ⟨es, he⟩ : ∃ es, events doc = .ok es := by
    cases he : events doc with
    | ok es => exact ⟨es, rfl⟩
    | error x => rw [merge, Editor.rewrite, he] at hm; cases hm
  rw [← flatten_written he hm, ← raw_events he]
  cases es with
  | nil => exact iff_of_true rfl rfl
  | cons e es =>
    have hraw : e.raw ≠ [] := raw_ne_nil he List.mem_cons_self
    rw [written, Editor.pieces, List.flatten_cons, List.flatMap_cons, List.append_eq_nil_iff,
      List.append_eq_nil_iff]
    exact iff_of_false (fun h => step_ne_nil pick d _ hraw h.1) (fun h => hraw h.1)

/-- What is written, cut where the document is. -/
theorem written_split {es : List Event} {p : Place} (hp : p ∈ places es) :
    written pick d plan es
      = written pick d plan p.before
        ++ ((merger pick d).step (merging pick d plan p.before) p.event).1
        :: ((merger pick d).pieces (merging pick d plan (p.before ++ [p.event])) (p.inside es)
          ++ (merger pick d).pieces (merging pick d plan (p.before ++ p.event :: p.inside es))
            (p.behind es)) := by
  rw [List.append_cons p.before p.event (p.inside es), merging_append (p.before ++ [p.event]),
    merging_concat, ← Editor.pieces_append, merging, ← Editor.pieces, written, written,
    ← Editor.pieces_append, ← Place.split hp]

/-- An event from a place on is one of the document. -/
theorem Place.mem_of_mem {es : List Event} {p : Place} (hp : p ∈ places es) {e : Event}
    (h : e ∈ p.event :: (p.inside es ++ p.behind es)) : e ∈ es := by
  rw [Place.split hp]
  exact List.mem_append_right _ h

/-- The element of a place is open behind it with the marks of its edit. -/
theorem stack_behind {p : Place} (ho : p.isOpen = true) :
    (merging pick d plan (p.before ++ [p.event])).stack
      = ⟨p.tag, ⟨pick (tagsOf (merging pick d plan p.before).stack) p.tag,
          (editAt pick d plan p).content.isSome, (editAt pick d plan p).keepsEnd⟩⟩
        :: (merging pick d plan p.before).stack := by
  rw [merging_concat, Place.event, ho]
  rfl

section

variable {doc : List Char} {es : List Event} {p : Place} {r : Replacement}

/-- At the start tag of a block. -/
theorem opening_iff (he : events doc = .ok es)
    (hpick : ∀ around t, pick around t = true → t.isVoid = false) (hp : p ∈ places es)
    (hb : p.isBlock pick = true) (hr : entryAt? pick d plan p = some (some r)) :
    ((merger pick d).step (merging pick d plan p.before) p.event).1 = r.tagOf p.tag ++ r.fragment
      ↔ (∀ t ∈ openTags p.before, d.voidTag? t = none) ∧ (p.isOpen = true ∨ r.fragment = []) := by
  have hedit : editAt pick d plan p = r.edit p.tag := by rw [editAt_eq, hr]
  have htag : p.tag.raw ≠ [] := raw_ne_nil he (p.mem_of_mem hp List.mem_cons_self)
  rw [← isShown_block d plan hpick hb, ← opening_eq_iff r htag, ← hedit]
  rfl

/-- **Inside of a block nothing is written**, and the block stays open. -/
theorem pieces_inside (hr : entryAt? pick d plan p = some (some r)) (ho : p.isOpen = true)
    (es : List Event) :
    (merger pick d).pieces (merging pick d plan (p.before ++ [p.event])) (p.inside es)
        = (p.inside es).map (fun _ => []) ∧
      ∃ b, b :: (merging pick d plan p.before).stack
        <:+ (merging pick d plan (p.before ++ p.event :: p.inside es)).stack := by
  obtain ⟨b, hb, hstack⟩ : ∃ b : Open (Mark Bool), b.note.hides = true ∧
      (merging pick d plan (p.before ++ [p.event])).stack
        = b :: (merging pick d plan p.before).stack := by
    have hedit : editAt pick d plan p = r.edit p.tag := by rw [editAt_eq, hr]
    refine ⟨_, ?_, stack_behind ho⟩
    rw [hedit]
    rfl
  have htags : tagsOf (merging pick d plan (p.before ++ [p.event])).stack
      = p.tag :: openTags p.before := by
    rw [tagsOf_merging, openTags_concat, Place.event, ho]
    rfl
  have hhides : isShown (merging pick d plan (p.before ++ [p.event])).stack = false := by
    rw [hstack, isShown, List.all_cons, hb]
    rfl
  have hlen : (merging pick d plan (p.before ++ [p.event])).stack.length
      = (openTags p.before).length + 1 := by
    rw [← List.length_map (f := Open.tag), ← tagsOf, htags, List.length_cons]
  have h := (merger pick d).pieces_whileOpen hhides (List.suffix_refl _) hlen (p.after es)
  have hi : p.inside es
      = whileOpen (openTags p.before).length (p.tag :: openTags p.before) (p.after es) := by
    rw [Place.inside, if_pos ho]
  rw [htags, ← hi, hstack] at h
  refine ⟨h.1, b, ?_⟩
  rw [List.append_cons, merging_append]
  exact h.2

/-- At the event that ends a block. -/
theorem ending_iff (he : events doc = .ok es)
    (hpick : ∀ around t, pick around t = true → t.isVoid = false) (hp : p ∈ places es)
    (hb : p.isBlock pick = true) (hr : entryAt? pick d plan p = some (some r))
    (ho : p.isOpen = true) (hshown : ∀ t ∈ openTags p.before, d.voidTag? t = none) {e : Event}
    {rest : List Event} (hbehind : p.behind es = e :: rest) :
    ((merger pick d).step (merging pick d plan (p.before ++ p.event :: p.inside es)) e).1 = e.raw
      ↔ ∀ t ∈ p.openAtEnd es, d.voidTag? t = none := by
  obtain ⟨-, b, hs⟩ := pieces_inside hr ho es
  have hraw : e.raw ≠ [] := raw_ne_nil he (p.mem_of_mem hp (by simp [hbehind]))
  have hl : (tagsBehind (tagsOf (merging pick d plan (p.before ++ p.event :: p.inside es)).stack)
      e).length ≤ (merging pick d plan p.before).stack.length := by
    rw [← List.length_map (f := Open.tag), ← tagsOf, tagsOf_merging, tagsOf_merging]
    exact Place.length_tagsBehind ho hbehind
  rw [Place.openAtEnd, ← tagsOf_merging pick d plan]
  refine ending_eq_iff (marked d plan hpick _) hs ((isShown_block d plan hpick hb).mpr hshown) ?_
    hraw hl
  rw [tagsOf_merging]
  exact hshown

/-- **Whether the output fills a block**, for a block whose entry has a fragment. -/
theorem isFilled_iff (he : events doc = .ok es)
    (hpick : ∀ around t, pick around t = true → t.isVoid = false) (hp : p ∈ places es)
    (hb : p.isBlock pick = true) (hr : entryAt? pick d plan p = some (some r)) :
    IsFilled (written pick d plan es) es p r
      ↔ (p.isOpen = true ∨ r.fragment = []) ∧ (∀ t ∈ openTags p.before, d.voidTag? t = none) ∧
        (p.behind es ≠ [] → ∀ t ∈ p.openAtEnd es, d.voidTag? t = none) := by
  rw [written_split hp, isFilled_append (by simp [written]) (by simp),
    opening_iff he hpick hp hb hr]
  cases ho : p.isOpen with
  | false =>
    -- nothing is inside, and what is open at the end is what was open in front
    have hi : p.inside es = [] := by
      rw [Place.inside, ho]
      rfl
    have hend : p.openAtEnd es = openTags p.before := by
      rw [Place.openAtEnd, hi, openTags_concat, Place.event, ho]
      rfl
    rw [hi, hend]
    constructor
    · rintro ⟨⟨ha, hf⟩, -, -⟩
      exact ⟨hf, ha, fun _ => ha⟩
    · rintro ⟨hf, ha, -⟩
      exact ⟨⟨ha, hf⟩, rfl, fun h => by cases h⟩
  | true =>
    have hin := (pieces_inside hr ho es).1
    cases hb' : p.behind es with
    | nil =>
      constructor
      · rintro ⟨⟨ha, hf⟩, -, -⟩
        exact ⟨hf, ha, fun h => absurd rfl h⟩
      · rintro ⟨hf, ha, -⟩
        exact ⟨⟨ha, hf⟩, hin, fun _ => rfl⟩
    | cons e rest =>
      have hout := fun h => ending_iff he hpick hp hb hr ho h hb'
      rw [Editor.pieces, List.head?_cons, List.head?_cons, Option.map_some, Option.some.injEq]
      constructor
      · rintro ⟨⟨ha, hf⟩, -, hx⟩
        exact ⟨hf, ha, fun _ => (hout ha).mp (hx rfl)⟩
      · rintro ⟨hf, ha, hx⟩
        exact ⟨⟨ha, hf⟩, hin, fun _ => (hout ha).mpr (hx (List.cons_ne_nil _ _))⟩

end

/-! ## 5. Colorizing a document -/

theorem colorize_eq_nil_iff {σ : Type} {e : Engine σ} {o : Options} {doc : List Char} {s s' : σ}
    {c : Colorized} (h : (colorize e o doc).outcome s = (.ok c, s')) :
    c.html = [] ↔ doc = [] := by
  obtain ⟨blocks, plan, html, left, -, -, hm, rfl⟩ := colorize_ok h
  exact merge_eq_nil_iff hm

/-- No element that the options take for a block has a void name. -/
theorem isVoid_of_blocks (o : Options) (around : List Tag) (t : Tag)
    (h : o.blocks around t = true) : t.isVoid = false := by
  have hnamed : t.isNamed "code" = true := by
    rw [Options.blocks] at h
    split at h
    · exact h
    · exact (Bool.and_eq_true _ _ ▸ h).1
  rw [Tag.isVoid, beq_iff_eq.mp hnamed]
  decide

/-- **A colorized block is filled, or one of two things is the matter.**  Let a document be
colorized.  Its plan has an entry for each block, and what is written goes by the plan.  Wherever the
entry has a fragment, the output fills the block just if

* its element is open, or the fragment is empty, and
* in xhtml, no open element of a void name is around the block, or is open where its content ends. -/
theorem block_filled_iff {σ : Type} {e : Engine σ} {o : Options} {doc : List Char} {s s' : σ}
    {c : Colorized} (h : (colorize e o doc).outcome s = (.ok c, s')) :
    ∃ es blocks plan, events doc = .ok es ∧ collect o.blocks doc = .ok blocks ∧
      (blocks.mapM (planBlock e)).outcome s = (.ok plan, s') ∧
      c.html = (written o.blocks o.dialect plan es).flatten ∧
      (places es).filterMap (blockNo? o.blocks) = List.range plan.length ∧
      ∀ p ∈ places es, ∀ i r, blockNo? o.blocks p = some i → plan[i]? = some (some r) →
        (IsFilled (written o.blocks o.dialect plan es) es p r
          ↔ (p.isOpen = true ∨ r.fragment = []) ∧
            (o.dialect = .xhtml → (∀ t ∈ openTags p.before, t.isVoid = false) ∧
              (p.behind es ≠ [] → ∀ t ∈ p.openAtEnd es, t.isVoid = false))) := by
  obtain ⟨blocks, plan, html, left, hc, hp, hm, rfl⟩ := colorize_ok h
  obtain ⟨es, he, hb⟩ := collect_ok hc
  have hlen : plan.length = (collecting o.blocks es).blocks.length := by
    rw [Run.length_of_mapM hp, hb, List.length_reverse]
  refine ⟨es, blocks, plan, he, hc, hp, (flatten_written he hm).symm, ?_, ?_⟩
  · rw [filterMap_blockNo?, hlen]
  · intro p hpl i r hi hr
    have hentry : entryAt? o.blocks o.dialect plan p = some (some r) := by
      rw [entryAt?_eq hpl hlen, hi]
      exact hr
    have hblock : p.isBlock o.blocks = true := by
      rw [blockNo?_eq] at hi
      split at hi
      · next hx => exact hx
      · cases hi
    have hsplit : es = p.before ++ p.event :: p.inside es ++ p.behind es := by
      rw [List.append_assoc]
      exact p.split hpl
    have hbefore : p.before <+: es := (List.prefix_append _ _).trans (prefix_of_mem_places hpl)
    have hend : p.before ++ p.event :: p.inside es <+: es := ⟨p.behind es, hsplit.symm⟩
    rw [isFilled_iff he (isVoid_of_blocks o) hpl hblock hentry, Place.openAtEnd,
      Dialect.forall_voidTag?_eq_none he hbefore, Dialect.forall_voidTag?_eq_none he hend]
    refine and_congr_right fun _ => ?_
    constructor
    · rintro ⟨ha, hc⟩ hx
      exact ⟨ha hx, fun hb => hc hb hx⟩
    · intro hac
      exact ⟨fun hx => (hac hx).1, fun hb hx => (hac hx).2 hb⟩

/-- A colorizer that knows every language and changes nothing. -/
def verbatim : Engine Unit := ⟨fun _ => pure true, fun source _ => pure source⟩

/-- A document with an element, a void tag, and an element of a void name inside of its block. -/
def crowded : List Char :=
  "<pre><code class=\"language-k\"><b>a</b><br><svg><link></link></code></pre>".toList

theorem block_filled_iff_crowded :
    (colorize verbatim { dialect := .xhtml } crowded).outcome ()
        = (.ok ⟨"<pre><code class=\"language-k\">a</code></pre>".toList, 1, 0⟩, ()) ∧
      ∃ es plan, events crowded = .ok es ∧
        (places es).filterMap (blockNo? (Options.blocks {})) = List.range plan.length ∧
        ∀ p ∈ places es, ∀ i r, blockNo? (Options.blocks {}) p = some i →
          plan[i]? = some (some r) →
          (IsFilled (written (Options.blocks {}) .xhtml plan es) es p r
            ↔ (p.isOpen = true ∨ r.fragment = []) ∧
              ((∀ t ∈ openTags p.before, t.isVoid = false) ∧
                (p.behind es ≠ [] → ∀ t ∈ p.openAtEnd es, t.isVoid = false))) := by
  have h : (colorize verbatim { dialect := .xhtml } crowded).outcome ()
      = (.ok ⟨"<pre><code class=\"language-k\">a</code></pre>".toList, 1, 0⟩, ()) := by
    decide +kernel
  obtain ⟨es, blocks, plan, he, -, -, -, hn, hp⟩ := block_filled_iff h
  refine ⟨h, es, plan, he, hn, fun p hpl i r hi hr => (hp p hpl i r hi hr).trans ?_⟩
  constructor
  · rintro ⟨h1, h2⟩
    exact ⟨h1, h2 rfl⟩
  · rintro ⟨h1, h2⟩
    exact ⟨h1, fun _ => h2⟩

/-- A document with an open element of a void name where its block ends. -/
def endless : List Char := "<pre><code class=\"language-k\">a<svg><link></code>b</pre>".toList

/-- **In xhtml its block loses the end tag.**  The output has the fragment, and right behind it,
still inside of the block, the text that followed. -/
theorem endless_not_filled :
    (colorize verbatim { dialect := .xhtml } endless).outcome ()
        = (.ok ⟨"<pre><code class=\"language-k\">ab</pre>".toList, 1, 0⟩, ()) ∧
      ((collect (Options.blocks {}) endless).toOption.getD [] |>.mapM (planBlock verbatim)).outcome ()
        = (.ok [some ⟨none, "a".toList⟩], ()) ∧
      ∃ es, events endless = .ok es ∧ ∃ p ∈ places es, blockNo? (Options.blocks {}) p = some 0 ∧
        ¬ IsFilled (written (Options.blocks {}) .xhtml [some ⟨none, "a".toList⟩] es) es p
          ⟨none, "a".toList⟩ := by
  refine ⟨by decide +kernel, by decide +kernel, (events endless).toOption.getD [],
    by decide +kernel, by decide +kernel⟩

end CodeTint.Document
