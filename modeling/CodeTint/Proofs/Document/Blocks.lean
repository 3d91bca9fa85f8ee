/-
# The blocks that are found are the outermost picked elements of the tree

`collect` walks over the events of a document with a counter and the list of blocks it has so far,
and it puts text into whichever block began last.  What a block is has nothing to do with counting:
take the tree of the document, and of the elements that the selector picks those that have no picked
element around them (`outermost`).  A block is such an element's class value and all its text.

This file proves that both are the same for every selector and every sequence of events, however the
tags are nested (`blocksOf_eq`).  The invariant has two halves.

* **The counter is the number of picked elements that are open** (`collecting_depth`).  So it is zero
  just if no picked element is around, and it never goes down from zero.
* **While a picked element is open, the tree's last block is the one that grows**
  (`blocksIn_close_inside`): all that is read goes into the outermost picked element that is open,
  and nothing further in is a block.
-/
import CodeTint.Options
import CodeTint.Document.Block
import CodeTint.Proofs.Markup.Tree

namespace CodeTint.Document

open CodeTint.Markup

variable {pick : Selector}

/-! ## 1. Counting -/

/-- The count after some elements have ended is smaller by the number of picked ones. -/
theorem depthAfterEnd_add (ended : List (Open Bool)) (k : Nat) :
    depthAfterEnd ended (ended.countP Open.note + k) = k := by
  induction ended generalizing k with
  | nil => simp [depthAfterEnd]
  | cons o ended ih =>
    rw [depthAfterEnd, List.foldl_cons, ← depthAfterEnd]
    cases hn : o.note
    · simpa [hn] using ih k
    · have h : (o :: ended).countP Open.note + k - 1 = ended.countP Open.note + k := by
        simp [hn]
      rw [if_pos rfl, h]
      exact ih k

/-- **No count goes down from zero**: in front of each picked element that ends, the count is
positive. -/
theorem depthAfterEnd_pos {ended front back : List (Open Bool)} {o : Open Bool}
    (he : ended = front ++ o :: back) (ho : o.note = true) (k : Nat) :
    0 < depthAfterEnd front (ended.countP Open.note + k) := by
  have h : ended.countP Open.note + k
      = front.countP Open.note + ((o :: back).countP Open.note + k) := by
    rw [he, List.countP_append]
    omega
  rw [h, depthAfterEnd_add, List.countP_cons_of_pos ho]
  omega

/-- Where the walk stands behind some events. -/
def collecting (pick : Selector) (es : List Event) : Collecting :=
  es.foldl (Collecting.step pick) .start

@[simp] theorem collecting_concat (es : List Event) (e : Event) :
    collecting pick (es ++ [e]) = (collecting pick es).step pick e := by
  simp [collecting]

/-- **One event keeps count**: the stack is the open elements with their notes, and the counter is
the number of those that are picked. -/
theorem Collecting.step_counts {w : Collecting} {around : List Tag}
    (hs : w.stack = noted pick around) (hd : w.depth = (pickedAmong pick around).length)
    (e : Event) :
    (w.step pick e).stack = noted pick (tagsBehind around e) ∧
      (w.step pick e).depth = (pickedAmong pick (tagsBehind around e)).length := by
  cases e with
  | start t isOpen =>
    rw [Collecting.step, hs, hd, tagsOf_noted, tagsBehind, depthAfterStart]
    cases isOpen
    · simp
    · cases hp : pick around t <;> simp [noted, pickedAmong, hp]
  | finish raw key =>
    have hl := tagsOf_endElement? key w.stack
    rw [hs, tagsOf_noted] at hl
    rw [Collecting.step, tagsBehind, ← hl, hs]
    cases he : endElement? key (noted pick around) with
    | none => exact ⟨hs, hd⟩
    | some p =>
      obtain ⟨ended, left⟩ := p
      obtain ⟨h1, h2⟩ := endElement?_noted he
      refine ⟨h1, ?_⟩
      show depthAfterEnd ended w.depth = _
      rw [hd, h2, depthAfterEnd_add]
      rfl
  | text s =>
    rw [Collecting.step]
    split
    · exact ⟨hs, hd⟩
    · exact ⟨hs, hd⟩
  | comment raw => exact ⟨hs, hd⟩
  | doctype raw => exact ⟨hs, hd⟩
  | blank raw => exact ⟨hs, hd⟩

theorem collecting_counts (pick : Selector) (es : List Event) :
    (collecting pick es).stack = noted pick (openTags es) ∧
      (collecting pick es).depth = (pickedAmong pick (openTags es)).length := by
  induction es using List.reverseRecOn with
  | nil => exact ⟨rfl, rfl⟩
  | append_singleton es e ih =>
    rw [collecting_concat, openTags_concat]
    exact Collecting.step_counts ih.1 ih.2 e

theorem collecting_stack (pick : Selector) (es : List Event) :
    (collecting pick es).stack = noted pick (openTags es) := (collecting_counts pick es).1

/-- **The counter is the number of picked elements that are open.** -/
theorem collecting_depth (pick : Selector) (es : List Event) :
    (collecting pick es).depth = (pickedAmong pick (openTags es)).length :=
  (collecting_counts pick es).2

/-! ## 2. The outermost picked elements of a tree -/

/-- The value of the first `class` attribute of a tag. -/
def firstClass (t : Tag) : Option (List Char) :=
  ((t.attrs.filter fun a => a.key == "class".toList).head?).map Attr.value

/-- Whether an element is picked and no element around it is. -/
def isOutermost (pick : Selector) (x : Placed) : Bool :=
  pick x.around x.tag && (pickedAmong pick x.around).isEmpty

/-- The block that an element of a tree makes. -/
def blockOf (x : Placed) : Block := ⟨firstClass x.tag, textIn x.content⟩

/-- **The blocks of some pieces**: their picked elements without a picked element around, in the
order of the document. -/
def blocksIn (pick : Selector) (around : List Tag) (ps : List Piece) : List Block :=
  ((elementsIn around ps).filter (isOutermost pick)).map blockOf

theorem classOf_eq_firstClass (t : Tag) : classOf t = firstClass t := by
  rw [classOf, Tag.attr?, firstClass, List.head?_filter]

@[simp] theorem blocksIn_append (around : List Tag) (ps qs : List Piece) :
    blocksIn pick around (ps ++ qs) = blocksIn pick around ps ++ blocksIn pick around qs := by
  simp [blocksIn]

theorem blocksIn_other (around : List Tag) (raw : List Char) :
    blocksIn pick around [.other raw] = [] := rfl

/-- Inside a picked element there are no blocks. -/
theorem blocksIn_eq_nil {around : List Tag} (h : pickedAmong pick around ≠ []) (ps : List Piece) :
    blocksIn pick around ps = [] := by
  rw [blocksIn, List.map_eq_nil_iff, List.filter_eq_nil_iff]
  intro x hx
  have hne : pickedAmong pick x.around ≠ [] := by
    obtain ⟨inner, hi⟩ := suffix_of_mem_elementsIn hx
    rw [← hi]
    clear hi
    induction inner with
    | nil => exact h
    | cons t inner ih =>
      rw [List.cons_append, pickedAmong]
      split
      · exact List.cons_ne_nil _ _
      · exact ih
  simp [isOutermost, hne]

/-- An element without a picked one around is a block if it is picked, and else has the blocks of
its content. -/
theorem blocksIn_element {around : List Tag} (h : pickedAmong pick around = []) (t : Tag)
    (content : List Piece) :
    blocksIn pick around [.element t content]
      = if pick around t then [⟨firstClass t, textIn content⟩]
        else blocksIn pick (t :: around) content := by
  have hs : blocksIn pick around [.element t content]
      = (if pick around t then [⟨firstClass t, textIn content⟩] else [])
        ++ blocksIn pick (t :: around) content := by
    rw [blocksIn, blocksIn, elementsIn, elementsIn, List.append_nil, Piece.elements,
      List.filter_cons]
    cases hp : pick around t <;> simp [isOutermost, hp, h, blockOf]
  rw [hs]
  cases hp : pick around t
  · simp
  · have hne : pickedAmong pick (t :: around) ≠ [] := by simp [pickedAmong, hp]
    simp [blocksIn_eq_nil hne]

/-- **Outside of picked elements** the blocks of a growing tree end with those of the innermost open
element. -/
theorem blocksIn_close_outside {around : List (Tag × List Piece)}
    (h : pickedAmong pick (around.map Prod.fst) = []) :
    ∃ lead, ∀ content, blocksIn pick [] (Growing.close content around)
      = lead ++ blocksIn pick (around.map Prod.fst) content := by
  induction around with
  | nil => exact ⟨[], fun _ => rfl⟩
  | cons f around ih =>
    obtain ⟨t, front⟩ := f
    rw [List.map_cons, pickedAmong] at h
    split at h
    · cases h
    · next hp =>
      obtain ⟨lead, hl⟩ := ih h
      refine ⟨lead ++ blocksIn pick (around.map Prod.fst) front, fun content => ?_⟩
      rw [Growing.close, hl, blocksIn_append, blocksIn_element h, if_neg hp, List.map_cons,
        List.append_assoc]

/-- **Inside a picked element** the last block of a growing tree is that of the outermost one, and
its text ends with that of the innermost open element. -/
theorem blocksIn_close_inside {around : List (Tag × List Piece)}
    (h : pickedAmong pick (around.map Prod.fst) ≠ []) :
    ∃ lead cls text, ∀ content, blocksIn pick [] (Growing.close content around)
      = lead ++ [⟨cls, text ++ textIn content⟩] := by
  induction around with
  | nil => exact absurd rfl h
  | cons f around ih =>
    obtain ⟨t, front⟩ := f
    by_cases hout : pickedAmong pick (around.map Prod.fst) = []
    · -- the outermost picked element is the innermost open one
      have hp : pick (around.map Prod.fst) t = true := by
        by_contra hp
        rw [List.map_cons, pickedAmong, if_neg hp] at h
        exact h hout
      obtain ⟨lead, hl⟩ := blocksIn_close_outside hout
      refine ⟨lead ++ blocksIn pick (around.map Prod.fst) front, firstClass t, [],
        fun content => ?_⟩
      rw [Growing.close, hl, blocksIn_append, blocksIn_element hout, if_pos hp,
        List.append_assoc]
      rfl
    · obtain ⟨lead, cls, text, hl⟩ := ih hout
      refine ⟨lead, cls, text ++ textIn front, fun content => ?_⟩
      rw [Growing.close, hl, textIn_append]
      simp [textIn, Piece.allText]

/-! ## 3. The walk makes the same blocks -/

@[simp] theorem addText_nil (bs : List Block) : addText [] bs = bs := by
  cases bs <;> simp [addText]

/-- A piece more outside of picked elements. -/
theorem blocksIn_add_outside {g : Growing} (h : pickedAmong pick g.tags = []) (p : Piece) :
    blocksIn pick [] (g.add p).closed = blocksIn pick [] g.closed ++ blocksIn pick g.tags [p] := by
  obtain ⟨lead, hl⟩ := blocksIn_close_outside h
  rw [Growing.closed, Growing.closed, Growing.add, hl, hl, blocksIn_append, List.append_assoc]
  rfl

/-- A piece more inside a picked element. -/
theorem blocksIn_add_inside {g : Growing} (h : pickedAmong pick g.tags ≠ []) (p : Piece) :
    (blocksIn pick [] (g.add p).closed).reverse
      = addText p.allText (blocksIn pick [] g.closed).reverse := by
  obtain ⟨lead, cls, text, hl⟩ := blocksIn_close_inside h
  rw [Growing.closed, Growing.closed, Growing.add, hl, hl, textIn_append]
  simp [addText, textIn]

/-- An event outside of picked elements brings the blocks of its piece. -/
theorem Collecting.blocks_step_outside {w : Collecting} {around : List Tag}
    (hs : w.stack = noted pick around) (hd : w.depth = (pickedAmong pick around).length)
    (h : pickedAmong pick around = []) (e : Event) :
    (w.step pick e).blocks = (blocksIn pick around [e.piece]).reverse ++ w.blocks := by
  have hany : w.stack.any Open.note = false := by rw [hs, any_noted, h]; rfl
  cases e with
  | start t isOpen =>
    rw [Event.piece, blocksIn_element h, Collecting.step, hs, tagsOf_noted, hd, h,
      classOf_eq_firstClass]
    cases pick around t <;> rfl
  | finish raw key =>
    rw [Collecting.step]
    split
    · rfl
    · rfl
  | text s => rw [Collecting.step, hany]; rfl
  | comment raw => rfl
  | doctype raw => rfl
  | blank raw => rfl

/-- An event inside a picked element brings its text to the last block. -/
theorem Collecting.blocks_step_inside {w : Collecting} {around : List Tag}
    (hs : w.stack = noted pick around) (hd : w.depth = (pickedAmong pick around).length)
    (h : pickedAmong pick around ≠ []) (e : Event) :
    (w.step pick e).blocks = addText e.ownText w.blocks := by
  have hany : w.stack.any Open.note = true := by rw [hs, any_noted]; simp [h]
  cases e with
  | start t isOpen =>
    show _ = addText [] w.blocks
    rw [Collecting.step, hd, addText_nil]
    simp [h]
  | finish raw key =>
    show _ = addText [] w.blocks
    rw [Collecting.step, addText_nil]
    split
    · rfl
    · rfl
  | text s => rw [Collecting.step, hany]; rfl
  | comment raw => exact (addText_nil _).symm
  | doctype raw => exact (addText_nil _).symm
  | blank raw => exact (addText_nil _).symm

/-- **The walk has the blocks of the tree, as far as both go**, the latest in front. -/
theorem collecting_blocks (pick : Selector) (es : List Event) :
    (collecting pick es).blocks = (blocksIn pick [] (treeOf es)).reverse := by
  induction es using List.reverseRecOn with
  | nil => rfl
  | append_singleton es e ih =>
    have hs := collecting_stack pick es
    have hd := collecting_depth pick es
    rw [treeOf] at ih
    rw [collecting_concat, treeOf, grow_concat]
    by_cases h : pickedAmong pick (openTags es) = []
    · rw [Collecting.blocks_step_outside hs hd h, ih, ← List.reverse_append]
      rw [← tags_grow] at h ⊢
      rcases Growing.closed_step (grow es) e with hc | ⟨⟨raw, hp⟩, hc⟩
      · rw [hc, blocksIn_add_outside h]
      · rw [hc, hp, blocksIn_other, List.append_nil]
    · rw [Collecting.blocks_step_inside hs hd h, ih, ← Event.allText_piece]
      rw [← tags_grow] at h
      rcases Growing.closed_step (grow es) e with hc | ⟨⟨raw, hp⟩, hc⟩
      · rw [hc, blocksIn_add_inside h]
      · rw [hc, hp, Piece.allText, addText_nil]

/-- **The blocks of a sequence of events are the outermost picked elements of its tree.** -/
theorem blocksOf_eq (pick : Selector) (es : List Event) :
    blocksOf pick es = blocksIn pick [] (treeOf es) := by
  have h := collecting_blocks pick es
  rw [collecting] at h
  rw [blocksOf, h, List.reverse_reverse]

/-! ## 4. The blocks of a document -/

/-- **The elements that are meant to be blocks**: the `code` elements with a `pre` element around
them at any distance, or all `code` elements. -/
def isEligible (outsidePre : Bool) (around : List Tag) (t : Tag) : Bool :=
  t.key == "code".toList && (outsidePre || around.any fun a => a.key == "pre".toList)

theorem blocks_eq_isEligible (o : Options) : o.blocks = isEligible o.outsidePre := by
  funext around t
  cases ho : o.outsidePre <;>
    simp [Options.blocks, ho, isEligible, Selector.named, Selector.within, Tag.isNamed]

/-- **The blocks of a document are the outermost eligible elements of its tree**, in its order, each
with its first class value and all the text inside it.  At every place of the document the counter
is the number of eligible elements that are open there, and no end tag takes it below zero. -/
theorem collect_eq_outermost_eligible {doc : List Char} {es : List Event}
    (h : events doc = .ok es) (o : Options) :
    collect o.blocks doc = .ok (blocksIn (isEligible o.outsidePre) [] (treeOf es)) ∧
      ∀ front back, es = front ++ back →
        (collecting o.blocks front).depth
          = (pickedAmong (isEligible o.outsidePre) (grow front).tags).length ∧
        ∀ raw key rest ended left, back = .finish raw key :: rest →
          endElement? key (collecting o.blocks front).stack = some (ended, left) →
          ∀ inner x outer, ended = inner ++ x :: outer → x.note = true →
            0 < depthAfterEnd inner (collecting o.blocks front).depth := by
  rw [blocks_eq_isEligible]
  refine ⟨by rw [collect, h, ← blocksOf_eq]; rfl, ?_⟩
  intro front back _
  refine ⟨by rw [collecting_depth, tags_grow], ?_⟩
  intro raw key rest ended left _ he inner x outer hx hn
  rw [collecting_stack] at he
  rw [collecting_depth, (endElement?_noted he).2]
  exact depthAfterEnd_pos hx hn _

/-- A document whose first block is ended by the end tag of the element around it, with an open
element inside, and whose last block is ended by nothing. -/
def misnested : List Char :=
  "<pre><code class=\"k\">x<b>y</pre></code>z<code>v</code><pre><code>w<code>u".toList

theorem collect_misnested :
    ∃ es, events misnested = .ok es ∧
      collect (Options.blocks {}) misnested
        = .ok (blocksIn (isEligible false) [] (treeOf es)) ∧
      ∀ front back, es = front ++ back →
        (collecting (Options.blocks {}) front).depth
          = (pickedAmong (isEligible false) (grow front).tags).length := by
  have hok : (events misnested).isOk = true := by decide +kernel
  cases h : events misnested with
  | error e => rw [h] at hok; cases hok
  | ok es =>
    obtain ⟨h1, h2⟩ := collect_eq_outermost_eligible h {}
    exact ⟨es, rfl, h1, fun front back hb => (h2 front back hb).1⟩

example : collect (Options.blocks {}) misnested
    = .ok [⟨some "k".toList, "xy".toList⟩, ⟨none, "wu".toList⟩] := by decide +kernel

end CodeTint.Document
