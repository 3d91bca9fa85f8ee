/-
# Both walks over a document see the same blocks

`collect` counts the blocks of a document on a first walk, `merge` goes through it again and takes
one entry of the plan at each block.  Nothing but the order ties an entry to its block: one start tag
that only one of the walks took for a block would put every later fragment into the wrong place.

This file runs the two walks side by side.  They drop different things and write different things,
but **behind every event they agree** (`InStep`): the same elements are open and noted the same way,
the counters are equal, and the second walk has left exactly the entries for the blocks that the
first walk has not met yet.  So at each start tag the second walk takes an entry just if the first
walk records a block, and it takes the entry of that number (`entryAt?_eq`).
-/
import CodeTint.Document
import CodeTint.Proofs.Document.Blocks
import CodeTint.Proofs.Markup.Walk
import CodeTint.Proofs.Run
import Mathlib.Data.List.Basic

namespace CodeTint.Document

open CodeTint.Markup

variable {pick : Selector} {d : Dialect} {plan : List (Option Replacement)}

/-! ## 1. Places where elements begin -/

/-- **A place where an element begins**: the events in front of it, its start tag, and whether it is
open behind that. -/
structure Place where
  before : List Event
  tag : Tag
  isOpen : Bool

/-- The start tag of a place. -/
def Place.event (p : Place) : Event := .start p.tag p.isOpen

/-- The places in some events that follow others. -/
def placesFrom (before : List Event) : List Event → List Place
  | [] => []
  | .start t isOpen :: es => ⟨before, t, isOpen⟩ :: placesFrom (before ++ [.start t isOpen]) es
  | e :: es => placesFrom (before ++ [e]) es

/-- **The places where elements begin**, in the order of the document. -/
def places (es : List Event) : List Place := placesFrom [] es

theorem placesFrom_append (before es es' : List Event) :
    placesFrom before (es ++ es') = placesFrom before es ++ placesFrom (before ++ es) es' := by
  induction es generalizing before with
  | nil => simp [placesFrom]
  | cons e es ih => cases e <;> simp [placesFrom, ih]

theorem places_concat (es : List Event) (e : Event) :
    places (es ++ [e]) = places es ++ placesFrom es [e] := by
  rw [places, placesFrom_append, List.nil_append, places]

/-- What stands in front of a place, and its start tag, is a front part of the document. -/
theorem prefix_of_mem_places {es : List Event} {p : Place} (h : p ∈ places es) :
    p.before ++ [p.event] <+: es := by
  induction es using List.reverseRecOn with
  | nil => cases h
  | append_singleton es e ih =>
    rw [places_concat] at h
    rcases List.mem_append.mp h with h | h
    · exact (ih h).trans (List.prefix_append _ _)
    · cases e with
      | start t isOpen =>
        rw [placesFrom, placesFrom, List.mem_singleton] at h
        rw [h]
        exact List.prefix_refl _
      | _ => cases h

/-- A start tag behind a front part of the document is a place. -/
theorem mem_places_of_prefix {es front : List Event} {t : Tag} {isOpen : Bool}
    (h : front ++ [.start t isOpen] <+: es) : ⟨front, t, isOpen⟩ ∈ places es := by
  obtain ⟨rest, rfl⟩ := h
  rw [places, placesFrom_append, placesFrom_append, List.nil_append]
  refine List.mem_append_left _ (List.mem_append_right _ ?_)
  exact List.mem_singleton_self _

/-! ## 2. Side by side -/

/-- Where the second walk stands behind some events. -/
def merging (pick : Selector) (d : Dialect) (plan : List (Option Replacement)) (es : List Event) :
    Editing Merging Bool :=
  (merger pick d).behind ⟨[], ⟨plan, 0⟩⟩ es

theorem merging_append (es es' : List Event) :
    merging pick d plan (es ++ es') = (merger pick d).behind (merging pick d plan es) es' := by
  rw [merging, Editor.behind_append, merging]

theorem merging_concat (es : List Event) (e : Event) :
    merging pick d plan (es ++ [e]) = ((merger pick d).step (merging pick d plan es) e).2 := by
  rw [merging_append]
  rfl

/-- An open element of the second walk as the first one keeps it. -/
def bare (o : Open (Mark Bool)) : Open Bool := ⟨o.tag, o.note.note⟩

/-- **The second walk is in step with the first**: the same elements are open with the same notes,
the counters are equal, and what is left of the plan are the entries for blocks to come. -/
structure InStep (plan : List (Option Replacement)) (v : Collecting) (w : Editing Merging Bool) :
    Prop where
  stack : w.stack.map bare = v.stack
  depth : w.state.depth = v.depth
  plan : w.state.plan = plan.drop v.blocks.length

theorem InStep.tags {v : Collecting} {w : Editing Merging Bool} (h : InStep plan v w) :
    tagsOf w.stack = tagsOf v.stack := by
  rw [← h.stack, tagsOf, tagsOf, List.map_map]
  rfl

/-- Whether a start tag is a block's, as the second walk decides it. -/
def Merging.takes (m : Merging) (picked : Bool) : Bool := picked && m.depth == 0

/-- An entry goes from the plan just at a block. -/
theorem Merging.edit_plan (m : Merging) (picked : Bool) (t : Tag) :
    (m.edit d picked t).2 = if m.takes picked then m.plan.drop 1 else m.plan := by
  rw [edit, takes]
  split
  · split <;> next hp => rw [hp]; rfl
  · rfl

/-- The elements that end count down just as in the first walk. -/
theorem foldl_finish (ended : List (Open (Mark Bool))) (m : Merging) :
    ended.foldl (fun s o => (merger pick d).finish o.note.note s) m
      = { m with depth := depthAfterEnd (ended.map bare) m.depth } := by
  induction ended generalizing m with
  | nil => rfl
  | cons o ended ih =>
    rw [List.foldl_cons, ih, List.map_cons]
    rfl

/-- The class values of the blocks so far, in the order of the document. -/
def Collecting.classes (w : Collecting) : List (Option (List Char)) :=
  (w.blocks.map Block.cls).reverse

@[simp] theorem Collecting.length_classes (w : Collecting) :
    w.classes.length = w.blocks.length := by
  simp [classes]

/-- **A block's start tag brings its class value** behind those that are there. -/
theorem Collecting.classes_start (w : Collecting) (t : Tag) (isOpen : Bool) :
    (w.step pick (.start t isOpen)).classes
      = if pick (tagsOf w.stack) t && w.depth == 0 then w.classes ++ [classOf t]
        else w.classes := by
  rw [step, classes, classes]
  split <;> simp

/-- No other event brings one or changes one. -/
theorem Collecting.classes_of_begun (w : Collecting) {e : Event} (h : e.begun = []) :
    (w.step pick e).classes = w.classes := by
  cases e with
  | start t isOpen => cases h
  | finish raw key =>
    rw [step]
    split <;> rfl
  | text s =>
    rw [step]
    split
    · rw [classes, classes]
      cases w.blocks <;> rfl
    · rfl
  | comment raw => rfl
  | doctype raw => rfl
  | blank raw => rfl

theorem Collecting.length_blocks_start (w : Collecting) (t : Tag) (isOpen : Bool) :
    (w.step pick (.start t isOpen)).blocks.length
      = if pick (tagsOf w.stack) t && w.depth == 0 then w.blocks.length + 1
        else w.blocks.length := by
  rw [← length_classes, classes_start]
  split <;> simp

theorem Collecting.length_blocks_of_begun (w : Collecting) {e : Event} (h : e.begun = []) :
    (w.step pick e).blocks.length = w.blocks.length := by
  rw [← length_classes, classes_of_begun w h, length_classes]

/-- **One event keeps the walks in step.** -/
theorem InStep.step {v : Collecting} {w : Editing Merging Bool} (h : InStep plan v w)
    (pick : Selector) (d : Dialect) (e : Event) :
    InStep plan (v.step pick e) ((merger pick d).step w e).2 := by
  have ht := h.tags
  obtain ⟨hs, hd, hp⟩ := h
  cases e with
  | start t isOpen =>
    refine ⟨?_, ?_, ?_⟩
    · rw [Collecting.step, ← ht, ← hs]
      cases isOpen <;> rfl
    · rw [Collecting.step, ← ht, ← hd]
      rfl
    · show (w.state.edit d (pick (tagsOf w.stack) t) t).2 = _
      rw [Merging.edit_plan, Merging.takes, Collecting.length_blocks_start, ht, hd, hp]
      split
      · rw [List.drop_drop]
      · rfl
  | finish raw key =>
    have hm := endElement?_map bare (fun _ => rfl) key w.stack
    rw [hs] at hm
    rw [Collecting.step, hm, Editor.step]
    cases endElement? key w.stack with
    | none => exact ⟨hs, hd, hp⟩
    | some p =>
      obtain ⟨ended, left⟩ := p
      refine ⟨rfl, ?_, ?_⟩
      · show (ended.foldl _ w.state).depth = _
        rw [foldl_finish, hd]
        rfl
      · show (ended.foldl _ w.state).plan = _
        rw [foldl_finish]
        exact hp
  | text s =>
    have hlen : (v.step pick (.text s)).blocks.length = v.blocks.length :=
      v.length_blocks_of_begun rfl
    refine ⟨?_, ?_, by rw [hlen]; exact hp⟩
    · rw [Collecting.step]
      split <;> exact hs
    · rw [Collecting.step]
      split <;> exact hd
  | comment raw => exact ⟨hs, hd, hp⟩
  | doctype raw => exact ⟨hs, hd, hp⟩
  | blank raw => exact ⟨hs, hd, hp⟩

/-- **The walks are in step behind any events.** -/
theorem inStep (pick : Selector) (d : Dialect) (plan : List (Option Replacement))
    (es : List Event) : InStep plan (collecting pick es) (merging pick d plan es) := by
  induction es using List.reverseRecOn with
  | nil => exact ⟨rfl, rfl, rfl⟩
  | append_singleton es e ih =>
    rw [collecting_concat, merging_concat]
    exact ih.step pick d e

/-! ## 3. Which block begins at a place, and which entry is taken there -/

/-- **The number that the first walk gives to the element that begins at a place**; none if it
records no block there. -/
def blockNo? (pick : Selector) (p : Place) : Option Nat :=
  if (collecting pick p.before).blocks.length
      < ((collecting pick p.before).step pick p.event).blocks.length then
    some (collecting pick p.before).blocks.length
  else none

/-- **The entry that the second walk takes at a place**; none if it leaves the plan as it is. -/
def entryAt? (pick : Selector) (d : Dialect) (plan : List (Option Replacement)) (p : Place) :
    Option (Option Replacement) :=
  if ((merger pick d).step (merging pick d plan p.before) p.event).2.state.plan.length
      < (merging pick d plan p.before).state.plan.length then
    (merging pick d plan p.before).state.plan.head?
  else none

/-- The edit that the second walk makes at a place. -/
def editAt (pick : Selector) (d : Dialect) (plan : List (Option Replacement)) (p : Place) : Edit :=
  ((merger pick d).start (merging pick d plan p.before).state
    (tagsOf (merging pick d plan p.before).stack) p.tag p.isOpen).1

/-- A block begins at a place if the element is picked and no open one is. -/
def Place.isBlock (pick : Selector) (p : Place) : Bool :=
  pick (openTags p.before) p.tag && (pickedAmong pick (openTags p.before)).isEmpty

/-- The first walk decides by the stack and the counter whether a block begins. -/
theorem Place.isBlock_eq (pick : Selector) (p : Place) :
    (pick (tagsOf (collecting pick p.before).stack) p.tag
      && (collecting pick p.before).depth == 0) = p.isBlock pick := by
  rw [collecting_stack, collecting_depth, tagsOf_noted, isBlock]
  cases pickedAmong pick (openTags p.before) <;> rfl

theorem blockNo?_eq (pick : Selector) (p : Place) :
    blockNo? pick p
      = if p.isBlock pick then some (collecting pick p.before).blocks.length else none := by
  rw [blockNo?, Place.event, Collecting.length_blocks_start, p.isBlock_eq]
  cases p.isBlock pick <;> simp

/-- The second walk takes an entry just where a block begins. -/
theorem takes_eq (pick : Selector) (d : Dialect) (plan : List (Option Replacement)) (p : Place) :
    (merging pick d plan p.before).state.takes
      (pick (tagsOf (merging pick d plan p.before).stack) p.tag) = p.isBlock pick := by
  have h := inStep pick d plan p.before
  rw [Merging.takes, h.tags, h.depth, p.isBlock_eq]

/-- Behind a place the first walk has met one block more if one begins there. -/
theorem length_blocks_behind (pick : Selector) (p : Place) :
    (collecting pick (p.before ++ [p.event])).blocks.length
      = if p.isBlock pick then (collecting pick p.before).blocks.length + 1
        else (collecting pick p.before).blocks.length := by
  rw [collecting_concat, Place.event, Collecting.length_blocks_start, p.isBlock_eq]

/-- The first walk never forgets a block, nor its class value. -/
theorem classes_mono (pick : Selector) {es es' : List Event} (h : es <+: es') :
    (collecting pick es).classes <+: (collecting pick es').classes := by
  obtain ⟨rest, rfl⟩ := h
  induction rest using List.reverseRecOn with
  | nil => simp
  | append_singleton rest e ih =>
    rw [← List.append_assoc, collecting_concat]
    refine ih.trans ?_
    cases e with
    | start t isOpen =>
      rw [Collecting.classes_start]
      split
      · exact List.prefix_append _ _
      · exact List.prefix_refl _
    | _ => exact ⟨[], by rw [List.append_nil, Collecting.classes_of_begun _ rfl]⟩

/-- **A block has the class value of the start tag that it was recorded at**, and a number below
the number of all blocks. -/
theorem classes_getElem? {es : List Event} {p : Place} (hp : p ∈ places es)
    (hb : p.isBlock pick = true) :
    (collecting pick es).classes[(collecting pick p.before).blocks.length]?
      = some (classOf p.tag) := by
  obtain ⟨rest, hr⟩ := classes_mono pick (prefix_of_mem_places hp)
  rw [collecting_concat, Place.event, Collecting.classes_start, p.isBlock_eq, if_pos hb] at hr
  rw [← hr, ← Collecting.length_classes]
  simp

theorem length_blocks_lt {es : List Event} {p : Place} (hp : p ∈ places es)
    (hb : p.isBlock pick = true) :
    (collecting pick p.before).blocks.length < (collecting pick es).blocks.length := by
  rw [← (collecting pick es).length_classes]
  exact (List.getElem?_eq_some_iff.mp (classes_getElem? hp hb)).1

/-- **The blocks are numbered from zero on, in the order of the document.** -/
theorem filterMap_blockNo? (pick : Selector) (es : List Event) :
    (places es).filterMap (blockNo? pick) = List.range (collecting pick es).blocks.length := by
  induction es using List.reverseRecOn with
  | nil => rfl
  | append_singleton es e ih =>
    rw [places_concat, List.filterMap_append, ih]
    cases e with
    | start t isOpen =>
      have hl : (collecting pick (es ++ [.start t isOpen])).blocks.length = _ :=
        length_blocks_behind pick ⟨es, t, isOpen⟩
      rw [hl, placesFrom, placesFrom, List.filterMap_cons, List.filterMap_nil, blockNo?_eq]
      cases Place.isBlock pick ⟨es, t, isOpen⟩
      · exact List.append_nil _
      · exact List.range_succ.symm
    | _ =>
      rw [collecting_concat, Collecting.length_blocks_of_begun _ rfl]
      exact List.append_nil _

/-- What is left of the plan behind a place. -/
theorem plan_behind (p : Place) :
    ((merger pick d).step (merging pick d plan p.before) p.event).2.state.plan
      = if p.isBlock pick then plan.drop ((collecting pick p.before).blocks.length + 1)
        else plan.drop (collecting pick p.before).blocks.length := by
  have h := ((inStep pick d plan p.before).step pick d p.event).plan
  rw [← collecting_concat, length_blocks_behind] at h
  rw [h]
  split <;> rfl

/-- **The second walk takes the entry of the number that the first one gives.** -/
theorem entryAt?_eq {es : List Event} {p : Place} (hp : p ∈ places es)
    (hlen : plan.length = (collecting pick es).blocks.length) :
    entryAt? pick d plan p = (blockNo? pick p).bind (plan[·]?) := by
  rw [entryAt?, plan_behind, (inStep pick d plan p.before).plan, blockNo?_eq]
  cases hb : p.isBlock pick
  · simp
  · have hlt := length_blocks_lt hp hb
    rw [← hlen] at hlt
    simp only [if_true, List.length_drop, List.head?_drop, Option.bind_some]
    rw [if_pos (by omega)]

/-- **The edit at a place** is the entry's that is taken there; without one, it is that of a tag as
it stands or of a void tag in the dialect's form. -/
theorem editAt_eq (p : Place) :
    editAt pick d plan p
      = match entryAt? pick d plan p with
        | some (some r) => r.edit p.tag
        | _ => tagEdit d p.tag := by
  have ht := takes_eq pick d plan p
  have hpl := (inStep pick d plan p.before).plan
  rw [Merging.takes] at ht
  rw [entryAt?, plan_behind]
  show ((merging pick d plan p.before).state.edit d _ p.tag).1 = _
  rw [Merging.edit, ht, hpl, ← List.drop_drop]
  generalize plan.drop (collecting pick p.before).blocks.length = left
  cases p.isBlock pick
  · simp
  · cases left with
    | nil => rfl
    | cons r left => cases r <;> simp

/-! ## 4. The whole plan -/

/-- The second walk takes its events from the same reading as the first. -/
theorem merge_eq {doc : List Char} {es : List Event} (h : events doc = .ok es) :
    merge pick d plan doc
      = .ok (((merger pick d).walk ⟨[], ⟨plan, 0⟩⟩ es).1, (merging pick d plan es).state.plan) := by
  rw [merge, Editor.rewrite, h]
  rfl

variable {σ : Type}

/-- **What a document went through that was colorized.** -/
theorem colorize_ok {e : Engine σ} {o : Options} {doc : List Char} {s s' : σ} {c : Colorized}
    (h : (colorize e o doc).outcome s = (.ok c, s')) :
    ∃ blocks plan html left, collect o.blocks doc = .ok blocks ∧
      (blocks.mapM (planBlock e)).outcome s = (.ok plan, s') ∧
      merge o.blocks o.dialect plan doc = .ok (html, left) ∧
      c = ⟨html, plan.length - skippedIn plan, skippedIn plan⟩ := by
  rw [colorize, Run.outcome_bind_ok] at h
  obtain ⟨blocks, s₁, hb, h⟩ := h
  rw [Run.outcome_bind_ok] at h
  obtain ⟨plan, s₂, hp, h⟩ := h
  rw [Run.outcome_bind_ok] at h
  obtain ⟨⟨html, left⟩, s₃, hm, h⟩ := h
  rw [Run.outcome_pure] at h
  cases h
  rw [Run.outcome_ofReading] at hb hm
  cases hc : collect o.blocks doc with
  | error x => rw [hc] at hb; cases hb
  | ok bs =>
    rw [hc] at hb
    cases hb
    cases hr : merge o.blocks o.dialect plan doc with
    | error x => rw [hr] at hm; cases hm
    | ok r =>
      rw [hr] at hm
      cases hm
      exact ⟨blocks, plan, html, left, rfl, hp, hr, rfl⟩

/-- The blocks of a document are those that the walk over its events has at the end. -/
theorem collect_ok {doc : List Char} {blocks : List Block} (h : collect pick doc = .ok blocks) :
    ∃ es, events doc = .ok es ∧ blocks = (collecting pick es).blocks.reverse := by
  rw [collect] at h
  cases he : events doc with
  | error x => rw [he] at h; cases h
  | ok es =>
    rw [he] at h
    cases h
    exact ⟨es, rfl, rfl⟩

/-- A document with a picked element and void tags inside of its first block. -/
def nested : List Char :=
  "<pre><code class=\"k\">x<code>y<br/></code></pre><br><code>v</code><pre><code>w".toList

end CodeTint.Document
