/-
# What an editor writes, event by event

`Editor.walk` gives the changed document as one text.  To say where something stands in it, the text
is taken apart again: `Editor.pieces` has **one piece for each event**, so that a place in the
document is a place in the list of pieces.

Two facts hold for every editor.

* What is open behind some events does not depend on the edits (`Editor.tagsOf_walk`).
* **Dropped content shows nothing.**  As long as an element stays open whose content is dropped,
  every event is written as nothing, whatever the editor says about elements further in
  (`Editor.pieces_whileOpen`).
-/
import CodeTint.Markup.Rewrite
import CodeTint.Proofs.Markup.OpenTags

namespace CodeTint.Markup

variable {σ α : Type}

/-- A walk over two stretches is one over the first and then one over the second. -/
theorem Editor.walk_append (ed : Editor σ α) (w : Editing σ α) (es es' : List Event) :
    ed.walk w (es ++ es')
      = ((ed.walk w es).1 ++ (ed.walk (ed.walk w es).2 es').1,
        (ed.walk (ed.walk w es).2 es').2) := by
  induction es generalizing w with
  | nil => simp [Editor.walk]
  | cons e es ih => simp [Editor.walk, ih]

/-- Where a walk stands behind some events. -/
def Editor.behind (ed : Editor σ α) (w : Editing σ α) (es : List Event) : Editing σ α :=
  (ed.walk w es).2

theorem Editor.behind_cons (ed : Editor σ α) (w : Editing σ α) (e : Event) (es : List Event) :
    ed.behind w (e :: es) = ed.behind (ed.step w e).2 es := rfl

theorem Editor.behind_append (ed : Editor σ α) (w : Editing σ α) (es es' : List Event) :
    ed.behind w (es ++ es') = ed.behind (ed.behind w es) es' := by
  rw [behind, behind, behind, walk_append]

/-- **What is written for each of some events.** -/
def Editor.pieces (ed : Editor σ α) : Editing σ α → List Event → List (List Char)
  | _, [] => []
  | w, e :: es => (ed.step w e).1 :: ed.pieces (ed.step w e).2 es

/-- The pieces make up the text. -/
theorem Editor.flatten_pieces (ed : Editor σ α) (w : Editing σ α) (es : List Event) :
    (ed.pieces w es).flatten = (ed.walk w es).1 := by
  induction es generalizing w with
  | nil => rfl
  | cons e es ih => rw [pieces, List.flatten_cons, ih, walk]

@[simp] theorem Editor.length_pieces (ed : Editor σ α) (w : Editing σ α) (es : List Event) :
    (ed.pieces w es).length = es.length := by
  induction es generalizing w with
  | nil => rfl
  | cons e es ih => rw [pieces, List.length_cons, List.length_cons, ih]

theorem Editor.pieces_append (ed : Editor σ α) (w : Editing σ α) (es es' : List Event) :
    ed.pieces w (es ++ es') = ed.pieces w es ++ ed.pieces (ed.behind w es) es' := by
  induction es generalizing w with
  | nil => rfl
  | cons e es ih => rw [List.cons_append, pieces, pieces, ih, behind_cons, List.cons_append]

/-- The piece at a place of the document. -/
theorem Editor.pieces_getElem? (ed : Editor σ α) (w : Editing σ α) (front back : List Event)
    (e : Event) :
    (ed.pieces w (front ++ e :: back))[front.length]? = some (ed.step (ed.behind w front) e).1 := by
  rw [pieces_append, pieces, ← ed.length_pieces w front, List.getElem?_append_right (Nat.le_refl _),
    Nat.sub_self, List.getElem?_cons_zero]

/-- **Behind an event no more is open than before, or one element more.** -/
theorem Editor.stack_step (ed : Editor σ α) (w : Editing σ α) (e : Event) :
    (ed.step w e).2.stack <:+ w.stack ∨
      ∃ t, e = .start t true ∧
        (ed.step w e).2.stack
          = ⟨t, ⟨(ed.start w.state (tagsOf w.stack) t true).2.1,
              (ed.start w.state (tagsOf w.stack) t true).1.content.isSome,
              (ed.start w.state (tagsOf w.stack) t true).1.keepsEnd⟩⟩ :: w.stack := by
  cases e with
  | start t isOpen =>
    cases isOpen with
    | false => exact .inl (List.suffix_refl _)
    | true => exact .inr ⟨t, rfl, rfl⟩
  | finish raw key =>
    rw [step]
    cases he : endElement? key w.stack with
    | none => exact .inl (List.suffix_refl _)
    | some p => exact .inl ⟨p.1, endElement?_append he⟩
  | text s => exact .inl (List.suffix_refl _)
  | comment raw => exact .inl (List.suffix_refl _)
  | doctype raw => exact .inl (List.suffix_refl _)
  | blank raw => exact .inl (List.suffix_refl _)

/-- An editor has no say in what is open. -/
theorem Editor.tagsOf_step (ed : Editor σ α) (w : Editing σ α) (e : Event) :
    tagsOf (ed.step w e).2.stack = tagsBehind (tagsOf w.stack) e := by
  cases e with
  | start t isOpen => cases isOpen <;> rfl
  | finish raw key =>
    have h := tagsOf_endElement? key w.stack
    rw [step, tagsBehind, ← h]
    cases endElement? key w.stack <;> rfl
  | text s => rfl
  | comment raw => rfl
  | doctype raw => rfl
  | blank raw => rfl

theorem Editor.tagsOf_walk (ed : Editor σ α) (s : σ) (es : List Event) :
    tagsOf (ed.behind ⟨[], s⟩ es).stack = openTags es := by
  induction es using List.reverseRecOn with
  | nil => rfl
  | append_singleton es e ih =>
    rw [behind_append, openTags_concat, ← ih, ← tagsOf_step]
    rfl

/-! ## 2. As long as an element stays open -/

/-- **The events for as long as more than `n` elements are open.** -/
def whileOpen (n : Nat) (around : List Tag) : List Event → List Event
  | [] => []
  | e :: es =>
    if n < (tagsBehind around e).length then e :: whileOpen n (tagsBehind around e) es else []

theorem whileOpen_prefix (n : Nat) (around : List Tag) (es : List Event) :
    whileOpen n around es <+: es := by
  induction es generalizing around with
  | nil => exact List.prefix_refl _
  | cons e es ih =>
    rw [whileOpen]
    split
    · exact (List.prefix_cons_inj e).mpr (ih _)
    · exact List.nil_prefix

/-- One event more, as long as it leaves more than `n` elements open. -/
theorem whileOpen_concat_prefix {n : Nat} {around : List Tag} {es front : List Event} {e : Event}
    (hf : front <+: whileOpen n around es) (he : front ++ [e] <+: es)
    (hl : n < (tagsBehind (front.foldl tagsBehind around) e).length) :
    front ++ [e] <+: whileOpen n around es := by
  obtain ⟨rest, rfl⟩ := he
  induction front generalizing around with
  | nil =>
    rw [List.foldl_nil] at hl
    rw [List.nil_append, List.singleton_append, whileOpen, if_pos hl]
    exact (List.prefix_cons_inj e).mpr List.nil_prefix
  | cons x front ih =>
    rw [List.cons_append, List.cons_append, whileOpen] at hf ⊢
    split at hf
    · next hx =>
      rw [if_pos hx]
      exact (List.prefix_cons_inj x).mpr (ih hl ((List.prefix_cons_inj x).mp hf))
    · exact absurd (List.prefix_nil.mp hf) (List.cons_ne_nil _ _)

/-- Behind those events stands the one that leaves no more than `n` elements open. -/
theorem length_tagsBehind_of_whileOpen {n : Nat} {around : List Tag} {es rest : List Event}
    {e : Event} (h : es = whileOpen n around es ++ e :: rest) :
    (tagsBehind ((whileOpen n around es).foldl tagsBehind around) e).length ≤ n := by
  induction es generalizing around with
  | nil => simp [whileOpen] at h
  | cons x es ih =>
    rw [whileOpen] at h ⊢
    split at h
    · next hx =>
      rw [if_pos hx, List.foldl_cons]
      rw [List.cons_append] at h
      exact ih (List.cons.inj h).2
    · next hx =>
      rw [if_neg hx]
      rw [List.nil_append] at h
      rw [← (List.cons.inj h).1]
      exact Nat.le_of_not_lt hx

/-- Whether an open element around drops its content. -/
theorem isShown_eq_false {stack base : List (Open (Mark α))} (hb : isShown base = false)
    (hs : base <:+ stack) : isShown stack = false := by
  obtain ⟨inner, rfl⟩ := hs
  rw [isShown, List.all_append, ← isShown, ← isShown, hb, Bool.and_false]

/-- **Dropped content shows nothing**, for one event: if some elements that stay open behind it drop
their content, it is written as nothing, and they are still there. -/
theorem Editor.step_of_hidden (ed : Editor σ α) {w : Editing σ α} {base : List (Open (Mark α))}
    (hb : isShown base = false) (hs : base <:+ w.stack) {e : Event}
    (hl : base.length ≤ (tagsBehind (tagsOf w.stack) e).length) :
    (ed.step w e).1 = [] ∧ base <:+ (ed.step w e).2.stack := by
  have hw : isShown w.stack = false := isShown_eq_false hb hs
  cases e with
  | start t isOpen =>
    refine ⟨by simp [step, shown, hw], ?_⟩
    cases isOpen
    · exact hs
    · exact hs.trans (List.suffix_cons _ _)
  | finish raw key =>
    rw [← tagsOf_step ed, tagsOf, List.length_map] at hl
    rw [step] at hl ⊢
    cases he : endElement? key w.stack with
    | none => exact ⟨by simp [shown, hw], hs⟩
    | some p =>
      obtain ⟨ended, left⟩ := p
      rw [he] at hl
      have hleft : left <:+ w.stack := ⟨ended, endElement?_append he⟩
      have hbase : base <:+ left := List.suffix_of_suffix_length_le hs hleft hl
      exact ⟨by simp [shown, isShown_eq_false hb hbase], hbase⟩
  | text s => exact ⟨by simp [step, shown, hw], hs⟩
  | comment raw => exact ⟨by simp [step, shown, hw], hs⟩
  | doctype raw => exact ⟨by simp [step, shown, hw], hs⟩
  | blank raw => exact ⟨by simp [step, shown, hw], hs⟩

/-- **Dropped content shows nothing**, for as long as those elements stay open. -/
theorem Editor.pieces_whileOpen (ed : Editor σ α) {w : Editing σ α}
    {base : List (Open (Mark α))} {n : Nat} (hb : isShown base = false) (hs : base <:+ w.stack)
    (hn : base.length = n + 1) (es : List Event) :
    ed.pieces w (whileOpen n (tagsOf w.stack) es)
        = (whileOpen n (tagsOf w.stack) es).map (fun _ => []) ∧
      base <:+ (ed.behind w (whileOpen n (tagsOf w.stack) es)).stack := by
  induction es generalizing w with
  | nil => exact ⟨rfl, hs⟩
  | cons e es ih =>
    rw [whileOpen]
    split
    · next h =>
      obtain ⟨h1, h2⟩ := ed.step_of_hidden hb hs (e := e) (by omega)
      obtain ⟨h3, h4⟩ := ih h2
      rw [tagsOf_step] at h3 h4
      refine ⟨?_, h4⟩
      rw [pieces, h1, h3, List.map_cons]
    · exact ⟨rfl, hs⟩

/-- **Only an end tag ends the stretch.**  If behind an event no more is open than there was around
an element, the event is an end tag, and what it leaves was around that element. -/
theorem endElement?_of_length_le {stack base : List (Open (Mark α))} {b : Open (Mark α)}
    (hs : b :: base <:+ stack) {e : Event}
    (hl : (tagsBehind (tagsOf stack) e).length ≤ base.length) :
    ∃ raw key ended left, e = .finish raw key ∧
      endElement? key stack = some (ended, left) ∧ left <:+ base := by
  have hlen : base.length < (tagsOf stack).length := by
    rw [tagsOf, List.length_map]
    exact hs.length_le
  cases e with
  | start t isOpen =>
    rw [tagsBehind] at hl
    split at hl
    · rw [List.length_cons] at hl
      omega
    · omega
  | finish raw key =>
    rw [tagsBehind, ← tagsOf_endElement?] at hl
    cases he : endElement? key stack with
    | none =>
      rw [he] at hl
      exact absurd hl (Nat.not_le.mpr hlen)
    | some p =>
      obtain ⟨ended, left⟩ := p
      rw [he, Option.map_some, Option.getD_some, tagsOf, List.length_map] at hl
      have hleft : left <:+ stack := ⟨ended, endElement?_append he⟩
      exact ⟨raw, key, ended, left, rfl, he,
        List.suffix_of_suffix_length_le hleft ((List.suffix_cons b base).trans hs) hl⟩
  | text s => exact absurd hl (Nat.not_le.mpr hlen)
  | comment raw => exact absurd hl (Nat.not_le.mpr hlen)
  | doctype raw => exact absurd hl (Nat.not_le.mpr hlen)
  | blank raw => exact absurd hl (Nat.not_le.mpr hlen)

end CodeTint.Markup
