/-
# What a document says, apart from how its tags are spelled

Two spellings of a tag can say the same: a name means the same in upper and in lower case, and an
attribute value may have `&quot;` for a quote.  `Event.meaning` keeps what is said: the name, the
attributes in their order with the values read (`readQuotes`), and whether the element is open.
Everything that is no start tag means just what it is.

**Documents that mean the same have the same tree** (`meaningIn_treeOf`): each element has the same
name and attributes, and the same pieces are in it.
-/
import CodeTint.Markup.Rewrite
import CodeTint.Proofs.Markup.Tree

namespace CodeTint.Markup

open CodeTint.Text

/-! ## 1. Values -/

/-- **The value with each `&quot;` read** as the quote that it stands for. -/
def readQuotes : List Char → List Char
  | [] => []
  | c :: s =>
    match _h : after? "&quot;".toList (c :: s) with
    | some r => '"' :: readQuotes r
    | none => c :: readQuotes s
termination_by s => s.length
decreasing_by
  · rw [after?_eq_some.mp _h, List.length_append]
    exact Nat.lt_add_of_pos_left (by decide)
  · exact Nat.lt_succ_self _

@[simp] theorem quoteValue_nil : quoteValue [] = [] := rfl

theorem quoteValue_quote (s : List Char) :
    quoteValue ('"' :: s) = "&quot;".toList ++ quoteValue s := by
  rw [quoteValue, List.flatMap_cons, if_pos rfl]
  rfl

theorem quoteValue_of_ne {c : Char} (h : c ≠ '"') (s : List Char) :
    quoteValue (c :: s) = c :: quoteValue s := by
  rw [quoteValue, List.flatMap_cons, if_neg h]
  rfl

theorem quote_not_mem_quoteValue (s : List Char) : '"' ∉ quoteValue s := by
  induction s with
  | nil => exact List.not_mem_nil
  | cons c s ih =>
    by_cases hc : c = '"'
    · subst hc
      rw [quoteValue_quote, List.mem_append, not_or]
      exact ⟨by simp, ih⟩
    · rw [quoteValue_of_ne hc, List.mem_cons, not_or]
      exact ⟨Ne.symm hc, ih⟩

/-- A value without a double quote is quoted as it is. -/
theorem quoteValue_of_not_mem {v : List Char} (h : '"' ∉ v) : quoteValue v = v := by
  induction v with
  | nil => rfl
  | cons c v ih =>
    rw [List.mem_cons, not_or] at h
    rw [quoteValue_of_ne (Ne.symm h.1), ih h.2]

@[simp] theorem quoteValue_quoteValue (v : List Char) : quoteValue (quoteValue v) = quoteValue v :=
  quoteValue_of_not_mem (quote_not_mem_quoteValue v)

/-- A quote is spelled with an ampersand in front, so nothing else comes into being. -/
theorem prefix_of_prefix_quoteValue {p s : List Char} (hquote : '"' ∉ p) (hamp : '&' ∉ p)
    (h : p <+: quoteValue s) : p <+: s := by
  induction p generalizing s with
  | nil => exact List.nil_prefix
  | cons c p ih =>
    rw [List.mem_cons, not_or] at hquote hamp
    cases s with
    | nil => exact absurd h (by simp)
    | cons d s =>
      by_cases hd : d = '"'
      · subst hd
        rw [quoteValue_quote] at h
        exact absurd (List.cons_prefix_cons.mp h).1 (Ne.symm hamp.1)
      · rw [quoteValue_of_ne hd] at h
        obtain ⟨hc, hp⟩ := List.cons_prefix_cons.mp h
        exact List.cons_prefix_cons.mpr ⟨hc, ih hquote.2 hamp.2 hp⟩

theorem readQuotes_reference (s : List Char) :
    readQuotes ("&quot;".toList ++ s) = '"' :: readQuotes s := by
  have hlead : "&quot;".toList = '&' :: "quot;".toList := rfl
  rw [hlead, List.cons_append, readQuotes]
  split
  · next r hr =>
    rw [← List.cons_append, ← hlead, after?_append] at hr
    cases hr
    rfl
  · next hr =>
    rw [← List.cons_append, ← hlead, after?_append] at hr
    cases hr

theorem readQuotes_of_none {c : Char} {s : List Char}
    (h : after? "&quot;".toList (c :: s) = none) : readQuotes (c :: s) = c :: readQuotes s := by
  rw [readQuotes]
  split
  · next r hr =>
    rw [h] at hr
    cases hr
  · rfl

/-- Where no reference stands, none comes into being. -/
theorem after?_quoteValue {c : Char} {s : List Char}
    (h : after? "&quot;".toList (c :: s) = none) :
    after? "&quot;".toList (c :: quoteValue s) = none := by
  have hlead : "&quot;".toList = '&' :: "quot;".toList := rfl
  rw [Option.eq_none_iff_forall_ne_some] at h ⊢
  intro r hr
  have hr' := after?_eq_some.mp hr
  rw [hlead, List.cons_append] at hr'
  obtain ⟨hc, hs⟩ := List.cons.inj hr'
  obtain ⟨r', hp⟩ := prefix_of_prefix_quoteValue (by decide) (by decide) ⟨r, hs.symm⟩
  refine h r' (after?_eq_some.mpr ?_)
  rw [hlead, List.cons_append, hc, hp]

/-- **Quotes that are spelled out are read again.** -/
theorem readQuotes_quoteValue (s : List Char) : readQuotes (quoteValue s) = readQuotes s := by
  fun_induction readQuotes s with
  | case1 => rw [quoteValue_nil, readQuotes]
  | case2 c s r h ih =>
    have hsame : quoteValue ("&quot;".toList ++ r) = "&quot;".toList ++ quoteValue r := by
      rw [quoteValue, List.flatMap_append]
      rfl
    rw [after?_eq_some.mp h, hsame, readQuotes_reference, ih]
  | case3 c s h ih =>
    by_cases hc : c = '"'
    · subst hc
      rw [quoteValue_quote, readQuotes_reference, ih]
    · rw [quoteValue_of_ne hc, readQuotes_of_none (after?_quoteValue h), ih]

/-! ## 2. Tags and events -/

/-- What an attribute says. -/
def Attr.meaning (a : Attr) : Attr := ⟨a.key, [], readQuotes a.value, []⟩

/-- **What a tag says**: its name and its attributes, in their order. -/
def Tag.meaning (t : Tag) : Tag := ⟨[], t.key, t.attrs.map Attr.meaning, false⟩

/-- **What an event says.** -/
def Event.meaning : Event → Event
  | .start t isOpen => .start t.meaning isOpen
  | e => e

@[simp] theorem Tag.key_meaning (t : Tag) : t.meaning.key = t.key := lower_lower t.name

/-! ## 3. Trees -/

mutual

/-- What a piece of a document says. -/
def Piece.meaning : Piece → Piece
  | .text s => .text s
  | .element t content => .element t.meaning (meaningIn content)
  | .other raw => .other raw

/-- **What some pieces say.** -/
def meaningIn : List Piece → List Piece
  | [] => []
  | p :: ps => p.meaning :: meaningIn ps

end

theorem meaningIn_append (ps qs : List Piece) :
    meaningIn (ps ++ qs) = meaningIn ps ++ meaningIn qs := by
  induction ps with
  | nil => rfl
  | cons p ps ih => simp [meaningIn, ih]

namespace Growing

/-- What the open elements say, each with the pieces in front of it. -/
def meaningAround (around : List (Tag × List Piece)) : List (Tag × List Piece) :=
  around.map fun f => (f.1.meaning, meaningIn f.2)

/-- What a growing tree says. -/
def meaning (g : Growing) : Growing := ⟨meaningIn g.content, meaningAround g.around⟩

theorem meaning_add (g : Growing) (p : Piece) : (g.add p).meaning = g.meaning.add p.meaning := by
  simp [add, meaning, meaningIn_append, meaningIn]

theorem meaning_leave? (key : List Char) (content : List Piece)
    (around : List (Tag × List Piece)) :
    (leave? key content around).map meaning
      = leave? key (meaningIn content) (meaningAround around) := by
  induction around generalizing content with
  | nil => rfl
  | cons f around ih =>
    obtain ⟨t, front⟩ := f
    rw [leave?, meaningAround, List.map_cons, leave?, Tag.key_meaning]
    split
    · simp [meaning, meaningIn_append, meaningIn, Piece.meaning, meaningAround]
    · rw [ih, meaningIn_append]
      rfl

theorem meaning_step (g : Growing) (e : Event) :
    (g.step e).meaning = g.meaning.step e.meaning := by
  cases e with
  | start t isOpen =>
    cases isOpen with
    | false => exact meaning_add g _
    | true => rfl
  | finish raw key =>
    have h := meaning_leave? key g.content g.around
    show _ = (leave? key (meaningIn g.content) (meaningAround g.around)).getD _
    rw [step, ← h]
    cases leave? key g.content g.around with
    | none => exact meaning_add g _
    | some g' => rfl
  | text s => exact meaning_add g _
  | comment raw => exact meaning_add g _
  | doctype raw => exact meaning_add g _
  | blank raw => exact meaning_add g _

theorem meaningIn_close (content : List Piece) (around : List (Tag × List Piece)) :
    meaningIn (close content around) = close (meaningIn content) (meaningAround around) := by
  induction around generalizing content with
  | nil => rfl
  | cons f around ih =>
    obtain ⟨t, front⟩ := f
    rw [close, ih, meaningAround, meaningAround, List.map_cons, close, meaningIn_append]
    rfl

end Growing

theorem meaning_grow (es : List Event) : (grow es).meaning = grow (es.map Event.meaning) := by
  induction es using List.reverseRecOn with
  | nil => rfl
  | append_singleton es e ih =>
    rw [grow_concat, Growing.meaning_step, ih, List.map_append, List.map_singleton, grow_concat]

/-- **What the tree says follows from what the events say.** -/
theorem meaningIn_treeOf (es : List Event) :
    meaningIn (treeOf es) = treeOf (es.map Event.meaning) := by
  rw [treeOf, treeOf, Growing.closed, Growing.meaningIn_close, ← meaning_grow]
  rfl

end CodeTint.Markup
