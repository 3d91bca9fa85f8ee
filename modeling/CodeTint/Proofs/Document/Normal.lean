/-
# A void tag in a dialect's form reads back as itself

What a dialect writes for a void tag is put into a document that others read, and the program itself
reads it in a second run.  The text has to be **one start tag and nothing else**, whatever the attributes
of the tag were like: names may hold quotes and `<` or begin with an equals sign, values may stand
without quotes and end with a slash, an attribute may be there twice.

Two halves meet in the tag that the dialect stands for (`Dialect.tag`).  The tokenizer reads it from the
text, in any surroundings (`next_tag`) and by itself (`events_tag`).  And it is in the dialect's form
already: lower case and quoted values stay as they are, so **the dialect writes it as it stands**
(`Dialect.voidTag?_tag`).
-/
import CodeTint.Proofs.Document.Unchanged

namespace CodeTint.Markup

/-! ## 1. Writing a tag out twice -/

variable {d : Dialect} {t : Tag} {raw : List Char}

/-- **A tag in the dialect's form stays in it**: html leaves it alone, the other dialects write it as it
stands. -/
theorem Dialect.voidTag?_tag (h : d.voidTag? t = some raw) :
    d.voidTag? (d.tag t) = if d = .html then none else some raw := by
  obtain ⟨hv, closing, hc, hraw⟩ := voidTag?_eq_some h
  have hv' : (d.tag t).isVoid = true := by rwa [Tag.isVoid, key_tag]
  have hout : ∀ c, (d.tag t).writtenOut c = t.writtenOut c := by
    intro c
    rw [Tag.writtenOut_eq, Tag.writtenOut_eq, key_tag, tag_of_some h, attrsText_writtenOut]
  have hslash : (d.tag t).selfClosing = (d != .html) := by rw [tag_of_some h]
  rw [voidTag?, if_pos hv', hslash]
  cases d with
  | html => rfl
  | xhtml =>
    cases hc
    rw [hraw, ← hout]
    rfl
  | xml =>
    cases hs : t.selfClosing with
    | false =>
      rw [hs] at hc
      cases hc
    | true =>
      rw [hs] at hc
      cases hc
      rw [hraw, ← hout]
      rfl

/-! ## 2. Reading the tag by itself -/

/-- A void name at the start of a document leaves reading where it is. -/
theorem onStart_of_isVoid (h : t.isVoid = true) :
    Context.start.onStart t = .ok (Context.start, .content) := by
  have hnames : ∀ n ∈ voidNames, Guard.off.onStart n.toList = .ok .off ∧ n.toList ≠ "svg".toList ∧
      n.toList ≠ "math".toList ∧ modeOf n.toList = .content := by decide
  obtain ⟨n, hn, hkey⟩ := Tag.key_of_isVoid h
  obtain ⟨hguard, hsvg, hmath, hmode⟩ := hnames n hn
  rw [Context.onStart, hkey, Context.start]
  dsimp only
  rw [hguard]
  dsimp only
  rw [if_neg hsvg, if_neg hmath, if_pos rfl, hmode]

/-- **The text of a written tag is that tag**, and its element is not open. -/
theorem events_tag (ht : t.IsRead) (h : d.voidTag? t = some raw) :
    events raw = .ok [.start (d.tag t) false] := by
  obtain ⟨s, hraw, -, hnext⟩ := next_tag ht h Context.start.isForeign []
  have hv : (d.tag t).isVoid = true := by
    rw [Tag.isVoid, d.key_tag]
    exact (Dialect.voidTag?_eq_some h).1
  have hclosed : (d.tag t).opens Context.start.current = false := by
    have hnames : ∀ n ∈ voidNames, isOneOf contentless n.toList = true := by decide
    obtain ⟨n, hn, hkey⟩ := Tag.key_of_isVoid hv
    rw [Context.start, Tag.opens, hkey, hnames n hn]
    rfl
  have hevent : Context.start.event ⟨.start (d.tag t), .content, []⟩
      = .ok (.start (d.tag t) false, Context.start, .content) := by
    simp only [Context.event, onStart_of_isVoid hv, hclosed]
  rw [List.append_nil] at hraw
  rw [events, hraw, eventsFrom, hnext, hevent]
  dsimp only
  rw [eventsFrom]
  rfl

end CodeTint.Markup

namespace CodeTint.Document

open CodeTint.Markup

/-! ## 3. The round trip -/

/-- **The text that a dialect writes for a void tag, and the tag that is read from it.**  By itself it is
that tag and nothing else, and so it is in front of any other text.  The tag has the name and the
attributes of the one that was read first, in lower case and in their order, each value with `&quot;` for
a double quote, and it has the slash just if the dialect asks for it.  In the same dialect it is written
as it is, alone or as a document. -/
structure ReadsBack (d : Dialect) (t : Tag) (raw : List Char) (t' : Tag) : Prop where
  alone : events raw = .ok [.start t' false]
  among : ∀ cdataAllowed r, ∃ s, raw ++ r = '<' :: s ∧
    next cdataAllowed .content '<' s = ⟨.start t', .content, r⟩
  spelled : t'.raw = raw
  name : t'.name = t.key
  attrs : t'.attrs.map (fun a => (a.name, a.value))
    = t.attrs.map fun a => (a.key, quoteValue a.value)
  slash : t'.selfClosing = (d != .html)
  again : (d.voidTag? t').getD t'.raw = raw
  document : ∀ pick, merge pick d [] raw = .ok (raw, [])

variable {d : Dialect} {t : Tag} {raw : List Char}

/-- A document of one void tag in the dialect's form is written as it is. -/
theorem merge_tag (ht : t.IsRead) (h : d.voidTag? t = some raw) (pick : Selector) :
    merge pick d [] raw = .ok (raw, []) := by
  have hevents := events_tag ht h
  have hplan : ∀ r ∈ ([] : List (Option Replacement)), r = none := by
    intro r hr
    cases hr
  have hopen : ∀ u, .start u true ∈ [Event.start (d.tag t) false] → d.voidTag? u = none := by
    intro u hu
    cases List.mem_singleton.mp hu
  have hwalk : ((merger pick d).walk ⟨[], ⟨[], 0⟩⟩ [.start (d.tag t) false]).1
      = [Event.start (d.tag t) false].flatMap fun e => (d.event e).raw :=
    ((untouched_start hplan).walk hopen).1
  have hout : (d.event (.start (d.tag t) false)).raw = raw := by
    rw [Dialect.event, Event.raw, Dialect.raw_tag, Dialect.voidTag?_tag h, Dialect.tag_of_some h]
    cases d <;> rfl
  rw [merge_eq hevents, hwalk, List.flatMap_singleton, hout, (inStep pick d [] _).plan, List.drop_nil]

/-- **A void tag in a dialect's form reads back as itself.**  Let the tokenizer read a start tag, in any
mode and at any place, and let the dialect write it anew.  Then what is written reads back. -/
theorem void_tag_reads_back {cdataAllowed : Bool} {m : Mode} {c : Char} {s : List Char}
    (hread : (next cdataAllowed m c s).token = .start t) (h : d.voidTag? t = some raw) :
    ∃ t', ReadsBack d t raw t' := by
  obtain ⟨-, -, ht⟩ := start_of_next hread
  refine ⟨d.tag t, events_tag ht h, fun b r => ?_, ?_, ?_, ?_, ?_, ?_, merge_tag ht h⟩
  · obtain ⟨s', hraw, -, hnext⟩ := next_tag ht h b r
    exact ⟨s', hraw, hnext⟩
  · rw [Dialect.tag_of_some h]
  · rw [Dialect.tag_of_some h]
  · rw [Dialect.tag_of_some h, List.map_map]
    rfl
  · rw [Dialect.tag_of_some h]
  · rw [Dialect.voidTag?_tag h, Dialect.tag_of_some h]
    cases d <;> rfl

/-- A void tag with a quote, `<` and an equals sign in a name, with a name twice, and with a slash at the
end of a value. -/
def tangled : Tag where
  raw := "<BR =x\"<='a\"b' A a=c/ hidden/>".toList
  name := "BR".toList
  attrs := [⟨"=x\"<".toList, "='".toList, "a\"b".toList, "'".toList⟩, .bare "A".toList,
    ⟨"a".toList, "=".toList, "c/".toList, []⟩, .bare "hidden".toList]
  selfClosing := true

theorem void_tag_reads_back_tangled :
    (next false .content '<' (tangled.raw.drop 1 ++ "b".toList)).token = .start tangled ∧
      ∃ t', ReadsBack .xml tangled
        "<br =x\"<=\"a&quot;b\" a=\"\" a=\"c/\" hidden=\"\"/>".toList t' := by
  have hread : (next false .content '<' (tangled.raw.drop 1 ++ "b".toList)).token = .start tangled := by
    decide +kernel
  exact ⟨hread, void_tag_reads_back hread (by decide +kernel)⟩

end CodeTint.Document
