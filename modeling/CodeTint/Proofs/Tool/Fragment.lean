/-
# The fragment inside of a wrapping

`pygmentize` marks a text up with `span` elements and wraps it.  A `span` is no part of a wrapping, so
**marked-up text stays as it is** (`IsHighlighted.becomes`), with what its tags hold, wherever it
stands.  Of the wrapping, whose elements are the ones that are looked for, only what is in it is left
(`becomes_wrapped`).

Two things go that are not elements around the text: the empty one in front of it, and the line ends
at its end.  A text that begins with an empty element of its own loses that one instead, if the tool
has put none in front; **other than that the text comes back** (`fragment_wrapped`).
-/
import CodeTint.Proofs.Markup.Rereading
import CodeTint.Proofs.Markup.Token.Spelling
import CodeTint.Proofs.Markup.Walk
import CodeTint.Tool.Fragment

namespace CodeTint

open CodeTint.Markup CodeTint.Text

/-! ## 1. Marked-up text -/

/-- **A text that is marked up with `span` elements**, one inside of another or side by side.  Between
them no `<` stands.  The tags may be in any case, and their attributes are any. -/
inductive IsHighlighted : List Char → Prop where
  | text {s : List Char} : '<' ∉ s → IsHighlighted s
  | span {s name attrs inner name' b rest : List Char} {as : List Attr} : '<' ∉ s →
      lower name = "span".toList → SpellsAttrs attrs as → IsHighlighted inner →
      lower name' = "span".toList → IsBlanks b → IsHighlighted rest →
      IsHighlighted (s ++ (openTag name attrs ++ (inner ++ (closeTag name' b ++ rest))))

/-- A text without markup goes on. -/
theorem IsHighlighted.append_text {F t : List Char} (h : IsHighlighted F) (ht : '<' ∉ t) :
    IsHighlighted (F ++ t) := by
  induction h with
  | text hs => exact .text (by simp [hs, ht])
  | span hs hn ha hi hn' hb _ _ ih =>
    simp only [List.append_assoc]
    exact .span hs hn ha hi hn' hb ih

/-- The empty element in front is marked-up text itself. -/
theorem IsHighlighted.emptySpan_append {F : List Char} (h : IsHighlighted F) :
    IsHighlighted (emptySpan ++ F) := by
  have hspan : lower "span".toList = "span".toList := rfl
  have hnil : '<' ∉ ([] : List Char) := by simp
  exact .span hnil hspan (.blanks isBlanks_nil) (.text hnil) hspan isBlanks_nil h

/-! ## 2. Reading from the start -/

/-- The elements that reading stays in content for, where it stands at the start of a document. -/
def plainNames : List String := ["div", "pre", "span"]

theorem onStart_of_plain {t : Tag} (h : isOneOf plainNames t.key = true) :
    Context.start.onStart t = .ok (.start, .content) ∧ t.opens .html = true := by
  simp only [isOneOf, plainNames, List.any_cons, List.any_nil, Bool.or_false, Bool.or_eq_true,
    beq_iff_eq] at h
  rcases h with h | h | h <;>
    exact ⟨by rw [Context.onStart, ← h]; rfl, by rw [Tag.opens, ← h]; rfl⟩

/-- The name of such an element is made of letters, in whatever case. -/
theorem letters_of_plain {name : List Char} (h : isOneOf plainNames (lower name) = true) :
    ∃ x back, name = x :: back ∧ x.isAlpha = true ∧ ∀ c ∈ name, isNameEnd c = false := by
  have hplain : ∀ n ∈ plainNames, n.toList ≠ [] ∧ n.toList.all Char.isAlpha = true := by decide
  rw [isOneOf, List.any_eq_true] at h
  obtain ⟨n, hn, heq⟩ := h
  obtain ⟨hne, hall⟩ := hplain n hn
  rw [beq_iff_eq] at heq
  have halpha : ∀ c ∈ name, c.toLower.isAlpha = true := by
    intro c hc
    exact List.all_eq_true.mp hall _ (heq ▸ List.mem_map_of_mem hc)
  cases name with
  | nil => exact absurd heq hne
  | cons x back =>
    refine ⟨x, back, rfl, ?_, fun c hc => isNameEnd_of_isAlpha (halpha c hc)⟩
    rcases toLower_cases x with hx | ⟨hx, -⟩
    · exact hx ▸ halpha x (List.mem_cons_self ..)
    · exact hx

/-- One step of reading that comes back to where it began. -/
theorem reads_one {c : Char} {s r : List Char} {e : Event} {token : Token}
    (hnext : next false .content c s = ⟨token, .content, r⟩)
    (he : Context.start.event ⟨token, .content, r⟩ = .ok (e, .start, .content)) :
    Reads .start .content (c :: s) [e] .start .content r := by
  have hfirst : next Context.start.isForeign .content c s = ⟨token, .content, r⟩ := hnext
  refine .step (by rw [hfirst]; exact he) ?_
  rw [hfirst]
  exact .done

/-- **A start tag is read**, and reading stays where it was. -/
theorem reads_openTag {name attrs : List Char} {as : List Attr}
    (hname : isOneOf plainNames (lower name) = true) (ha : SpellsAttrs attrs as) (r : List Char) :
    isMarkup (openTag name attrs ++ r) = true ∧ Reads .start .content (openTag name attrs ++ r)
      [.start ⟨openTag name attrs, name, as, false⟩ true] .start .content r := by
  obtain ⟨x, back, rfl, hx, hend⟩ := letters_of_plain hname
  have hopens : opensMarkup (x :: (back ++ attrs ++ ['>'] ++ r)) = true := opensMarkup_letter hx _
  have hnext : next false .content '<' (x :: (back ++ attrs ++ ['>'] ++ r))
      = ⟨.start ⟨openTag (x :: back) attrs, x :: back, as, false⟩, .content, r⟩ := by
    rw [← ha.startStep hend r, next, isMarkup, if_pos hopens, markupStep_letter hx]
    simp
  refine ⟨hopens, reads_one hnext ?_⟩
  obtain ⟨hstart, hopen⟩ :=
    onStart_of_plain (t := ⟨openTag (x :: back) attrs, x :: back, as, false⟩) hname
  simp only [Context.event, hstart]
  rw [show Context.start.current = .html from rfl, hopen]

/-- **So is an end tag.** -/
theorem reads_closeTag {name b : List Char} (hname : isOneOf plainNames (lower name) = true)
    (hb : IsBlanks b) (r : List Char) :
    isMarkup (closeTag name b ++ r) = true ∧ Reads .start .content (closeTag name b ++ r)
      [.finish (closeTag name b) (lower name)] .start .content r := by
  obtain ⟨x, back, rfl, hx, hend⟩ := letters_of_plain hname
  have hopens : isMarkup (closeTag (x :: back) b ++ r) = true := rfl
  have hnext : next false .content '<' ('/' :: x :: (back ++ b ++ ['>'] ++ r))
      = ⟨.finish (closeTag (x :: back) b) (x :: back), .content, r⟩ := by
    rw [← (SpellsAttrs.blanks hb).endStep hend r, next]
    have hne : x ≠ '>' := by
      rintro rfl
      cases hx
    rw [if_pos (show isMarkup ('<' :: '/' :: x :: _) = true from rfl), markupStep.eq_5 _ _ _ hne,
      if_pos hx]
    simp
  exact ⟨hopens, reads_one hnext rfl⟩

/-- **A text is read** up to the markup behind it. -/
theorem reads_text {c : Char} {s r : List Char} (hs : '<' ∉ c :: s)
    (hr : r = [] ∨ isMarkup r = true) :
    Reads .start .content (c :: s ++ r) [.text (c :: s)] .start .content r := by
  have hno : ∀ x t, x ≠ '<' → isMarkup (x :: t) = false := by
    intro x t hx
    rw [Bool.eq_false_iff]
    exact fun h => hx (isMarkup_head h)
  have hcut : ∀ s, '<' ∉ s → breakAt isMarkup (s ++ r) = (s, r) := by
    intro s hs
    induction s with
    | nil =>
      cases r with
      | nil => rfl
      | cons x r =>
        rcases hr with hnil | hr
        · cases hnil
        · rw [List.nil_append, breakAt, if_pos hr]
    | cons x s ih =>
      rw [List.mem_cons, not_or] at hs
      rw [List.cons_append, breakAt, hno x _ (Ne.symm hs.1), ih hs.2]
      rfl
  rw [List.mem_cons, not_or] at hs
  have hnext : next false .content c (s ++ r) = ⟨.text (c :: s), .content, r⟩ := by
    rw [next, hno c _ (Ne.symm hs.1), hcut s hs.2]
    rfl
  exact reads_one hnext rfl

/-! ## 3. What becomes of a text -/

/-- The tags of an element that is part of the wrapping go, others stay. -/
def tagText (around : List Tag) (t : Tag) (raw : List Char) : List Char :=
  if wrapping around t then [] else raw

/-- **A text becomes another one**, with some tags around it: in front of the end or of markup it is
read from the start of a document and leaves reading there, and where it is shown the other text is
written for it. -/
def Becomes (around : List Tag) (F out : List Char) : Prop :=
  ∃ es, (∀ r, r = [] ∨ isMarkup r = true → Reads .start .content (F ++ r) es .start .content r) ∧
    ∀ w : Editing Unit Unit, isShown w.stack = true → tagsOf w.stack = around →
      unwrapper.walk w es = (out, w)

theorem becomes_text {s : List Char} (hs : '<' ∉ s) (around : List Tag) : Becomes around s s := by
  cases s with
  | nil => exact ⟨[], fun _ _ => .done, fun w _ _ => rfl⟩
  | cons c s =>
    refine ⟨[.text (c :: s)], fun r hr => reads_text hs hr, fun w hw _ => ?_⟩
    simp [Editor.walk, Editor.step, shown, hw, Event.raw]

/-- One text behind another, if it begins with markup. -/
theorem Becomes.append {around : List Tag} {F G out out' : List Char} (hF : Becomes around F out)
    (hG : Becomes around G out') (hm : ∀ r, isMarkup (G ++ r) = true) :
    Becomes around (F ++ G) (out ++ out') := by
  obtain ⟨es, hreads, hwalk⟩ := hF
  obtain ⟨es', hreads', hwalk'⟩ := hG
  refine ⟨es ++ es', fun r hr => ?_, fun w hw ht => ?_⟩
  · rw [List.append_assoc]
    exact (hreads _ (.inr (hm r))).append (hreads' r hr)
  · rw [Editor.walk_append, hwalk w hw ht, hwalk' w hw ht]

/-- **An element is written back with what is written in it**, in its tags unless they go. -/
theorem walk_element {t : Tag} {es : List Event} {out raw : List Char} {w : Editing Unit Unit}
    (hw : isShown w.stack = true)
    (hinner : ∀ w' : Editing Unit Unit, isShown w'.stack = true →
      tagsOf w'.stack = t :: tagsOf w.stack → unwrapper.walk w' es = (out, w')) :
    unwrapper.walk w (.start t true :: (es ++ [.finish raw t.key]))
      = (tagText (tagsOf w.stack) t t.raw ++ (out ++ tagText (tagsOf w.stack) t raw), w) := by
  let o : Open (Mark Unit) := ⟨t, ⟨(), false, !wrapping (tagsOf w.stack) t⟩⟩
  have hstart : unwrapper.step w (.start t true)
      = (tagText (tagsOf w.stack) t t.raw, ⟨o :: w.stack, ()⟩) := by
    by_cases hwrap : wrapping (tagsOf w.stack) t = true <;>
      simp [Editor.step, unwrapper, o, hwrap, Edit.unwrap, Edit.keep, Edit.opening, shown, hw, tagText]
  have hfinish : unwrapper.step ⟨o :: w.stack, ()⟩ (.finish raw t.key)
      = (tagText (tagsOf w.stack) t raw, w) := by
    have hend : endElement? t.key (o :: w.stack) = some ([o], w.stack) := by
      rw [endElement?, if_pos rfl]
    rw [Editor.step, hend]
    by_cases hwrap : wrapping (tagsOf w.stack) t = true <;> simp [shown, hw, o, tagText, hwrap]
  have hin := hinner ⟨o :: w.stack, ()⟩ hw rfl
  simp only [Editor.walk, hstart, Editor.walk_append, hin, hfinish, List.append_nil]

/-- **An element becomes what is in it**, in its tags unless it is part of the wrapping. -/
theorem Becomes.element {around : List Tag} {name attrs name' b inner rest out out' : List Char}
    {as : List Attr} {t : Tag} (ht : t = ⟨openTag name attrs, name, as, false⟩)
    (hname : isOneOf plainNames (lower name) = true) (ha : SpellsAttrs attrs as)
    (hname' : lower name' = lower name) (hb : IsBlanks b) (hinner : Becomes (t :: around) inner out)
    (hrest : Becomes around rest out') :
    Becomes around (openTag name attrs ++ (inner ++ (closeTag name' b ++ rest)))
      (tagText around t (openTag name attrs) ++ (out ++ tagText around t (closeTag name' b)) ++
        out') := by
  obtain ⟨es, hreads, hwalk⟩ := hinner
  obtain ⟨es', hreads', hwalk'⟩ := hrest
  have hraw : t.raw = openTag name attrs := congrArg Tag.raw ht
  have hkey : lower name' = t.key := hname'.trans (congrArg Tag.key ht).symm
  refine ⟨(.start t true :: (es ++ [.finish (closeTag name' b) t.key])) ++ es',
    fun r hr => ?_, fun w hw haround => ?_⟩
  · obtain ⟨-, hopen⟩ := reads_openTag hname ha (inner ++ (closeTag name' b ++ (rest ++ r)))
    obtain ⟨hm, hclose⟩ := reads_closeTag (hname' ▸ hname) hb (rest ++ r)
    rw [← ht] at hopen
    rw [hkey] at hclose
    simp only [List.append_assoc]
    exact (hopen.append ((hreads _ (.inr hm)).append hclose)).append (hreads' r hr)
  · subst haround
    rw [Editor.walk_append, walk_element hw hwalk, hwalk' w hw rfl, hraw]

/-- No `span` is part of a wrapping. -/
theorem wrapping_span {t : Tag} (h : t.key = "span".toList) (around : List Tag) :
    wrapping around t = false := by
  have hdiv : t.isNamed "div" = false := by rw [Tag.isNamed, h]; rfl
  have hpre : t.isNamed "pre" = false := by rw [Tag.isNamed, h]; rfl
  simp only [wrapping, Selector.classed, Selector.childOf, hdiv, hpre, Bool.false_and, Bool.or_false]

/-- **Marked-up text stays as it is**, whatever is around it. -/
theorem IsHighlighted.becomes {F : List Char} (h : IsHighlighted F) (around : List Tag) :
    Becomes around F F := by
  induction h generalizing around with
  | text hs => exact becomes_text hs around
  | @span s name attrs inner name' b rest as hs hname ha _ hname' hb _ hinner hrest =>
    have hplain : isOneOf plainNames (lower name) = true := by rw [hname]; rfl
    have helement :=
      Becomes.element rfl hplain ha (hname'.trans hname.symm) hb (hinner _) (hrest around)
    simp only [tagText, wrapping_span (t := ⟨openTag name attrs, name, as, false⟩) hname,
      Bool.false_eq_true, if_false, List.append_assoc] at helement
    refine (becomes_text hs around).append helement fun r => ?_
    rw [List.append_assoc]
    exact (reads_openTag hplain ha _).1

/-- The whole of a document. -/
theorem Becomes.rewrite {doc out : List Char} (h : Becomes [] doc out) :
    unwrapper.rewrite () doc = .ok (out, ()) := by
  obtain ⟨es, hreads, hwalk⟩ := h
  have hall := hreads [] (.inl rfl)
  rw [List.append_nil] at hall
  rw [Editor.rewrite, events_of_reads hall]
  show Except.ok ((unwrapper.walk ⟨[], ()⟩ es).1, _) = _
  rw [hwalk ⟨[], ()⟩ rfl rfl]

/-! ## 4. The wrapping -/

/-- What `pygmentize` puts in front of a text. -/
def wrapFront : List Char := "<div class=\"highlight\"><pre>".toList

/-- What `pygmentize` puts behind it. -/
def wrapBack : List Char := "\n</pre></div>\n".toList

/-- What the wrapping is known by. -/
def wrapClass : List Char := " class=\"highlight\"".toList

def wrapAttrs : List Attr := [⟨"class".toList, "=\"".toList, "highlight".toList, "\"".toList⟩]

theorem goesOnName_class : ∀ c ∈ "class".toList, goesOnName c = true := List.all_eq_true.mp rfl

theorem spells_wrapClass : SpellsAttrs wrapClass wrapAttrs := by
  have hne : "class".toList ≠ [] := by decide
  have hvalue : '"' ∉ "highlight".toList := by decide
  exact spellsAttrs_single hne goesOnName_class hvalue

/-- The start tags of the wrapping. -/
def wrapDiv : Tag := ⟨openTag "div".toList wrapClass, "div".toList, wrapAttrs, false⟩

def wrapPre : Tag := ⟨openTag "pre".toList [], "pre".toList, [], false⟩

theorem wrapping_wrapDiv : wrapping [] wrapDiv = true := by decide

theorem wrapping_wrapPre : wrapping [wrapDiv] wrapPre = true := by decide

theorem wrapFront_eq : wrapFront = openTag "div".toList wrapClass ++ openTag "pre".toList [] := rfl

theorem wrapBack_eq :
    wrapBack = ['\n'] ++ (closeTag "pre".toList [] ++ (closeTag "div".toList [] ++ ['\n'])) := rfl

/-- **Marked-up text is what is left of the wrapping**, with the line ends. -/
theorem becomes_wrapped {s : List Char} (h : IsHighlighted s) :
    Becomes [] (wrapFront ++ (s ++ wrapBack)) (s ++ ['\n', '\n']) := by
  have hline : '<' ∉ ['\n'] := by decide
  have hnil : '<' ∉ ([] : List Char) := by simp
  have hdiv : lower "div".toList = lower "div".toList := rfl
  have hpre : lower "pre".toList = lower "pre".toList := rfl
  have hinner := Becomes.element (t := wrapPre) rfl rfl (.blanks isBlanks_nil) hpre isBlanks_nil
    ((h.append_text hline).becomes [wrapPre, wrapDiv]) (becomes_text hnil [wrapDiv])
  have houter := Becomes.element (t := wrapDiv) rfl rfl spells_wrapClass hdiv isBlanks_nil hinner
    (becomes_text hline [])
  have hout : s ++ ['\n', '\n'] = s ++ (['\n'] ++ ['\n']) := rfl
  rw [wrapFront_eq, wrapBack_eq, hout]
  simpa only [tagText, wrapping_wrapDiv, wrapping_wrapPre, if_true, List.nil_append,
    List.append_nil, List.append_assoc] using houter

/-! ## 5. The fragment -/

/-- Line ends at the end make no difference. -/
theorem dropLineEnds_append {t : List Char} (ht : ∀ c ∈ t, c = '\n' ∨ c = '\r') (s : List Char) :
    dropLineEnds (s ++ t) = dropLineEnds s := by
  rw [dropLineEnds, List.reverse_append, List.dropWhile_append_of_pos, dropLineEnds]
  intro c hc
  rcases ht c (List.mem_reverse.mp hc) with rfl | rfl <;> rfl

/-- **The text is what is left, and line ends**, and what is left does not end with one. -/
theorem dropLineEnds_spec (s : List Char) :
    ∃ ends, s = dropLineEnds s ++ ends ∧ (∀ c ∈ ends, c = '\n' ∨ c = '\r') ∧
      ∀ c, (dropLineEnds s).getLast? = some c → c ≠ '\n' ∧ c ≠ '\r' := by
  let p : Char → Bool := fun c => c == '\n' || c == '\r'
  refine ⟨(s.reverse.takeWhile p).reverse, ?_, fun c hc => ?_, fun c hc => ?_⟩
  · rw [dropLineEnds, ← List.reverse_append, List.takeWhile_append_dropWhile, List.reverse_reverse]
  · have hp := List.all_eq_true.mp List.all_takeWhile c (List.mem_reverse.mp hc)
    simpa [p] using hp
  · rw [dropLineEnds, List.getLast?_reverse] at hc
    have hp : p c = false := head?_dropWhile hc
    simpa [p] using hp

/-- There is one such text only. -/
theorem eq_dropLineEnds {s front ends : List Char} (hs : s = front ++ ends)
    (hends : ∀ c ∈ ends, c = '\n' ∨ c = '\r')
    (hlast : ∀ c, front.getLast? = some c → c ≠ '\n' ∧ c ≠ '\r') : front = dropLineEnds s := by
  rw [hs, dropLineEnds_append hends, dropLineEnds]
  have hhead : ∀ c, front.reverse.head? = some c → (c == '\n' || c == '\r') = false := by
    intro c hc
    rw [List.head?_reverse] at hc
    simpa using hlast c hc
  cases hr : front.reverse with
  | nil => rw [← List.reverse_reverse front, hr]; rfl
  | cons c r =>
    rw [hr] at hhead
    rw [List.dropWhile_cons_of_neg (by rw [hhead c rfl]; exact Bool.false_ne_true), ← hr,
      List.reverse_reverse]

theorem fragment_of_becomes {doc out : List Char} (h : Becomes [] doc out) :
    Tool.pygmentize.fragment doc = .ok (dropLineEnds ((after? emptySpan out).getD out)) := by
  rw [Tool.fragment, unwrap, h.rewrite]
  rfl

/-- **The fragment in a wrapping is the marked-up text without the line ends at its end**, whether
the tool puts its empty element in front or not; without it, the text must not begin with one. -/
theorem fragment_wrapped {F : List Char} (h : IsHighlighted F) :
    ∃ G ends, F = G ++ ends ∧ (∀ c ∈ ends, c = '\n' ∨ c = '\r') ∧
      (∀ c, G.getLast? = some c → c ≠ '\n' ∧ c ≠ '\r') ∧
      Tool.pygmentize.fragment (wrapFront ++ (emptySpan ++ F ++ wrapBack)) = .ok G ∧
      (¬ emptySpan <+: F → Tool.pygmentize.fragment (wrapFront ++ (F ++ wrapBack)) = .ok G) := by
  have hlines : ∀ c ∈ ['\n', '\n'], c = '\n' ∨ c = '\r' := by simp
  obtain ⟨ends, hF, hends, hlast⟩ := dropLineEnds_spec F
  refine ⟨dropLineEnds F, ends, hF, hends, hlast, ?_, fun hno => ?_⟩
  · rw [fragment_of_becomes (becomes_wrapped h.emptySpan_append), List.append_assoc, after?_append]
    exact congrArg Except.ok (dropLineEnds_append hlines F)
  · have hnone : after? emptySpan (F ++ ['\n', '\n']) = none := by
      have hmem : '\n' ∉ emptySpan := by decide
      rw [after?, isPrefixOf_append_cons hmem, if_neg]
      rwa [List.isPrefixOf_iff_prefix]
    rw [fragment_of_becomes (becomes_wrapped h), hnone]
    exact congrArg Except.ok (dropLineEnds_append hlines F)

/-- A text with an element in another one, a reference, and a line end. -/
def markedUp : List Char := "<span class=\"k\">a<span>&lt;</span></span>\n".toList

theorem isHighlighted_markedUp : IsHighlighted markedUp := by
  have hspan : lower "span".toList = "span".toList := rfl
  have hnil : '<' ∉ ([] : List Char) := by simp
  have hquote : '"' ∉ ['k'] := by decide
  have hne : "class".toList ≠ [] := by decide
  have hinner := IsHighlighted.span (s := ['a']) (by decide) hspan (.blanks isBlanks_nil)
    (.text (s := "&lt;".toList) (by decide)) hspan isBlanks_nil (.text hnil)
  exact .span hnil hspan (spellsAttrs_single hne goesOnName_class hquote) hinner hspan isBlanks_nil
    (.text (s := ['\n']) (by decide))

/-- The line end at its end goes, and the text comes back, with the empty element in front or without
it. -/
theorem fragment_wrapped_markedUp :
    Tool.pygmentize.fragment (wrapFront ++ (emptySpan ++ markedUp ++ wrapBack))
        = .ok "<span class=\"k\">a<span>&lt;</span></span>".toList ∧
      Tool.pygmentize.fragment (wrapFront ++ (markedUp ++ wrapBack))
        = .ok "<span class=\"k\">a<span>&lt;</span></span>".toList := by
  obtain ⟨G, ends, hF, hends, hlast, hfront, hplain⟩ := fragment_wrapped isHighlighted_markedUp
  have hG : G = "<span class=\"k\">a<span>&lt;</span></span>".toList :=
    (eq_dropLineEnds hF hends hlast).trans (by rfl)
  exact ⟨hG ▸ hfront, hG ▸ hplain (by decide)⟩

end CodeTint
