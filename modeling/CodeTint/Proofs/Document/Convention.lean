/-
# The convention in the whole output

Void tags come into the output in two ways: from the document, as the dialect writes them, and in
the fragments, as whoever colorizes has written them.  A fragment is put in place as it is, so **the
output keeps the convention just if every fragment does** (`conventional_iff`).

To say that, what is written for a block has to be read as a piece of its own.  It is if it `Fits`:
in front of what follows the block in the document it is read up to there, and leaves reading where
the old content left it.  A fragment that leaves a comment or an `svg` open does not fit; then what
is behind it is read otherwise, and a void tag of the document may not be one any more.

In xhtml an open element of a void name takes its content with it, as in all that is said about the
output's frame, and it is left out here for the same reason.
-/
import CodeTint.Highlight.Grammar
import CodeTint.Proofs.Document.Frame
import CodeTint.Proofs.Markup.Rereading
import CodeTint.Registry
import CodeTint.Tool.Shell

namespace CodeTint.Document

open CodeTint.Markup

variable {pick : Selector} {d : Dialect} {plan : List (Option Replacement)} {es : List Event}
  {out : List (List Char)} {doc : List Char}

/-! ## 1. What is written for a block -/

/-- **What is written for a block that is colorized**: its start tag, and the fragment if there is a
place for it. -/
def Replacement.piece (r : Replacement) (p : Place) : List Char :=
  r.tagOf p.tag ++ if p.isOpen then r.fragment else []

/-- **A text fits where some events of a document were read**: in front of what follows them, it is
read up to there as the given events, and reading stands there as it did. -/
def Fits (doc : List Char) (front old : List Event) (s : List Char) (new : List Event) : Prop :=
  ∃ ctx m u ctx' m' u', Reads .start .content doc front ctx m u ∧ Reads ctx m u old ctx' m' u' ∧
    Reads ctx m (s ++ u') new ctx' m' u'

instance (doc : List Char) (front old : List Event) (s : List Char) (new : List Event) :
    Decidable (Fits doc front old s new) :=
  decidable_of_iff (∃ x ∈ readOn .start .content front.length doc, x.1 = front ∧
      ∃ y ∈ readOn x.2.1 x.2.2.1 old.length x.2.2.2, y.1 = old ∧
        readOn x.2.1 x.2.2.1 new.length (s ++ y.2.2.2) = some (new, y.2)) <| by
    constructor
    · rintro ⟨⟨_, ctx, m, u⟩, hx, rfl, ⟨_, ctx', m', u'⟩, hy, rfl, hz⟩
      exact ⟨ctx, m, u, ctx', m', u', readOn_eq_some.mp hx, readOn_eq_some.mp hy,
        readOn_eq_some.mp hz⟩
    · rintro ⟨ctx, m, u, ctx', m', u', hx, hy, hz⟩
      exact ⟨_, readOn_eq_some.mpr hx, rfl, _, readOn_eq_some.mpr hy, rfl, readOn_eq_some.mpr hz⟩

/-- A block begins with its start tag, whatever class value is set. -/
theorem Replacement.isMarkup_tagOf (r : Replacement) {t : Tag} (ht : t.IsRead) (s : List Char) :
    isMarkup (r.tagOf t ++ s) = true := by
  obtain ⟨x, name, back, hx, hname, hraw⟩ := ht.letter
  rw [tagOf]
  cases r.cls with
  | none =>
    rw [Option.map_none, Option.getD_none, hraw]
    exact opensMarkup_letter hx _
  | some v =>
    rw [Option.map_some, Option.getD_some, Tag.withAttr, hname]
    exact opensMarkup_letter hx _

/-- **A piece that fits stands for its block.** -/
theorem standsFor_piece {p : Place} {r : Replacement} {back new : List Event} {ctx ctx' : Context}
    {m m' : Mode} {u u' : List Char} (hfront : Reads .start .content doc p.before ctx m u)
    (hblock : Reads ctx m u (p.event :: back) ctx' m' u')
    (hfit : Fits doc p.before (p.event :: back) (r.piece p) new) :
    StandsFor ctx m u (r.piece p) new ctx' m' u' := by
  obtain ⟨ctx₁, m₁, u₁, ctx₂, m₂, u₂, hfront', hblock', hnew⟩ := hfit
  obtain ⟨rfl, rfl, rfl⟩ := hfront'.unique hfront
  obtain ⟨rfl, rfl, rfl⟩ := hblock'.unique hblock
  intro tail htail
  have hraw : new.flatMap Event.raw = r.piece p := List.append_cancel_right hnew.raw_append
  obtain ⟨hread, hsame⟩ := hnew.standsFor (hfront.isLettered isLettered_content) tail htail
  rw [hraw] at hread hsame
  refine ⟨hread, ?_⟩
  -- both begin with a start tag
  cases hblock with
  | step he _ =>
    obtain ⟨rfl, rfl, ht⟩ := start_of_next (token_of_event_start he)
    refine ⟨fun hnil => absurd hnil (List.cons_ne_nil _ _), fun _ => ?_⟩
    rw [Replacement.piece, List.append_assoc]
    exact r.isMarkup_tagOf ht _

/-- The blocks that are colorized, one by one. -/
theorem forall_colorizedAt_iff {C : Place → Replacement → Prop} :
    (∀ p r, ColorizedAt pick plan es p r → C p r) ↔
      ∀ p ∈ places es, ∀ r ∈ ((blockNo? pick p).bind (plan[·]?)).join, C p r := by
  have hentry : ∀ p r, r ∈ ((blockNo? pick p).bind (plan[·]?)).join ↔
      ∃ i, blockNo? pick p = some i ∧ plan[i]? = some (some r) := by
    intro p r
    rw [Option.mem_def, Option.join_eq_some_iff, Option.bind_eq_some_iff]
  constructor
  · exact fun h p hp r hr => h p r ⟨hp, (hentry p r).mp hr⟩
  · exact fun h p r hp => h p hp.1 r ((hentry p r).mpr hp.2)

/-! ## 2. One event after the other -/

/-- **An event where no block is colorized** is written as the dialect has it. -/
theorem Framed.getElem?_event (hf : Framed pick d plan es out) {front back : List Event} {e : Event}
    (hes : es = front ++ e :: back) (hout : ¬ InsideColorized pick plan es front.length)
    (hnone : ∀ p r, ColorizedAt pick plan es p r → p.before.length ≠ front.length) :
    out[front.length]? = some (d.event e).raw := by
  have hprefix : front ++ [e] <+: es := ⟨back, by rw [hes]; simp⟩
  have hk : es[front.length]? = some e := by rw [hes]; simp
  cases e with
  | start t isOpen =>
    have hp := mem_places_of_prefix hprefix
    have htag := hf.tag _ hp (fun r hr => hnone _ r hr rfl) hout
    rw [htag, Dialect.event, Event.raw, Dialect.raw_tag]
  | _ => exact hf.rest _ _ hk rfl hout

/-- **A block that is colorized** is written as its piece, up to where its content ended. -/
theorem Framed.flatten_block (hf : Framed pick d plan es out) {p : Place} {r : Replacement}
    (hp : ColorizedAt pick plan es p r) :
    (out.drop p.before.length).flatten
      = r.piece p ++ (out.drop (p.before.length + 1 + (p.inside es).length)).flatten := by
  obtain ⟨hlt, hpiece⟩ := List.getElem?_eq_some_iff.mp (hf.block p r hp)
  have hnil : ((out.drop (p.before.length + 1)).take (p.inside es).length).flatten = [] := by
    rw [List.flatten_eq_nil_iff]
    intro s hs
    obtain ⟨j, hj, rfl⟩ := List.mem_iff_getElem.mp hs
    rw [List.length_take] at hj
    have hin : InsideColorized pick plan es (p.before.length + 1 + j) :=
      ⟨p, r, hp, by omega, by omega⟩
    obtain ⟨_, hnone⟩ := List.getElem?_eq_some_iff.mp (hf.content _ hin)
    rw [List.getElem_take, List.getElem_drop]
    exact hnone
  rw [List.drop_eq_getElem_cons hlt, hpiece, List.flatten_cons, Replacement.piece,
    ← List.take_append_drop (p.inside es).length (out.drop (p.before.length + 1)),
    List.flatten_append, hnil, List.nil_append, List.drop_drop]

/-- No block begins inside of one that is colorized. -/
theorem Framed.not_inside (hf : Framed pick d plan es out) (hraw : ∀ e ∈ es, e.raw ≠ []) {p : Place}
    {r : Replacement} (hp : ColorizedAt pick plan es p r) :
    ¬ InsideColorized pick plan es p.before.length := by
  intro hin
  have hpiece := hf.block p r hp
  rw [hf.content _ hin] at hpiece
  have hmem : p.event ∈ es := (prefix_of_mem_places hp.1).subset (by simp)
  exact r.tagOf_ne_nil (hraw _ hmem) (List.append_eq_nil_iff.mp (Option.some.inj hpiece).symm).1

/-- Two places at which as many events stand in front are one. -/
theorem eq_of_length_before {p q : Place} (hp : p ∈ places es) (hq : q ∈ places es)
    (h : p.before.length = q.before.length) : p = q := by
  have hle : (p.before ++ [p.event]).length ≤ (q.before ++ [q.event]).length := by simp [h]
  have hpre := List.prefix_of_prefix_length_le (prefix_of_mem_places hp) (prefix_of_mem_places hq)
    hle
  have heq := hpre.eq_of_length (by simp [h])
  obtain ⟨hbefore, hevent⟩ := List.append_inj' heq rfl
  obtain ⟨before, t, isOpen⟩ := p
  obtain ⟨before', t', isOpen'⟩ := q
  cases hbefore
  cases hevent
  rfl

/-- How many events there are up to the end of an element's content. -/
theorem Place.length_through (p : Place) (es : List Event) :
    (p.before ++ p.event :: p.inside es).length = p.before.length + 1 + (p.inside es).length := by
  rw [List.length_append, List.length_cons]
  omega

/-- **Behind a colorized block** nothing is inside of one any more. -/
theorem Framed.outside_behind (hf : Framed pick d plan es out) (hraw : ∀ e ∈ es, e.raw ≠ [])
    {p : Place} {r : Replacement} (hp : ColorizedAt pick plan es p r) :
    ¬ InsideColorized pick plan es (p.before ++ p.event :: p.inside es).length := by
  rintro ⟨q, r', hq, hlt, hle⟩
  rw [p.length_through] at hlt hle
  rcases Nat.lt_trichotomy q.before.length p.before.length with h | h | h
  · exact hf.not_inside hraw hp ⟨q, r', hq, h, by omega⟩
  · rw [eq_of_length_before hq.1 hp.1 h] at hle
    omega
  · exact hf.not_inside hraw hq ⟨p, r, hp, h, by omega⟩

/-- What holds of a colorized block and of those that begin behind it holds of all from it on. -/
theorem Framed.forall_blocks_from (hf : Framed pick d plan es out) (hraw : ∀ e ∈ es, e.raw ≠ [])
    {p : Place} {r : Replacement} (hp : ColorizedAt pick plan es p r) (C : Place → Prop) :
    (C p ∧ ∀ q r', ColorizedAt pick plan es q r' →
        (p.before ++ p.event :: p.inside es).length ≤ q.before.length → C q) ↔
      ∀ q r', ColorizedAt pick plan es q r' → p.before.length ≤ q.before.length → C q := by
  rw [p.length_through]
  constructor
  · rintro ⟨hone, hlater⟩ q r' hq hle
    rcases Nat.eq_or_lt_of_le hle with h | h
    · rw [← eq_of_length_before hp.1 hq.1 h]
      exact hone
    · -- it does not begin inside of the block
      refine hlater q r' hq (by_contra fun hlt => hf.not_inside hraw hq ⟨p, r, hp, h, ?_⟩)
      omega
  · intro hall
    exact ⟨hall p r hp (Nat.le_refl _), fun q r' hq hle => hall q r' hq (by omega)⟩

/-- Behind an event where no block is colorized nothing is inside of one that was not before. -/
theorem outside_concat {front : List Event}
    (hout : ¬ InsideColorized pick plan es front.length)
    (hnone : ∀ p r, ColorizedAt pick plan es p r → p.before.length ≠ front.length) (e : Event) :
    ¬ InsideColorized pick plan es (front ++ [e]).length := by
  rintro ⟨q, r, hq, hlt, hle⟩
  have hne := hnone q r hq
  rw [List.length_append, List.length_singleton] at hlt hle
  exact hout ⟨q, r, hq, by omega, by omega⟩

/-- The blocks behind such an event are those from it on. -/
theorem forall_blocks_concat {front : List Event}
    (hnone : ∀ p r, ColorizedAt pick plan es p r → p.before.length ≠ front.length) (e : Event)
    (C : Place → Prop) :
    (∀ q r, ColorizedAt pick plan es q r → (front ++ [e]).length ≤ q.before.length → C q) ↔
      ∀ q r, ColorizedAt pick plan es q r → front.length ≤ q.before.length → C q := by
  refine forall₃_congr fun q r hq => imp_congr_left ?_
  have hne := hnone q r hq
  rw [List.length_append, List.length_singleton]
  omega

/-- **The whole output stands for the document**, from any place on that is not inside of a
colorized block, and keeps the convention just if the blocks do that begin there or later. -/
theorem standsFor_framed (hf : Framed pick d plan es out) (hraw : ∀ e ∈ es, e.raw ≠ [])
    {read : Place → List Event}
    (hfit : ∀ p r, ColorizedAt pick plan es p r →
      Fits doc p.before (p.event :: p.inside es) (r.piece p) (read p))
    {front back : List Event} (hes : es = front ++ back)
    (hout : ¬ InsideColorized pick plan es front.length) {ctx ctx' : Context} {m m' : Mode}
    {u u' : List Char} (hfront : Reads .start .content doc front ctx m u)
    (hback : Reads ctx m u back ctx' m' u') :
    ∃ new, StandsFor ctx m u (out.drop front.length).flatten new ctx' m' u' ∧
      (d.Conventional new ↔ ∀ p r, ColorizedAt pick plan es p r →
        front.length ≤ p.before.length → d.Conventional (read p)) := by
  -- on how much there is to read: a block is passed with all its content
  induction hn : back.length using Nat.strongRecOn generalizing front back ctx m u with
  | ind n ih =>
  cases back with
  | nil =>
    have hlen : out.length = front.length := by rw [hf.length, hes, List.append_nil]
    have hend : out.drop front.length = [] := List.drop_eq_nil_of_le (Nat.le_of_eq hlen)
    cases hback
    rw [hend]
    refine ⟨[], .nil, iff_of_true d.conventional_nil fun p r hp hle => ?_⟩
    have hlt := (prefix_of_mem_places hp.1).length_le
    rw [hes, List.append_nil, List.length_append, List.length_singleton] at hlt
    omega
  | cons e back =>
    have hm := hfront.isLettered isLettered_content
    by_cases hblock : ∃ p r, ColorizedAt pick plan es p r ∧ p.before.length = front.length
    · obtain ⟨p, r, hp, hlen⟩ := hblock
      have hsplit := Place.split hp.1
      obtain ⟨rfl, hcons⟩ := List.append_inj (hes.symm.trans hsplit) hlen.symm
      obtain ⟨rfl, rfl⟩ := List.cons.inj hcons
      rw [← List.cons_append] at hback
      obtain ⟨ctx₁, m₁, u₁, hmid, hrest⟩ := hback.split
      have hsplit' : es = (p.before ++ p.event :: p.inside es) ++ p.behind es := by
        rw [List.append_assoc, List.cons_append]
        exact hsplit
      have hless : (p.behind es).length < n := by
        rw [← hn, List.length_cons, List.length_append]
        omega
      obtain ⟨new, hstands, hconv⟩ := ih _ hless hsplit' (hf.outside_behind hraw hp)
        (hfront.append hmid) hrest rfl
      refine ⟨read p ++ new, ?_, ?_⟩
      · rw [hf.flatten_block hp, ← p.length_through]
        exact (standsFor_piece hfront hmid (hfit p r hp)).append hstands
      · rw [d.conventional_append, hconv]
        exact hf.forall_blocks_from hraw hp fun q => d.Conventional (read q)
    · have hnone : ∀ p r, ColorizedAt pick plan es p r → p.before.length ≠ front.length :=
        fun p r hp h => hblock ⟨p, r, hp, h⟩
      have hlength : (front ++ [e]).length = front.length + 1 := by simp
      obtain ⟨hlt, hpiece⟩ := List.getElem?_eq_some_iff.mp (hf.getElem?_event hes hout hnone)
      cases hback with
      | @step _ ctx₁ _ _ _ _ _ _ _ _ _ he hrest =>
        obtain ⟨new, hstands, hconv⟩ := ih back.length (hn ▸ Nat.lt_succ_self _)
          (by rw [hes]; simp) (outside_concat hout hnone e) (hfront.append (.step he .done))
          hrest rfl
        refine ⟨[d.eventIn ctx₁.current e] ++ new, ?_, ?_⟩
        · rw [List.drop_eq_getElem_cons hlt, hpiece, List.flatten_cons, ← hlength]
          exact (standsFor_eventIn d hm he).append hstands
        · rw [d.conventional_append, hconv, and_iff_right (d.conventional_eventIn _ e)]
          exact forall_blocks_concat hnone e fun q => d.Conventional (read q)

/-! ## 3. The whole output -/

variable {σ : Type}

/-- **The convention in the whole output.**  Let a document be colorized, in xhtml without an open
element of a void name.  Let what is written for each colorized block fit where the block stood, and
be read as `read` says.  Then the output can be read, and it keeps the convention of the dialect
just if every one of these pieces does: it is broken by nothing but a void tag in a fragment. -/
theorem conventional_iff {e : Engine σ} {o : Options} {doc : List Char} {s s' : σ} {c : Colorized}
    (h : (colorize e o doc).outcome s = (.ok c, s')) :
    ∃ es blocks plan, events doc = .ok es ∧ collect o.blocks doc = .ok blocks ∧
      (blocks.mapM (planBlock e)).outcome s = (.ok plan, s') ∧
      ((o.dialect = .xhtml → ∀ t, .start t true ∈ es → t.isVoid = false) →
        ∀ read : Place → List Event,
          (∀ p r, ColorizedAt o.blocks plan es p r →
            Fits doc p.before (p.event :: p.inside es) (r.piece p) (read p)) →
          ∃ es', events c.html = .ok es' ∧
            (o.dialect.Conventional es' ↔
              ∀ p r, ColorizedAt o.blocks plan es p r → o.dialect.Conventional (read p))) := by
  obtain ⟨es, blocks, plan, he, -, hc, hp, -, -, hframe⟩ := html_framed h
  refine ⟨es, blocks, plan, he, hc, hp, fun hvoid read hfit => ?_⟩
  obtain ⟨out, hhtml, hf⟩ := hframe hvoid
  obtain ⟨ctx', m', hreads⟩ := reads_of_eventsFrom he
  have hout : ¬ InsideColorized o.blocks plan es ([] : List Event).length := by
    rintro ⟨p, r, -, hlt, -⟩
    exact absurd hlt (Nat.not_lt_zero _)
  obtain ⟨es', hstands, hconv⟩ := standsFor_framed hf (fun _ => raw_ne_nil he) hfit rfl hout .done
    hreads
  obtain ⟨hagain, -⟩ := hstands [] ⟨fun h => h, fun h => h⟩
  rw [List.append_nil, List.length_nil, List.drop_zero, ← hhtml] at hagain
  refine ⟨es', events_of_reads hagain, hconv.trans ?_⟩
  exact forall₃_congr fun p r _ => ⟨fun hall => hall (Nat.zero_le _), fun hall _ => hall⟩

/-- A document with a void tag around a block, and one in what the block's text says. -/
def breaking : List Char :=
  "<BR><pre><code class=\"language-k\">a&lt;br /&gt;</code></pre><hr>".toList

theorem conventional_iff_breaking :
    (colorize verbatim { dialect := .xhtml } breaking).outcome ()
        = (.ok ⟨"<br /><pre><code class=\"language-k\">a<br /></code></pre><hr />".toList, 1, 0⟩,
          ()) ∧
      ∃ es, events "<br /><pre><code class=\"language-k\">a<br /></code></pre><hr />".toList
          = .ok es ∧ Dialect.xhtml.Conventional es := by
  have h : (colorize verbatim { dialect := .xhtml } breaking).outcome ()
      = (.ok ⟨"<br /><pre><code class=\"language-k\">a<br /></code></pre><hr />".toList, 1, 0⟩,
        ()) := by decide +kernel
  obtain ⟨es, blocks, plan, he, hc, hp, hlaw⟩ := conventional_iff h
  obtain rfl : es = (events breaking).toOption.getD [] := by rw [he]; rfl
  obtain rfl : blocks = (collect (Options.blocks {}) breaking).toOption.getD [] := by
    rw [show collect (Options.blocks {}) breaking = .ok blocks from hc]
    rfl
  obtain rfl : plan = [some ⟨none, "a<br />".toList⟩] := by
    have hplan : (((collect (Options.blocks {}) breaking).toOption.getD []).mapM
        (planBlock verbatim)).outcome () = (.ok [some ⟨none, "a<br />".toList⟩], ()) := by
      decide +kernel
    rw [hplan] at hp
    cases hp
    rfl
  have hopen : ((events breaking).toOption.getD []).any Event.opensVoid = false := by
    decide +kernel
  -- the piece, as it is read in HTML
  obtain ⟨es', he', hconv⟩ := hlaw
    (fun _ t ht => by simpa [Event.opensVoid] using List.any_eq_false.mp hopen _ ht)
    (fun _ => (events "<code class=\"language-k\">a<br />".toList).toOption.getD [])
    (forall_colorizedAt_iff.mpr (by decide +kernel))
  exact ⟨h, es', he', hconv.mpr (forall_colorizedAt_iff.mpr (by decide +kernel))⟩

/-- A document that can be read, and is found not to keep the convention. -/
theorem exists_unconventional {doc : List Char}
    (h : ((events doc).toOption.any fun es => !decide (d.Conventional es)) = true) :
    ∃ es, events doc = .ok es ∧ ¬ d.Conventional es := by
  cases he : events doc with
  | error a =>
    rw [he] at h
    cases h
  | ok es =>
    rw [he, Except.toOption, Option.any_some, Bool.not_eq_true', decide_eq_false_iff_not] at h
    exact ⟨es, rfl, h⟩

/-- A machine with a tool that writes a void tag with a slash. -/
def slashing : Host :=
  ⟨.dir [("tools", .dir [("highlight",
    .file (Text.Utf8.encode "#!/bin/sh\nprintf \"a<br/>b\"\n".toList) true)])], [], none⟩

/-- The options with that tool. -/
def withSlashes : Options := { defaultColorizer := "simon_highlight", searchPath := some "tools" }

/-- What the tool has written is put in place as it is. -/
theorem colorize_slashing :
    ((colorize (Registry.engine slashing) withSlashes
          "<pre><code class=\"language-k\">x</code></pre>".toList).outcome
        (Registry.create withSlashes none)).1
      = .ok ⟨"<pre><code class=\"language-k\">a<br/>b</code></pre>".toList, 1, 0⟩ := by
  decide +kernel

/-- **What breaks the convention**: a void tag in the fragment of a tool, in html.  Without one,
what is behind may be read otherwise: in xhtml if an element loses its end tag, and the document
goes on in foreign content; in html if the old content left foreign content open, and the new one
does not. -/
theorem convention_broken :
    ((colorize (Registry.engine slashing) withSlashes
          "<pre><code class=\"language-k\">x</code></pre>".toList).outcome
        (Registry.create withSlashes none)).1
        = .ok ⟨"<pre><code class=\"language-k\">a<br/>b</code></pre>".toList, 1, 0⟩ ∧
      (∃ es, events "<pre><code class=\"language-k\">a<br/>b</code></pre>".toList = .ok es ∧
        ¬ Dialect.html.Conventional es) ∧
      (colorize verbatim { dialect := .xhtml }
          "<svg><link></svg><style><br></style>".toList).outcome ()
        = (.ok ⟨"<svg><link /><style><br></style>".toList, 0, 0⟩, ()) ∧
      (∃ es, events "<svg><link /><style><br></style>".toList = .ok es ∧
        ¬ Dialect.xhtml.Conventional es) ∧
      (colorize verbatim {}
          "<pre><code class=\"language-k\">a<svg></code></pre><![CDATA[><br/>]]>".toList).outcome ()
        = (.ok ⟨"<pre><code class=\"language-k\">a</code></pre><![CDATA[><br/>]]>".toList, 1, 0⟩,
          ()) ∧
      ∃ es, events "<pre><code class=\"language-k\">a</code></pre><![CDATA[><br/>]]>".toList
          = .ok es ∧ ¬ Dialect.html.Conventional es :=
  ⟨colorize_slashing, exists_unconventional (by decide +kernel), by decide +kernel,
    exists_unconventional (by decide +kernel), by decide +kernel,
    exists_unconventional (by decide +kernel)⟩

end CodeTint.Document
