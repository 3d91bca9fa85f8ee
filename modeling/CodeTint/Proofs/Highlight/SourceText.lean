/-
# Colorizing in process keeps the text

The fragment of a source is the source, escaped, with elements around some of its stretches.  So if
the tags are taken out again (`withoutSpans`), **what is left is the escaped source, with nothing
lost, added or moved** (`withoutSpans_render`), whatever spans the highlighter reported; and a reader
of the block sees the text that was to be colorized (`fragment_text_kept`).
-/
import CodeTint.Proofs.Document.Plan
import CodeTint.Proofs.Highlight.Lexemes
import CodeTint.Proofs.Highlight.Sweep
import CodeTint.Proofs.Markup.Entity
import CodeTint.Proofs.Registry
import CodeTint.Proofs.Text.Cut
import CodeTint.Tool.Shell

namespace CodeTint.Highlight

open CodeTint.Text CodeTint.Markup

/-! ## 1. Taking the tags out -/

/-- What begins the start tag of a span. -/
def openingLead : List Char := "<span class=\"".toList

/-- What ends it. -/
def openingEnd : List Char := "\">".toList

/-- The end tag of a span. -/
def closingTag : List Char := "</span>".toList

/-- What follows the tag of a span that a text begins with; none if it begins with no such tag.  The
class value runs to the next double quote. -/
def behindTag? (s : List Char) : Option (List Char) :=
  match after? closingTag s with
  | some r => some r
  | none => (after? openingLead s).bind fun r => after? openingEnd (r.dropWhile (· != '"'))

theorem behindTag?_length {s r : List Char} (h : behindTag? s = some r) : r.length < s.length := by
  rw [behindTag?] at h
  split at h
  · next r' hr =>
    cases h
    rw [after?_eq_some.mp hr, List.length_append]
    exact Nat.lt_add_of_pos_left (by decide)
  · obtain ⟨r', hr', hr⟩ := Option.bind_eq_some_iff.mp h
    have hle : (r'.dropWhile (· != '"')).length ≤ r'.length := (List.dropWhile_suffix _).length_le
    rw [after?_eq_some.mp hr, List.length_append] at hle
    rw [after?_eq_some.mp hr', List.length_append]
    have hpos : 0 < openingLead.length := by decide
    omega

/-- **A text without the tags of its spans**: every `<span class="…">` and every `</span>` is
deleted, and all else stays. -/
def withoutSpans : List Char → List Char
  | [] => []
  | c :: s =>
    match _h : behindTag? (c :: s) with
    | some r => withoutSpans r
    | none => c :: withoutSpans s
termination_by s => s.length
decreasing_by
  · exact behindTag?_length _h
  · exact Nat.lt_succ_self _

@[simp] theorem withoutSpans_nil : withoutSpans [] = [] := by rw [withoutSpans]

/-- A tag is deleted. -/
theorem withoutSpans_of_behindTag? {s r : List Char} (h : behindTag? s = some r) :
    withoutSpans s = withoutSpans r := by
  cases s with
  | nil =>
    have hlen := behindTag?_length h
    simp at hlen
  | cons c s =>
    rw [withoutSpans]
    split
    · next r' hr => rw [hr] at h; cases h; rfl
    · next hr => rw [hr] at h; cases h

theorem withoutSpans_closing (s : List Char) :
    withoutSpans (closingTag ++ s) = withoutSpans s :=
  withoutSpans_of_behindTag? (by rw [behindTag?, after?_append])

theorem withoutSpans_opening {tag : List Char} (h : '"' ∉ tag) (s : List Char) :
    withoutSpans (openingLead ++ tag ++ openingEnd ++ s) = withoutSpans s := by
  refine withoutSpans_of_behindTag? ?_
  have hno : after? closingTag (openingLead ++ tag ++ openingEnd ++ s) = none := rfl
  have hskip : (tag ++ openingEnd ++ s).dropWhile (· != '"') = openingEnd ++ s := by
    rw [List.append_assoc]
    exact (cut_append h _).2
  rw [behindTag?, hno]
  dsimp only
  rw [List.append_assoc, List.append_assoc, after?_append, Option.bind_some, ← List.append_assoc,
    hskip, after?_append]

/-- No tag begins with another character than `<`. -/
theorem behindTag?_cons_of_ne {c : Char} (h : c ≠ '<') (s : List Char) :
    behindTag? (c :: s) = none := by
  have hclosing : after? closingTag (c :: s) = none := after?_cons_of_ne h _ _
  have hopening : after? openingLead (c :: s) = none := after?_cons_of_ne h _ _
  rw [behindTag?, hclosing, hopening]
  rfl

/-- **Text without a `<` stays as it is.** -/
theorem withoutSpans_append {text : List Char} (h : '<' ∉ text) (s : List Char) :
    withoutSpans (text ++ s) = text ++ withoutSpans s := by
  induction text with
  | nil => rfl
  | cons c text ih =>
    rw [List.mem_cons, not_or] at h
    have hnone := behindTag?_cons_of_ne (Ne.symm h.1) (text ++ s)
    rw [List.cons_append, withoutSpans]
    split
    · next r hr => rw [hnone] at hr; cases hr
    · rw [ih h.2, List.cons_append]

/-! ## 2. What is written -/

theorem write_text (source : List Char) (a b : Nat) :
    Piece.write source (.text a b) = ((slice? a b source).map Entity.encode).getD [] := rfl

theorem write_opening (source : List Char) (tag : String) :
    Piece.write source (.opening tag) = openingLead ++ tag.toList ++ openingEnd := rfl

theorem write_closing (source : List Char) : Piece.write source .closing = closingTag := rfl

/-- **Pieces that join up are written as the text that they cover**, the tags apart. -/
theorem withoutSpans_write {ps : List Piece} (front mid back : List Char)
    (h : Covers (IsBoundary · (front ++ mid ++ back)) (fun t => '"' ∉ t.toList)
      (Utf8.size front) ps (Utf8.size (front ++ mid))) :
    withoutSpans (ps.flatMap (Piece.write (front ++ mid ++ back))) = Entity.encode mid := by
  induction ps generalizing front mid with
  | nil =>
    have hmid : mid = [] := by
      rw [Covers, Utf8.size_append] at h
      exact Utf8.size_eq_zero.mp (by omega)
    rw [hmid, List.flatMap_nil, withoutSpans_nil, Entity.encode_nil]
  | cons p ps ih =>
    rw [List.flatMap_cons]
    cases p with
    | text x y =>
      obtain ⟨rfl, hle, hedge, h⟩ := h
      -- the stretch ends within `mid`, and what follows covers the rest of it
      obtain ⟨mid₁, mid₂, rfl, rfl⟩ := hedge.within hle h.le
      have hslice : slice? (Utf8.size front) (Utf8.size (front ++ mid₁))
          (front ++ (mid₁ ++ mid₂) ++ back) = some mid₁ := by
        rw [← List.append_assoc front, List.append_assoc (front ++ mid₁)]
        exact slice?_append front mid₁ (mid₂ ++ back)
      rw [write_text, hslice, Option.map_some, Option.getD_some,
        withoutSpans_append (Entity.lt_not_mem_encode mid₁), Entity.encode_append]
      rw [← List.append_assoc front] at h ⊢
      rw [ih _ _ h]
    | opening t => rw [write_opening, withoutSpans_opening h.1, ih _ _ h.2]
    | closing => rw [write_closing, withoutSpans_closing, ih _ _ h]

/-- **Rendering keeps the text**, whatever spans were reported. -/
theorem withoutSpans_render {source : List Char} {spans : List Span} (h : Suits source spans) :
    withoutSpans (render source spans) = Entity.encode source := by
  have hcovers : Covers (IsBoundary · source) (fun t => '"' ∉ t.toList) 0
      (sweep (Utf8.size source) (arrange (Utf8.size source) spans)) (Utf8.size source) :=
    covers_sweep h.edges (isBoundary_size source) h.tags
  have hwrite := @withoutSpans_write (sweep (Utf8.size source) (arrange (Utf8.size source) spans))
    [] source []
  rw [List.nil_append, List.append_nil] at hwrite
  exact hwrite hcovers

/-! ## 3. Colorizing -/

/-- **A fragment that is made in process**: the source is escaped, or some spans of it are rendered,
whatever spans the highlighter reports. -/
inductive InProcess (source : List Char) : List Char → Prop
  | escaped : InProcess source (Entity.encode source)
  | rendered {spans : List Span} (h : Suits source spans) : InProcess source (render source spans)

/-- Its text is the source. -/
theorem InProcess.withoutSpans_eq {source fragment : List Char} (h : InProcess source fragment) :
    withoutSpans fragment = Entity.encode source := by
  cases h with
  | escaped =>
    have happ := withoutSpans_append (Entity.lt_not_mem_encode source) []
    rwa [List.append_nil, withoutSpans_nil, List.append_nil] at happ
  | rendered h => exact withoutSpans_render h

theorem InProcess.decode_eq {source fragment : List Char} (h : InProcess source fragment) :
    Entity.decode (withoutSpans fragment) = source := by
  rw [h.withoutSpans_eq, Entity.decode_encode]

/-- The grammars work in process, for every language. -/
theorem Highlighter.inProcess (h : Highlighter) (language : String) (source : List Char) :
    InProcess source (h.colorize language source) := by
  rw [colorize]
  cases h.grammar? language with
  | none => exact .escaped
  | some g => exact .rendered (suits_spans g source)

/-- What a backend reports of a source suits it. -/
def ReportsSuit [Library] (b : BuiltinBackend) (source : List Char) (language : String) : Prop :=
  ∀ captures, ((b.sought language).read language source).1 = .ok captures →
    Suits source (spansOf captures)

/-- The grammars here have their tags for names. -/
theorem spansOf_capturesOf (spans : List Span) : spansOf (capturesOf spans) = spans := by
  rw [spansOf, capturesOf, List.filterMap_map]
  exact List.filterMap_some

/-- **What the grammars report suits every source.** -/
theorem reportsSuit_grammars (b : BuiltinBackend) (source : List Char) (language : String) :
    ReportsSuit b source language := by
  intro captures h
  have hread : ((b.sought language).read language source).1 = b.store.read language source := rfl
  rw [hread, Highlighter.read] at h
  split at h
  · next g _ =>
    cases h
    rw [spansOf_capturesOf]
    exact suits_spans g source
  · cases h

section

variable [Library]

/-- **A backend works in process** on a source that its reports suit. -/
theorem inProcess_of_builtin {b b' : BuiltinBackend} {source fragment : List Char}
    {language : String} (hsuits : ReportsSuit b source language)
    (h : b.colorize source language = (.ok fragment, b')) : InProcess source fragment := by
  rw [BuiltinBackend.colorize] at h
  split at h
  · split at h
    · cases h
    · next captures b'' hread =>
      cases h
      exact .rendered (hsuits captures (by rw [hread]))
  · cases h
    exact .escaped

variable [Programs]

/-- A language that is routed there is colorized in process. -/
theorem inProcess_of_routed {host : Host} {r r' : Registry} {source fragment : List Char}
    {language : String} (hroute : r.options.colorizerFor language = Colorizer.builtin.name)
    (hsuits : ReportsSuit r.builtinBackend source language)
    (h : (Registry.colorize host source language).outcome r = (.ok fragment, r')) :
    InProcess source fragment := by
  rw [Registry.outcome_colorize, Registry.colorizerFor_builtin hroute] at h
  have hanswer : (r.builtinBackend.colorize source language).1 = .ok fragment :=
    congrArg Prod.fst h
  exact inProcess_of_builtin hsuits (Prod.ext hanswer rfl)

/-- Resolving a language does not touch the options. -/
theorem resolve_options {host : Host} {r r' : Registry} {cls : Option (List Char)}
    {text : List Char} {l : Option Language.Resolved}
    (h : (Language.resolve (Registry.engine host).recognizes cls text).outcome r = (.ok l, r')) :
    r'.options = r.options := by
  rw [Document.outcome_resolve] at h
  split at h
  · cases h; rfl
  · cases h; rfl
  · next name _ _ =>
    have hrec : (Registry.engine host).recognizes name = Registry.recognizes (String.ofList name) :=
      rfl
    rw [hrec, Registry.outcome_recognizes] at h
    cases hc : r.colorizerFor (String.ofList name) with
    | error e => rw [hc] at h; cases h
    | ok c =>
      rw [hc] at h
      cases h
      exact (Registry.put_options _ _).trans (r.backend_options c)

open Document in
/-- **Colorizing in process keeps the text.**

* Whatever spans are reported, the fragment of a source is the escaped source once the tags of the
  spans are deleted.
* A backend that works in process gives such fragments, with a grammar or without, if what the library
  reports of the source suits it; with the grammars here it always does.
* So the text of a block's fragment, if it was made in process, is the source that was to be
  colorized; and a registry makes it in process for every language that is routed there. -/
theorem fragment_text_kept :
    (∀ source fragment, InProcess source fragment →
      withoutSpans fragment = Entity.encode source) ∧
    (∀ (b b' : BuiltinBackend) source language fragment, ReportsSuit b source language →
      b.colorize source language = (.ok fragment, b') → InProcess source fragment) ∧
    (∀ (h : Highlighter) language source, InProcess source (h.colorize language source)) ∧
    (∀ (b : @BuiltinBackend grammars) source language, @ReportsSuit grammars b source language) ∧
    (∀ (σ : Type) (e : Engine σ) (b : Block) (s s' : σ) (r : Replacement),
      (planBlock e b).outcome s = (.ok (some r), s') →
        ∃ l s₁, (Language.resolve e.recognizes b.cls (Entity.decode b.text)).outcome s
            = (.ok (some l), s₁) ∧
          (InProcess (Language.source l.origin (Entity.decode b.text)) r.fragment →
            Entity.decode (withoutSpans r.fragment)
              = Language.source l.origin (Entity.decode b.text))) ∧
    ∀ (host : Host) (b : Block) (reg reg' : Registry) (r : Replacement),
      (planBlock (Registry.engine host) b).outcome reg = (.ok (some r), reg') →
        ∃ l reg₁, (Language.resolve (Registry.engine host).recognizes b.cls
            (Entity.decode b.text)).outcome reg = (.ok (some l), reg₁) ∧
          (reg.options.colorizerFor (String.ofList l.name) = Colorizer.builtin.name →
            ReportsSuit reg₁.builtinBackend (Language.source l.origin (Entity.decode b.text))
              (String.ofList l.name) →
            Entity.decode (withoutSpans r.fragment)
              = Language.source l.origin (Entity.decode b.text)) := by
  refine ⟨fun _ _ h => h.withoutSpans_eq, fun _ _ _ _ _ => inProcess_of_builtin,
    Highlighter.inProcess, reportsSuit_grammars, ?_, ?_⟩
  · intro σ e b s s' r h
    obtain ⟨l, s₁, hl, -, -⟩ := planBlock_some.mp h
    exact ⟨l, s₁, hl, InProcess.decode_eq⟩
  · intro host b reg reg' r h
    obtain ⟨l, reg₁, hl, hf, -⟩ := planBlock_some.mp h
    refine ⟨l, reg₁, hl, fun hroute hsuits => InProcess.decode_eq ?_⟩
    rw [← resolve_options hl] at hroute
    exact inProcess_of_routed hroute hsuits hf

end

/-- Spans that overlap, repeat, come out of order and reach past the end, in a source with a
character of two bytes and one that is escaped. -/
def tangle : List Span := [⟨3, 5, "k"⟩, ⟨0, 4, "s"⟩, ⟨0, 4, "c"⟩, ⟨2, 3, "c"⟩, ⟨2, 4, "n"⟩, ⟨4, 9, "e"⟩]

/-- A block in a language without a grammar, with a blank line in front. -/
def note : Document.Block := ⟨some "x language-k".toList, "\n a &lt; b \n".toList⟩

theorem fragment_text_kept_tangle :
    InProcess "é<ab".toList (render "é<ab".toList tangle) ∧
      render "é<ab".toList tangle
        = ("<span class=\"c\">é<span class=\"n\"><span class=\"c\">&lt;</span>a</span>" ++
            "</span>b").toList ∧
      withoutSpans (render "é<ab".toList tangle) = "é&lt;ab".toList ∧
      ((Document.planBlock (Registry.engine ⟨.dir [], [], none⟩) note).outcome
          (Registry.create {} none)).1 = .ok (some ⟨none, " a &lt; b".toList⟩) ∧
      Entity.decode (withoutSpans " a &lt; b".toList)
        = Language.source .className (Entity.decode note.text) := by
  have h : InProcess "é<ab".toList (render "é<ab".toList tangle) := .rendered (by decide +kernel)
  have hsort : (tangle.filter (Span.fits 5)).mergeSort Span.before
      = [⟨0, 4, "s"⟩, ⟨0, 4, "c"⟩, ⟨2, 4, "n"⟩, ⟨2, 3, "c"⟩, ⟨3, 5, "k"⟩] := by
    simp [tangle, Span.fits, Span.before, List.mergeSort, List.MergeSort.Internal.splitInTwo]
  have harrange : arrange (Utf8.size "é<ab".toList) tangle
      = [⟨0, 4, "c"⟩, ⟨2, 4, "n"⟩, ⟨2, 3, "c"⟩, ⟨3, 5, "k"⟩] :=
    (congrArg lastOfEach hsort).trans (by decide)
  have hplan : ((Document.planBlock (Registry.engine ⟨.dir [], [], none⟩) note).outcome
      (Registry.create {} none)).1 = .ok (some ⟨none, " a &lt; b".toList⟩) := by decide +kernel
  have hresolve : ((Language.resolve (Registry.engine ⟨.dir [], [], none⟩).recognizes note.cls
      (Entity.decode note.text)).outcome (Registry.create {} none)).1
        = .ok (some ⟨"k".toList, .className⟩) := by decide +kernel
  refine ⟨h, ?_, (fragment_text_kept.1 _ _ h).trans (by decide +kernel), hplan, ?_⟩
  · rw [render, harrange]
    decide +kernel
  · obtain ⟨l, reg, hl, htext⟩ := fragment_text_kept.2.2.2.2.2 _ _ _ _ _ (Prod.ext hplan rfl)
    rw [hl] at hresolve
    cases hresolve
    exact htext (by decide +kernel) (reportsSuit_grammars _ _ _)

end CodeTint.Highlight
