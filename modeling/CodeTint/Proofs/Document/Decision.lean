/-
# What decides about a block

Five things come together for one block: the words of its class value, the character references in its
text, the marker line, the colorizer that the language is routed to, and whether that recognizes it.
This file says what comes before what, for a registry in any state and whatever the backends answer
(`block_decided`).

A registry that is watched (`Registry.watched`) tells which backends are called, and listening to it
(`Engine.heard`) tells what was asked.  Each way through a block is a lemma: the class value names a
language (`decision_named`), a marker is trusted to a colorizer (`decision_marked`), neither
(`decision_left`).
-/
import CodeTint.Proofs.Document.Questions
import CodeTint.Proofs.Language.ClassValue
import CodeTint.Proofs.Registry.Calls

namespace CodeTint.Document

open CodeTint.Markup
open CodeTint.Text (trimEnd words)
open CodeTint.Language (NamesFirst Trims bind_ofClass?_eq_none bind_ofClass?_eq_some classWord
  classWord_mem_ensureClass ensureClass marker?_eq_some marker?_iff_marked trims_trimBlankLines
  wordsOf)
open CodeTint.Registry (Call Watched World watched watched_agree watched_colorize
  watched_recognizes)

/-! ## 1. The ways through a block -/

/-- The name that an engine was asked to recognize. -/
def Question.candidate? : Question → Option (List Char)
  | .recognizes language => some language
  | .colorize _ _ => none

/-- **The class gains the language's word**, if it named no language. -/
theorem class_gains {b : Block} {name : List Char} (hclass : b.cls.bind Language.ofClass? = none)
    (hname : Language.PlainName name) :
    newClass b.cls name = some (ensureClass b.cls name) ∧
      classWord name ∈ words (ensureClass b.cls name) ∧ classWord name ∉ wordsOf b.cls := by
  have hgone : classWord name ∉ wordsOf b.cls :=
    fun hmem => hname.ne_nil (bind_ofClass?_eq_none.mp hclass name hmem)
  have hthere := classWord_mem_ensureClass
    (fun c hc => Language.isSpace_of_isBlank (hname.isBlank hc)) b.cls
  refine ⟨?_, hthere, hgone⟩
  rw [newClass, if_neg]
  intro hsame
  rw [wordsOf, hsame, Option.getD_some] at hgone
  exact hgone hthere

section

variable [Highlight.Library]

/-- **A block colorized by a backend.**  After some other calls the backend is called once, with the
source and the language.  What it answers goes into the block, with the class value. -/
structure ColorizedBy (w : World) (s : Watched) (others : List Call) (backend : Backend)
    (source name : List Char) (cls : Option (List Char))
    (result : Except Error (Option Replacement)) (s' : Watched) : Prop where
  calls : s'.calls = s.calls ++ others ++ [.colorize backend source (String.ofList name)]
  result : result = (w.answer (s.calls ++ others) backend source (String.ofList name)).map
    fun fragment => some ⟨cls, fragment⟩

variable {w : World} {s : Watched} {b : Block} {name : List Char} {c : Colorizer}

/-- A block whose language is routed to a colorizer is colorized by its backend. -/
theorem colorizedBy_of_routed {others : List Call} (s₁ : Watched) (l : Language.Resolved)
    (hcalls : s₁.calls = s.calls ++ others)
    (hc : s₁.registry.colorizerFor (String.ofList l.name) = .ok c) (w : World) (b : Block)
    (qs : List Question) :
    ColorizedBy w s others (s₁.registry.backend c).1
      (Language.source l.origin (Entity.decode b.text)) l.name (newClass b.cls l.name)
      (colorizeBlock (watched w) b l s₁ qs).1 (colorizeBlock (watched w) b l s₁ qs).2.1 := by
  rw [colorizeBlock]
  dsimp only
  rw [watched_colorize, hc]
  dsimp only
  rw [hcalls]
  exact ⟨rfl, rfl⟩

/-- A registry whose backend for a colorizer was made, and asked whether it supports a language. -/
def afterSupports (s : Watched) (c : Colorizer) (language : String) : Watched :=
  ⟨(s.registry.backend c).2.put ((s.registry.backend c).1.supports language).2,
    s.calls ++ [.supports (s.registry.backend c).1 language]⟩

/-- **A block with a marker**: the backend is made that the language is routed to, and if that supports
the language the block is colorized. -/
theorem watched_marked (hclass : b.cls.bind Language.ofClass? = none)
    (hmarker : Language.marker? (Entity.decode b.text) = some name) (w : World) (s : Watched) :
    (planBlock (watched w).heard b).outcome (s, [])
      = match s.registry.colorizerFor (String.ofList name) with
        | .error x => (.error x, s, [.recognizes name])
        | .ok c =>
          if ((s.registry.backend c).1.supports (String.ofList name)).1 then
            colorizeBlock (watched w) b ⟨name, .marker⟩ (afterSupports s c (String.ofList name))
              [.recognizes name]
          else (.ok none, afterSupports s c (String.ofList name), [.recognizes name]) := by
  rw [heard_marked hclass hmarker, watched_recognizes]
  cases s.registry.colorizerFor (String.ofList name) with
  | error x => rfl
  | ok c =>
    dsimp only
    cases ((s.registry.backend c).1.supports (String.ofList name)).1 with
    | false => rfl
    | true => rfl

/-- **A block whose class value names a language** goes to the backend of that language. -/
theorem decision_named (hn : NamesFirst b.cls name) (w : World) (s : Watched) :
    let out := (planBlock (watched w).heard b).outcome (s, [])
    let source := Language.source .className (Entity.decode b.text)
    out.2.2 = [.colorize source name] ∧
      ∀ c, s.registry.colorizerFor (String.ofList name) = .ok c →
        ColorizedBy w s [] (s.registry.backend c).1 source name (newClass b.cls name) out.1
          out.2.1 := by
  intro out source
  have hout : out = colorizeBlock (watched w) b ⟨name, .className⟩ s [] :=
    heard_named (bind_ofClass?_eq_some.mpr hn) s
  rw [hout]
  refine ⟨rfl, fun c hc => ?_⟩
  exact colorizedBy_of_routed s ⟨name, .className⟩ (List.append_nil _).symm hc w b []

/-- **A block with a marker** that is trusted to a colorizer goes to its backend, as that is when it has
been asked. -/
theorem decision_marked (hclass : b.cls.bind Language.ofClass? = none)
    (hmarker : Language.marker? (Entity.decode b.text) = some name)
    (hc : s.registry.Trusts (String.ofList name) c) (w : World) :
    let out := (planBlock (watched w).heard b).outcome (s, [])
    let source := Language.source .marker (Entity.decode b.text)
    out.2.2 = [.recognizes name, .colorize source name] ∧
      ColorizedBy w s [.supports (s.registry.backend c).1 (String.ofList name)]
        ((s.registry.backend c).1.supports (String.ofList name)).2 source name
        (newClass b.cls name) out.1 out.2.1 := by
  intro out source
  obtain ⟨hrouted, hsupports⟩ := Registry.trusts_iff.mp hc
  have hout : out = _ := watched_marked hclass hmarker w s
  rw [hrouted] at hout
  dsimp only at hout
  rw [if_pos hsupports] at hout
  rw [hout]
  refine ⟨rfl, ?_⟩
  -- the backend that was made to recognize the language is there to colorize it
  have hagain : (afterSupports s c (String.ofList name)).registry.colorizerFor (String.ofList name)
      = .ok c :=
    (Registry.colorizerFor_congr ((Registry.put_options _ _).trans (s.registry.backend_options c))
      _).trans hrouted
  have hcolorized := colorizedBy_of_routed (afterSupports s c (String.ofList name)) ⟨name, .marker⟩
    rfl hagain w b [.recognizes name]
  rwa [afterSupports, Registry.backend_put_supports] at hcolorized

/-- **Any other block** is left alone, unless its marker's language is routed to no colorizer. -/
theorem decision_left (hclass : b.cls.bind Language.ofClass? = none)
    (hleft : ∀ name c, Language.marker? (Entity.decode b.text) = some name →
      ¬ s.registry.Trusts (String.ofList name) c) (w : World) :
    let out := (planBlock (watched w).heard b).outcome (s, [])
    out.2.1.jobs = s.jobs ∧ (out.1 = .ok none ∨ ∃ name x,
      Language.marker? (Entity.decode b.text) = some name ∧
        s.registry.colorizerFor (String.ofList name) = .error x ∧ out.1 = .error x) := by
  intro out
  cases hmarker : Language.marker? (Entity.decode b.text) with
  | none =>
    have hout : out = (.ok none, s, []) := heard_nameless hclass hmarker s
    rw [hout]
    exact ⟨rfl, .inl rfl⟩
  | some name =>
    have hout : out = _ := watched_marked hclass hmarker w s
    cases hc : s.registry.colorizerFor (String.ofList name) with
    | error x =>
      rw [hc] at hout
      rw [hout]
      exact ⟨rfl, .inr ⟨name, x, rfl, hc, rfl⟩⟩
    | ok c =>
      have hunknown : ¬ ((s.registry.backend c).1.supports (String.ofList name)).1 = true :=
        fun hsupports => hleft name c hmarker (Registry.trusts_iff.mpr ⟨hc, hsupports⟩)
      rw [hc] at hout
      dsimp only at hout
      rw [if_neg hunknown] at hout
      rw [hout]
      refine ⟨?_, .inl rfl⟩
      -- whether a language is supported is no job
      rw [Watched.jobs, afterSupports, List.filterMap_append]
      exact List.append_nil _

/-- **Only the marker's name is asked for**, and only once. -/
theorem decision_asked (w : World) (s : Watched) (b : Block) :
    let out := (planBlock (watched w).heard b).outcome (s, [])
    out.2.2.filterMap Question.candidate? = [] ∨ ∃ name,
      Language.marker? (Entity.decode b.text) = some name ∧
        out.2.2.filterMap Question.candidate? = [name] := by
  intro out
  cases hclass : b.cls.bind Language.ofClass? with
  | some name =>
    have hout : out = _ := heard_named (e := watched w) hclass s
    rw [hout]
    exact .inl rfl
  | none =>
    cases hmarker : Language.marker? (Entity.decode b.text) with
    | none =>
      have hout : out = _ := heard_nameless (e := watched w) hclass hmarker s
      rw [hout]
      exact .inl rfl
    | some name =>
      have hout : out = _ := heard_marked (e := watched w) hclass hmarker s
      refine .inr ⟨name, rfl, ?_⟩
      rw [hout]
      obtain ⟨x | known, s'⟩ := ((watched w).recognizes name).outcome s
      · rfl
      · cases known <;> rfl

/-! ## 2. What comes before what -/

/-- **What decides about a block**, given its text and what came out for it with the questions that were
asked.

* `named`: a name in the class value decides.  Nobody is asked to recognize it, and the backend that it
  is routed to gets the text without its leading blank lines and trailing blanks, a marker's line
  included.
* `marked`: else a marker decides that is trusted to a colorizer.  Its backend gets what follows the
  marker's line, without trailing blanks; the class value has the language's word then, which it had not
  before; and a backend that works in process renders what the library reads, or fails with its reason.
* `left`: any other block is left alone and no backend colorizes anything, or the marker's language is
  routed to no colorizer.
* `asked`: at most one name is asked for, and that is the marker's.
* `engine`: with the backends of a machine this is what the registry itself does. -/
structure Decided (w : World) (s : Watched) (b : Block) (text : List Char)
    (out : Except Error (Option Replacement) × Watched × List Question) : Prop where
  named : ∀ name, NamesFirst b.cls name → ∃ source, Trims text source ∧
    out.2.2 = [.colorize source name] ∧
    ∀ c, s.registry.colorizerFor (String.ofList name) = .ok c →
      ColorizedBy w s [] (s.registry.backend c).1 source name (newClass b.cls name) out.1 out.2.1
  marked : (∀ name, ¬ NamesFirst b.cls name) →
    ∀ name rest c, Language.Marked text name rest → s.registry.Trusts (String.ofList name) c →
      let source := trimEnd (rest.drop 1)
      out.2.2 = [.recognizes name, .colorize source name] ∧
      ColorizedBy w s [.supports (s.registry.backend c).1 (String.ofList name)]
        ((s.registry.backend c).1.supports (String.ofList name)).2 source name
        (some (ensureClass b.cls name)) out.1 out.2.1 ∧
      classWord name ∈ words (ensureClass b.cls name) ∧ classWord name ∉ wordsOf b.cls ∧
      ∀ x, ((s.registry.backend c).1.supports (String.ofList name)).2 = .builtin x →
        (x.colorize source (String.ofList name)).1
          = match ((x.sought (String.ofList name)).read (String.ofList name) source).1 with
            | .error reason => .error (.highlight (String.ofList name) reason)
            | .ok captures => .ok (Highlight.render source (Highlight.spansOf captures))
  left : (∀ name, ¬ NamesFirst b.cls name) →
    (∀ name rest c, Language.Marked text name rest → ¬ s.registry.Trusts (String.ofList name) c) →
      out.2.1.jobs = s.jobs ∧ (out.1 = .ok none ∨ ∃ name rest x, Language.Marked text name rest ∧
        s.registry.colorizerFor (String.ofList name) = .error x ∧ out.1 = .error x)
  asked : out.2.2.filterMap Question.candidate? = [] ∨ ∃ name rest, Language.Marked text name rest ∧
    out.2.2.filterMap Question.candidate? = [name]
  engine : ∀ (_ : Programs) host, w = .of host →
    (planBlock (Registry.engine host) b).outcome s.registry = (out.1, out.2.1.registry)

/-- **Every block is decided so**, for a registry in any state, whatever its options are, whatever
grammars it has as long as they are fixed, and whatever the backends answer. -/
theorem block_decided [FixedGrammars] (w : World) (s : Watched) (b : Block) :
    Decided w s b (Entity.decode b.text) ((planBlock (watched w).heard b).outcome (s, [])) := by
  have hclass : (∀ name, ¬ NamesFirst b.cls name) → b.cls.bind Language.ofClass? = none := by
    intro hnone
    rw [Option.eq_none_iff_forall_ne_some]
    exact fun name hname => hnone name (bind_ofClass?_eq_some.mp hname)
  refine ⟨fun name hn => ?_, fun hnone name rest c hmarked hc => ?_, fun hnone hleft => ?_, ?_,
    fun _ host hw => ?_⟩
  · exact ⟨_, trims_trimBlankLines _, decision_named hn w s⟩
  · have hmarker := marker?_iff_marked.mpr ⟨rest, hmarked⟩
    obtain ⟨hasked, hcolorized⟩ := decision_marked (hclass hnone) hmarker hc w
    obtain ⟨hnew, hthere, hgone⟩ := class_gains (hclass hnone) (marker?_eq_some.mp hmarker).1
    rw [hmarked.source_eq] at hasked hcolorized
    rw [hnew] at hcolorized
    refine ⟨hasked, hcolorized, hthere, hgone, fun x hx => ?_⟩
    obtain ⟨t, rfl⟩ | ⟨rfl, hknows⟩ := hc.2
    · cases hx
    · cases hx
      exact BuiltinBackend.colorize_of_knows hknows _
  · obtain ⟨hjobs, hres⟩ := decision_left (hclass hnone) (fun name c hmarker =>
      (marker?_iff_marked.mp hmarker).elim fun rest hmarked => hleft name rest c hmarked) w
    refine ⟨hjobs, hres.imp_right ?_⟩
    rintro ⟨name, x, hmarker, hx, hout⟩
    obtain ⟨rest, hmarked⟩ := marker?_iff_marked.mp hmarker
    exact ⟨name, rest, x, hmarked, hx, hout⟩
  · refine (decision_asked w s b).imp_right ?_
    rintro ⟨name, hmarker, hasked⟩
    obtain ⟨rest, hmarked⟩ := marker?_iff_marked.mp hmarker
    exact ⟨name, rest, hmarked, hasked⟩
  · subst hw
    obtain ⟨hr, hs⟩ := planBlock_agree (heard_agree (watched (.of host))) b (s, []) s rfl
    obtain ⟨hr', hs'⟩ := planBlock_agree (watched_agree host) b s s.registry rfl
    refine Prod.ext (hr'.symm.trans hr.symm) ?_
    rw [← hs', ← hs]

end

/-- A registry with one grammar, and a route to a tool. -/
def oneGrammar : Registry :=
  { Registry.create { colorizers := Dict.empty.insert "k" "simon_highlight" } (some "tools") with
    builtin := some ⟨⟨[.json]⟩, ()⟩ }

/-- Blocks with a name in the class value and a marker, with a marker for the one grammar, and with one
that nobody has a grammar for. -/
def named : Block := ⟨some "a language-k b".toList, "\n#!json\n1 ".toList⟩
def known : Block := ⟨some "a".toList, "\n#!json\n 1 ".toList⟩
def strange : Block := ⟨some "a".toList, "#!ruby\n# c".toList⟩

theorem block_decided_one_grammar :
    let w := World.of Registry.workshop
    let s : Watched := ⟨oneGrammar, []⟩
    (∃ source, Trims "\n#!json\n1 ".toList source ∧
      ((planBlock (watched w).heard named).outcome (s, [])).2.2
        = [.colorize source "k".toList]) ∧
    ((planBlock (watched w).heard known).outcome (s, [])).2.2
      = [.recognizes "json".toList, .colorize " 1".toList "json".toList] ∧
    ((planBlock (Registry.engine Registry.workshop) strange).outcome oneGrammar).1 = .ok none := by
  intro w s
  have hnameless : ∀ name, ¬ NamesFirst (some "a".toList) name := by
    intro name hname
    have hnone : (some "a".toList).bind Language.ofClass? = none := by decide +kernel
    rw [bind_ofClass?_eq_some.mpr hname] at hnone
    cases hnone
  refine ⟨?_, ?_, ?_⟩
  · have hname : NamesFirst named.cls "k".toList := bind_ofClass?_eq_some.mp (by decide +kernel)
    have htext : Entity.decode named.text = "\n#!json\n1 ".toList := by decide +kernel
    obtain ⟨source, htrims, hasked, -⟩ := (block_decided w s named).named _ hname
    exact ⟨source, htext ▸ htrims, hasked⟩
  · have htext : Entity.decode known.text
        = "\n".toList ++ (Language.markerLead ++ "json".toList ++ [] ++ "\n 1 ".toList) := by
      decide +kernel
    have hmarked : Language.Marked (Entity.decode known.text) "json".toList "\n 1 ".toList := by
      have hname : Language.PlainName "json".toList := Language.isName_iff.mp (by decide)
      rw [htext]
      exact .mk (@Language.BlankLines.line [] [] rfl (by decide) .nil) hname rfl (by decide)
        (.inr ⟨_, rfl⟩)
    have htrusts : oneGrammar.Trusts "json" .builtin := ⟨by decide +kernel, .inr ⟨rfl, by decide⟩⟩
    exact ((block_decided w s known).marked hnameless _ _ _ hmarked htrusts).1
  · have hmarker : ∀ {name rest}, Language.Marked (Entity.decode strange.text) name rest →
        name = "ruby".toList := by
      intro name rest hmarked
      have hname : Language.marker? (Entity.decode strange.text) = some "ruby".toList := by
        decide +kernel
      exact Option.some.inj ((marker?_iff_marked.mpr ⟨rest, hmarked⟩).symm.trans hname)
    have hrouted : oneGrammar.colorizerFor "ruby" = .ok .builtin := by decide +kernel
    have huntrusted : ∀ c, ¬ oneGrammar.Trusts "ruby" c := by
      intro c hc
      rw [Registry.trusts_iff, hrouted] at hc
      obtain ⟨hbuiltin, hsupports⟩ := hc
      cases hbuiltin
      revert hsupports
      decide +kernel
    have hdecided := block_decided w s strange
    obtain ⟨-, hres⟩ := hdecided.left hnameless fun name rest c hmarked =>
      hmarker hmarked ▸ huntrusted c
    rw [hdecided.engine scripts Registry.workshop rfl]
    rcases hres with hres | ⟨name, rest, x, hmarked, hx, -⟩
    · exact hres
    · rw [hmarker hmarked] at hx
      cases hrouted.symm.trans hx

end CodeTint.Document
