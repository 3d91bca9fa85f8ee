/-
# What an engine is asked about a block

An engine that is listened to answers as it does otherwise, and its questions are there afterwards
(`Engine.heard`).  About one block it is asked whether it recognizes the name on the marker line, if the
class value names no language, and then to colorize the source, if there is a language (`heard_named`,
`heard_marked`, `heard_nameless`).

The source that it gets is trimmed, except behind a marker: the text is trimmed before the marker's line
is taken off, and **a blank line that was behind it comes to the front** (`source_trimmed_iff`).
-/
import CodeTint.Proofs.Document.Engines
import CodeTint.Proofs.Document.Plan
import CodeTint.Proofs.Language.Marker
import CodeTint.Proofs.Registry.History

namespace CodeTint.Document

open CodeTint.Markup
open CodeTint.Text (allBlank isBlank)
open CodeTint.Language (Trimmed firstLine marker?_iff_marked trimmed_trimEnd_iff
  trims_trimBlankLines)

variable {σ : Type}

/-! ## 1. Engines that are listened to -/

/-- **A question to an engine.** -/
inductive Question where
  | recognizes (language : List Char)
  | colorize (source language : List Char)
  deriving DecidableEq, Repr

/-- A question is asked, and written down. -/
def hear {α : Type} (q : Question) (x : Run σ α) : Run (σ × List Question) α :=
  ExceptT.mk fun s => ((x.outcome s.1).1, ((x.outcome s.1).2, s.2 ++ [q]))

/-- **An engine that is listened to**: it answers as it does otherwise, and the questions are there
afterwards. -/
def Engine.heard (e : Engine σ) : Engine (σ × List Question) where
  recognizes := fun language => hear (.recognizes language) (e.recognizes language)
  colorize := fun source language => hear (.colorize source language) (e.colorize source language)

theorem outcome_hear {α : Type} (q : Question) (x : Run σ α) (s : σ × List Question) :
    (hear q x).outcome s = ((x.outcome s.1).1, ((x.outcome s.1).2, s.2 ++ [q])) := rfl

/-- Listening changes no answer. -/
theorem heard_agree (e : Engine σ) : e.heard.Agree (fun s s' => s.1 = s') e where
  recognizes language := by
    rintro s _ rfl
    exact ⟨rfl, rfl⟩
  colorize source language := by
    rintro s _ rfl
    exact ⟨rfl, rfl⟩

/-! ## 2. What is asked about a block -/

variable {e : Engine σ} {b : Block} {s : σ} {name : List Char}

/-- The work on a block whose language is resolved: its source is colorized. -/
def colorizeBlock (e : Engine σ) (b : Block) (l : Language.Resolved) (s : σ) (qs : List Question) :
    Except Error (Option Replacement) × σ × List Question :=
  let source := Language.source l.origin (Entity.decode b.text)
  let out := (e.colorize source l.name).outcome s
  (out.1.map fun fragment => some ⟨newClass b.cls l.name, fragment⟩, out.2,
    qs ++ [.colorize source l.name])

/-- **A name in the class value** decides: nobody is asked to recognize it. -/
theorem heard_named (h : b.cls.bind Language.ofClass? = some name) (s : σ) :
    (planBlock e.heard b).outcome (s, []) = colorizeBlock e b ⟨name, .className⟩ s [] := by
  rw [outcome_planBlock, outcome_resolve, h]
  dsimp only
  rw [Engine.heard, outcome_hear, colorizeBlock]
  dsimp only
  cases ((e.colorize _ name).outcome s).1 <;> rfl

/-- **A marker's name** is asked for, if the class value has none. -/
theorem heard_marked (hclass : b.cls.bind Language.ofClass? = none)
    (hmarker : Language.marker? (Entity.decode b.text) = some name) (s : σ) :
    (planBlock e.heard b).outcome (s, [])
      = match (e.recognizes name).outcome s with
        | (.ok true, s') => colorizeBlock e b ⟨name, .marker⟩ s' [.recognizes name]
        | (.ok false, s') => (.ok none, s', [.recognizes name])
        | (.error x, s') => (.error x, s', [.recognizes name]) := by
  rw [outcome_planBlock, outcome_resolve, hclass, hmarker]
  dsimp only
  rw [Engine.heard, outcome_hear]
  dsimp only
  obtain ⟨x | known, s'⟩ := (e.recognizes name).outcome s
  · rfl
  · cases known with
    | false => rfl
    | true =>
      simp only [if_true, outcome_hear, colorizeBlock]
      cases ((e.colorize _ name).outcome s').1 <;> rfl

/-- **Without a name** nothing is asked. -/
theorem heard_nameless (hclass : b.cls.bind Language.ofClass? = none)
    (hmarker : Language.marker? (Entity.decode b.text) = none) (s : σ) :
    (planBlock e.heard b).outcome (s, []) = (.ok none, s, []) := by
  rw [outcome_planBlock, outcome_resolve, hclass, hmarker]

/-! ## 3. The source that an engine gets -/

variable {s' : σ}

/-- **The source behind a marker** is trimmed just if the line behind the marker's is not blank, or
nothing but blanks follows. -/
theorem trimmed_source_iff {text name rest : List Char} (h : Language.Marked text name rest) :
    Trimmed (Language.source .marker text) ↔
      allBlank rest = true ∨ allBlank (firstLine (rest.drop 1)) = false := by
  have hdrop : allBlank (rest.drop 1) = allBlank rest := by
    cases h with
    | mk _ _ _ _ hrest =>
      rcases hrest with rfl | ⟨r, rfl⟩
      · rfl
      · rfl
  rw [h.source_eq, trimmed_trimEnd_iff, hdrop]

/-- **When the source of a block is trimmed.**  Let the language of a block be resolved.  Then the
engine gets one source to colorize, in that language and after at most one other question.  The source
never ends with a blank.  It does not begin with a blank line either, with one exception: the language
is from a marker, the line behind the marker's is blank, and something follows that is not. -/
theorem source_trimmed_iff {l : Language.Resolved}
    (h : (Language.resolve e.recognizes b.cls (Entity.decode b.text)).outcome s
      = (.ok (some l), s')) :
    ∃ asked source,
      ((planBlock e.heard b).outcome (s, [])).2.2 = asked ++ [.colorize source l.name] ∧
        (asked = [] ∨ asked = [.recognizes l.name]) ∧
        (∀ c ∈ source.getLast?, isBlank c = false) ∧
        (Trimmed source ↔ (l.origin = .marker →
          ∀ rest, Language.Marked (Entity.decode b.text) l.name rest →
            allBlank rest = true ∨ allBlank (firstLine (rest.drop 1)) = false)) := by
  obtain ⟨name, origin⟩ := l
  rcases resolved_cases h with ⟨horigin, hclass, -⟩ | ⟨horigin, hclass, hmarker, hknown⟩
  · cases horigin
    have htrim : Trimmed (Language.source .className (Entity.decode b.text)) :=
      (trims_trimBlankLines _).1
    refine ⟨[], _, by rw [heard_named hclass]; rfl, .inl rfl, htrim.back, fun _ h => ?_,
      fun _ => htrim⟩
    cases h
  · cases horigin
    obtain ⟨rest, hmarked⟩ := marker?_iff_marked.mp hmarker
    refine ⟨[.recognizes name], Language.source .marker (Entity.decode b.text), ?_, .inr rfl, ?_,
      fun htrim _ rest' hrest' => ?_, fun hall => ?_⟩
    · rw [heard_marked hclass hmarker, hknown]
      rfl
    · rw [hmarked.source_eq]
      exact Text.getLast?_trimEnd _
    · exact (trimmed_source_iff hrest').mp htrim
    · exact (trimmed_source_iff hmarked).mpr (hall rfl rest hmarked)

/-- A block with a marker between blank lines. -/
def spacious : Block := ⟨none, " \n#!ruby \n  # c\n\n\u00A0".toList⟩

theorem source_trimmed_iff_spacious :
    let e := Registry.engine Registry.workshop
    let start := Registry.create {} none
    let out := (Language.resolve e.recognizes none (Entity.decode spacious.text)).outcome start
    out.1 = .ok (some ⟨"ruby".toList, .marker⟩) ∧
      ∃ asked source, ((planBlock e.heard spacious).outcome (start, [])).2.2
        = asked ++ [.colorize source "ruby".toList] ∧ Trimmed source := by
  intro e start out
  have hout : out.1 = .ok (some ⟨"ruby".toList, .marker⟩) := by decide +kernel
  obtain ⟨asked, source, hquestions, -, -, htrim⟩ :=
    source_trimmed_iff (b := spacious) (show out = (_, out.2) from Prod.ext hout rfl)
  refine ⟨hout, asked, source, hquestions, htrim.mpr fun _ rest hrest => ?_⟩
  refine (trimmed_source_iff hrest).mp ⟨by decide +kernel, ?_⟩
  rw [hrest.source_eq]
  exact Text.getLast?_trimEnd _

/-- **A blank line behind a marker** is sent along, and so it gets into the document. -/
theorem blank_line_sent :
    ((planBlock (Registry.engine Registry.workshop).heard
        ⟨none, "#!ruby\n\n# c".toList⟩).outcome (Registry.create {} none, [])).2.2
        = [.recognizes "ruby".toList, .colorize "\n# c".toList "ruby".toList] ∧
      ¬ Trimmed "\n# c".toList ∧
      ((colorize (Registry.engine Registry.workshop) {}
          "<pre><code>#!ruby\n\n# c</code></pre>".toList).outcome (Registry.create {} none)).1
        = .ok ⟨"<pre><code class=\"language-ruby\">\n<span class=\"c\"># c</span></code></pre>".toList,
            1, 0⟩ := by
  refine ⟨by decide +kernel, fun h => ?_, by decide +kernel⟩
  exact absurd (h.front (by decide)) (by decide)

end CodeTint.Document
