/-
# What was asked about a block

An entry of the plan says what becomes of a block.  This file says where it comes from: the language
was resolved, the source was colorized in that language, and the class value is the one with the
language in it, if that is a new one (`planBlock_some`).
-/
import CodeTint.Document.Plan
import CodeTint.Proofs.Run

namespace CodeTint.Document

open CodeTint.Markup

variable {σ : Type}

/-- **Resolving a language** asks about the marker candidate, and only without a name in the class
value. -/
theorem outcome_resolve (recognizes : List Char → Run σ Bool) (cls : Option (List Char))
    (text : List Char) (s : σ) :
    (Language.resolve recognizes cls text).outcome s
      = match cls.bind Language.ofClass?, Language.marker? text with
        | some name, _ => (.ok (some ⟨name, .className⟩), s)
        | none, none => (.ok none, s)
        | none, some name =>
          match (recognizes name).outcome s with
          | (.ok known, s') => (.ok (if known then some ⟨name, .marker⟩ else none), s')
          | (.error e, s') => (.error e, s') := by
  rw [Language.resolve]
  cases cls.bind Language.ofClass? with
  | some name => rfl
  | none =>
    cases Language.marker? text with
    | none => rfl
    | some name =>
      dsimp only
      rw [Run.outcome_bind]
      generalize (recognizes name).outcome s = x
      obtain ⟨e | known, s'⟩ := x
      · rfl
      · cases known <;> rfl

/-- **A language is resolved** from the class value and nobody is asked, or from a marker whose name is
recognized. -/
theorem resolved_cases {recognizes : List Char → Run σ Bool} {cls : Option (List Char)}
    {text : List Char} {s s' : σ} {l : Language.Resolved}
    (h : (Language.resolve recognizes cls text).outcome s = (.ok (some l), s')) :
    (l.origin = .className ∧ cls.bind Language.ofClass? = some l.name ∧ s' = s) ∨
      (l.origin = .marker ∧ cls.bind Language.ofClass? = none ∧
        Language.marker? text = some l.name ∧ (recognizes l.name).outcome s = (.ok true, s')) := by
  rw [outcome_resolve] at h
  cases hclass : cls.bind Language.ofClass? with
  | some name =>
    rw [hclass] at h
    cases h
    exact .inl ⟨rfl, rfl, rfl⟩
  | none =>
    cases hmarker : Language.marker? text with
    | none =>
      rw [hclass, hmarker] at h
      cases h
    | some name =>
      rw [hclass, hmarker] at h
      dsimp only at h
      generalize hr : (recognizes name).outcome s = x at h
      obtain ⟨e | known, s₁⟩ := x
      · cases h
      · cases known with
        | false => cases h
        | true =>
          cases h
          exact .inr ⟨rfl, rfl, rfl, hr⟩

/-- A block is planned by resolving its language and colorizing its source. -/
theorem outcome_planBlock (e : Engine σ) (b : Block) (s : σ) :
    (planBlock e b).outcome s
      = match (Language.resolve e.recognizes b.cls (Entity.decode b.text)).outcome s with
        | (.error x, s') => (.error x, s')
        | (.ok none, s') => (.ok none, s')
        | (.ok (some l), s') =>
          let out := (e.colorize (Language.source l.origin (Entity.decode b.text)) l.name).outcome s'
          ((out.1.map fun fragment => ⟨newClass b.cls l.name, fragment⟩).map some, out.2) := by
  rw [planBlock, Run.outcome_bind]
  generalize (Language.resolve e.recognizes b.cls (Entity.decode b.text)).outcome s = x
  obtain ⟨x | _ | l, s'⟩ := x
  · rfl
  · rfl
  · dsimp only
    rw [Run.outcome_bind]
    generalize (e.colorize (Language.source l.origin (Entity.decode b.text)) l.name).outcome s' = y
    obtain ⟨y | fragment, s''⟩ := y <;> rfl

/-- **A block is colorized** just if its language is resolved and its source is colorized. -/
theorem planBlock_some {e : Engine σ} {b : Block} {s s' : σ} {r : Replacement} :
    (planBlock e b).outcome s = (.ok (some r), s') ↔
      ∃ l s₁, (Language.resolve e.recognizes b.cls (Entity.decode b.text)).outcome s
          = (.ok (some l), s₁) ∧
        (e.colorize (Language.source l.origin (Entity.decode b.text)) l.name).outcome s₁
          = (.ok r.fragment, s') ∧
        r.cls = newClass b.cls l.name := by
  rw [planBlock]
  rw [Run.outcome_bind_ok]
  constructor
  · rintro ⟨l, s₁, hl, h⟩
    cases l with
    | none => cases h
    | some l =>
      dsimp only at h
      rw [Run.outcome_bind_ok] at h
      obtain ⟨fragment, s₂, hf, h⟩ := h
      cases h
      exact ⟨l, s₁, hl, hf, rfl⟩
  · rintro ⟨l, s₁, hl, hf, hc⟩
    refine ⟨some l, s₁, hl, ?_⟩
    dsimp only
    rw [Run.outcome_bind_ok]
    obtain ⟨cls, fragment⟩ := r
    cases hc
    exact ⟨fragment, s', hf, rfl⟩

end CodeTint.Document
