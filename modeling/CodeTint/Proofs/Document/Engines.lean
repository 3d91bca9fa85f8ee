/-
# Engines that answer alike

A document is colorized by asking an engine, and by nothing else that could differ.  So **two engines
that answer alike colorize alike** (`colorize_agree`), though they may keep different states: it is
enough that their states are related in a way that every question keeps.
-/
import CodeTint.Document
import CodeTint.Proofs.Run

namespace CodeTint.Document

variable {σ σ' : Type} {R : σ → σ' → Prop}

/-- **Two engines answer alike**, with states that stay related. -/
structure Engine.Agree (R : σ → σ' → Prop) (e : Engine σ) (e' : Engine σ') : Prop where
  recognizes : ∀ language, Run.Agree R (e.recognizes language) (e'.recognizes language)
  colorize : ∀ source language, Run.Agree R (e.colorize source language)
    (e'.colorize source language)

variable {e : Engine σ} {e' : Engine σ'}

theorem resolve_agree (h : e.Agree R e') (cls : Option (List Char)) (text : List Char) :
    Run.Agree R (Language.resolve e.recognizes cls text)
      (Language.resolve e'.recognizes cls text) := by
  rw [Language.resolve, Language.resolve]
  split
  · exact Run.Agree.pure _
  · split
    · exact Run.Agree.pure _
    · refine (h.recognizes _).bind fun known => ?_
      cases known
      · exact Run.Agree.pure _
      · exact Run.Agree.pure _

theorem planBlock_agree (h : e.Agree R e') (b : Block) :
    Run.Agree R (planBlock e b) (planBlock e' b) := by
  rw [planBlock, planBlock]
  refine (resolve_agree h _ _).bind fun l => ?_
  cases l with
  | none => exact Run.Agree.pure _
  | some l => exact (h.colorize _ _).bind fun _ => Run.Agree.pure _

/-- **Engines that answer alike colorize alike.** -/
theorem colorize_agree (h : e.Agree R e') (o : Options) (doc : List Char) :
    Run.Agree R (colorize e o doc) (colorize e' o doc) := by
  rw [colorize, colorize]
  refine (Run.Agree.ofExcept _).bind fun blocks => ?_
  refine (Run.Agree.mapM (planBlock_agree h) blocks).bind fun plan => ?_
  exact (Run.Agree.ofExcept _).bind fun _ => Run.Agree.pure _

end CodeTint.Document
