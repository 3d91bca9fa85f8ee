/-
# Work that can fail and keeps a state

A `Run` goes through a state and ends in a value or in an `Error`.  **The state survives an error**:
what was found out before it, a cache for one, is still there afterwards.
-/
import CodeTint.Error

namespace CodeTint

/-- Work on a state that may end in an error. -/
abbrev Run (σ : Type) := ExceptT Error (StateM σ)

variable {σ α : Type}

/-- The outcome of the work, and the state after it. -/
def Run.outcome (x : Run σ α) (s : σ) : Except Error α × σ := x.run.run s

/-- A result that is known already. -/
def Run.ofExcept (r : Except Error α) : Run σ α := ExceptT.mk (pure r)

/-- A reading of a document as work; where the reader stops, the work does. -/
def Run.ofReading (r : Except Markup.Ambiguity α) : Run σ α :=
  Run.ofExcept (r.mapError Error.ambiguous)

@[simp] theorem Run.outcome_ofExcept (r : Except Error α) (s : σ) :
    (Run.ofExcept r : Run σ α).outcome s = (r, s) := rfl

end CodeTint
