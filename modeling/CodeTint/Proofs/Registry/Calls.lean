/-
# The calls of backends that a registry makes

A registry that is watched does what it does otherwise and also writes down each call of a backend
(`watched`).  **What the backends answer when they colorize is left open** (`World`): a call may have
any fragment or error as its answer, and another one each time.  A machine is one such world
(`World.of`), and in it a watched registry answers as the registry itself does (`watched_agree`).
-/
import CodeTint.Proofs.Document.Engines
import CodeTint.Proofs.Registry.History

namespace CodeTint.Registry

variable [Highlight.Library]

/-! ## 1. Worlds -/

/-- **A call of a backend.** -/
inductive Call where
  | supports (b : Backend) (language : String)
  | colorize (b : Backend) (source : List Char) (language : String)

/-- **What the backends answer** when they colorize, given the calls before.  Which names are names
of colorizers is no business of theirs. -/
structure World where
  answer : List Call → Backend → (source : List Char) → (language : String) →
    Except Error (List Char)
  routed : ∀ {calls b source language e}, answer calls b source language = .error e →
    ∀ c l, e ≠ .unknownColorizer c l

/-- A backend does not say that a colorizer is unknown. -/
theorem colorize_ne_unknown [Programs] {host : Host} {b : Backend} {source : List Char}
    {language : String} {e : Error} (h : (b.colorize host source language).1 = .error e)
    (c l : String) : e ≠ .unknownColorizer c l := by
  rintro rfl
  cases b with
  | builtin b =>
    rw [Backend.colorize, BuiltinBackend.colorize_fst] at h
    split at h
    · split at h <;> cases h
    · cases h
  | external b =>
    rw [Backend.colorize, ToolBackend.colorize] at h
    dsimp only at h
    split at h
    · cases h
    · next out _ =>
      cases hf : b.tool.fragment out with
      | ok fragment => rw [hf] at h; cases h
      | error a => rw [hf] at h; cases h

/-- The world with one machine in it. -/
def World.of [Programs] (host : Host) : World :=
  ⟨fun _ b source language => (b.colorize host source language).1, colorize_ne_unknown⟩

/-! ## 2. Watching -/

/-- A registry with the calls that it has made. -/
structure Watched where
  registry : Registry
  calls : List Call

/-- The source and the language of a call that colorizes. -/
def Call.job? : Call → Option (List Char × String)
  | .supports _ _ => none
  | .colorize _ source language => some (source, language)

/-- **What was colorized**, in order. -/
def Watched.jobs (s : Watched) : List (List Char × String) := s.calls.filterMap Call.job?

/-- Work on the registry. -/
def inside {α : Type} (x : Run Registry α) : Run Watched α :=
  ExceptT.mk fun s => ((x.outcome s.registry).1, { s with registry := (x.outcome s.registry).2 })

/-- Writes a call down. -/
def note (c : Call) : Run Watched Unit := modify fun s => { s with calls := s.calls ++ [c] }

/-- **A registry that is watched**, as an engine for documents. -/
def watched (w : World) : Document.Engine Watched where
  recognizes := fun name => do
    let b ← inside (routed (String.ofList name))
    note (.supports b (String.ofList name))
    let (known, b) := b.supports (String.ofList name)
    inside (modify (·.put b))
    pure known
  colorize := fun source name => do
    let b ← inside (routed (String.ofList name))
    let s ← get
    note (.colorize b source (String.ofList name))
    inside (modify (·.put (b.after source (String.ofList name))))
    Run.ofExcept (w.answer s.calls b source (String.ofList name))

variable {w : World} {s : Watched}

@[simp] theorem outcome_inside {α : Type} (x : Run Registry α) (s : Watched) :
    (inside x).outcome s
      = ((x.outcome s.registry).1, { s with registry := (x.outcome s.registry).2 }) := rfl

/-- Whether a language is recognized, with the call for it. -/
theorem watched_recognizes (w : World) (name : List Char) (s : Watched) :
    ((watched w).recognizes name).outcome s
      = match s.registry.colorizerFor (String.ofList name) with
        | .ok c =>
          (.ok ((s.registry.backend c).1.supports (String.ofList name)).1,
            ⟨(s.registry.backend c).2.put ((s.registry.backend c).1.supports (String.ofList name)).2,
              s.calls ++ [.supports (s.registry.backend c).1 (String.ofList name)]⟩)
        | .error e => (.error e, s) := by
  show Run.outcome (inside (routed (String.ofList name)) >>= _) s = _
  rw [Run.outcome_bind, outcome_inside, outcome_routed]
  cases s.registry.colorizerFor (String.ofList name) <;> rfl

/-- A source colorized, with the call for it. -/
theorem watched_colorize (w : World) (source name : List Char) (s : Watched) :
    ((watched w).colorize source name).outcome s
      = match s.registry.colorizerFor (String.ofList name) with
        | .ok c =>
          (w.answer s.calls (s.registry.backend c).1 source (String.ofList name),
            ⟨(s.registry.backend c).2.put
                ((s.registry.backend c).1.after source (String.ofList name)),
              s.calls ++ [.colorize (s.registry.backend c).1 source (String.ofList name)]⟩)
        | .error e => (.error e, s) := by
  show Run.outcome (inside (routed (String.ofList name)) >>= _) s = _
  rw [Run.outcome_bind, outcome_inside, outcome_routed]
  cases s.registry.colorizerFor (String.ofList name) <;> rfl

/-- Who a steady registry routes a language to. -/
theorem Steady.colorizerFor {o : Options} {path : Option String} {r : Registry}
    (h : Steady o path r) (language : String) :
    r.colorizerFor language
      = match Colorizer.ofName? (o.colorizerFor language) with
        | some c => .ok c
        | none => .error (.unknownColorizer (o.colorizerFor language) language) := by
  have ho := h.options
  cases r
  cases ho
  rfl

/-- What the backend of a steady registry supports, if the grammars are fixed. -/
theorem Steady.supports_eq [FixedGrammars] {o : Options} {path : Option String} {r : Registry}
    (h : Steady o path r) (c : Colorizer) (language : String) :
    ((r.backend c).1.supports language).1
      = match c with
        | .builtin => (BuiltinBackend.create none).knows language
        | .tool _ => true := by
  cases c with
  | builtin => exact h.reached.knows_eq language
  | tool t => rw [h.backend_tool]; rfl

/-- **In the world of one machine a watched registry answers as the registry does.** -/
theorem watched_agree [Programs] (host : Host) :
    (watched (.of host)).Agree (fun s r => s.registry = r) (engine host) where
  recognizes name := by
    rintro s r rfl
    rw [watched_recognizes, engine, outcome_recognizes]
    cases s.registry.colorizerFor (String.ofList name) <;> exact ⟨rfl, rfl⟩
  colorize source name := by
    rintro s r rfl
    rw [watched_colorize, engine, outcome_colorize]
    cases s.registry.colorizerFor (String.ofList name) with
    | error e => exact ⟨rfl, rfl⟩
    | ok c =>
      dsimp only
      rw [Backend.colorize_snd]
      exact ⟨rfl, rfl⟩

end CodeTint.Registry
