/-
# What the registry does when it is asked

A question to the registry is answered by the backend that the language is routed to.  Routing can
fail, and then nothing is made or kept.  Else the backend is made if there is none, it answers, and it
is kept as it is then, **whether its answer was a fragment or an error**.
-/
import CodeTint.Proofs.Backend
import CodeTint.Proofs.Run
import CodeTint.Registry

namespace CodeTint.Registry

open Highlight (Library)

variable [Library] {r r' : Registry} {language : String}

/-! ## 1. Questions -/

/-- **Routing**: the backend of the colorizer for the language, or an unknown colorizer. -/
theorem outcome_routed (r : Registry) (language : String) :
    (routed language).outcome r
      = match r.colorizerFor language with
        | .ok c => (.ok (r.backend c).1, (r.backend c).2)
        | .error e => (.error e, r) := by
  show Run.outcome (get >>= fun r => _) r = _
  rw [Run.outcome_bind]
  show Run.outcome (Run.ofExcept (r.colorizerFor language) >>= _) r = _
  rw [Run.outcome_bind, Run.outcome_ofExcept]
  cases r.colorizerFor language <;> rfl

/-- Whether a language is recognized. -/
theorem outcome_recognizes (r : Registry) (language : String) :
    (recognizes language).outcome r
      = match r.colorizerFor language with
        | .ok c =>
          (.ok ((r.backend c).1.supports language).1,
            (r.backend c).2.put ((r.backend c).1.supports language).2)
        | .error e => (.error e, r) := by
  rw [recognizes, Run.outcome_bind, outcome_routed]
  cases r.colorizerFor language <;> rfl

/-- **A source colorized** by whom its language is routed to. -/
theorem outcome_colorize [Programs] (host : Host) (r : Registry) (source : List Char)
    (language : String) :
    (colorize host source language).outcome r
      = match r.colorizerFor language with
        | .ok c =>
          (((r.backend c).1.colorize host source language).1,
            (r.backend c).2.put ((r.backend c).1.colorize host source language).2)
        | .error e => (.error e, r) := by
  rw [colorize, Run.outcome_bind, outcome_routed]
  cases r.colorizerFor language with
  | error e => rfl
  | ok c =>
    dsimp only
    generalize (r.backend c).1.colorize host source language = x
    obtain ⟨answer | answer, b⟩ := x <;> rfl

/-! ## 2. The options -/

/-- Making a backend does not touch the options. -/
theorem backend_options (r : Registry) (c : Colorizer) : (r.backend c).2.options = r.options := by
  cases c with
  | builtin => rfl
  | tool t => cases t <;> rfl

/-- Neither does putting one back. -/
theorem put_options (r : Registry) (b : Backend) : (r.put b).options = r.options := by
  cases b <;> rfl

theorem seeStore_options (r : Registry) (store : Library.Store) :
    (r.seeStore store).options = r.options := by
  rw [seeStore]
  split <;> rfl

/-- Whom a language is routed to is in the options. -/
theorem colorizerFor_congr (h : r.options = r'.options) (language : String) :
    r.colorizerFor language = r'.colorizerFor language := by
  rw [colorizerFor, colorizerFor, h]

/-- The name in the settings decides which backend answers in process. -/
theorem colorizerFor_builtin (h : r.options.colorizerFor language = Colorizer.builtin.name) :
    r.colorizerFor language = .ok .builtin := by
  rw [colorizerFor, h, Colorizer.ofName?_name]

/-! ## 3. Backends that are there -/

/-- A new registry has a backend that there can be, whatever store it shares. -/
theorem reached_make (shared : Option SharedStore) (o : Options) (ambient : Option String) :
    (make (shared.map SharedStore.store) o ambient).builtinBackend.Reached :=
  BuiltinBackend.reached_create shared

/-- It still has when others have used the store. -/
theorem reached_seeStore (h : r.builtinBackend.Reached) (s : SharedStore) :
    (r.seeStore s.store).builtinBackend.Reached := by
  rw [seeStore]
  split
  · exact h
  · rw [builtinBackend] at h ⊢
    cases hb : r.builtin with
    | none => exact s.reached_seen .new
    | some b =>
      rw [hb] at h
      exact s.reached_seen h

/-- **A backend that was asked is there the next time**, as it is then. -/
theorem backend_put_supports (r : Registry) (c : Colorizer) (language : String) :
    (((r.backend c).2.put ((r.backend c).1.supports language).2).backend c).1
      = ((r.backend c).1.supports language).2 := by
  cases c with
  | builtin => rfl
  | tool t => cases t <;> rfl

/-- Of the backends that are asked about a language, only the one that works in process is another
one after that. -/
theorem forall_supports {P : BuiltinBackend → Prop} (h : P (r.builtinBackend.sought language))
    (c : Colorizer) (b : BuiltinBackend)
    (hb : ((r.backend c).1.supports language).2 = .builtin b) : P b := by
  cases c with
  | builtin => cases hb; exact h
  | tool t => cases hb

/-- So it is with those that colorize. -/
theorem forall_after {source : List Char} {P : BuiltinBackend → Prop}
    (h : P (r.builtinBackend.colorize source language).2) (c : Colorizer) (b : BuiltinBackend)
    (hb : (r.backend c).1.after source language = .builtin b) : P b := by
  cases c with
  | builtin => cases hb; exact h
  | tool t => cases hb

/-! ## 4. The store that is shared -/

/-- **The backend that works in process has the store that is shared**, if one is. -/
def UsesStore (r : Registry) : Prop :=
  ∀ store, r.store = some store → r.builtinBackend.store = store

theorem usesStore_make (store : Option Library.Store) (o : Options) (ambient : Option String) :
    (make store o ambient).UsesStore := by
  rintro store rfl
  rfl

theorem usesStore_seeStore (h : r.UsesStore) (store : Library.Store) :
    (r.seeStore store).UsesStore := by
  rw [seeStore]
  split
  · exact h
  · rintro _ ⟨⟩
    rw [builtinBackend]
    cases r.builtin <;> rfl

theorem usesStore_put (r : Registry) (b : BuiltinBackend) : (r.put (.builtin b)).UsesStore := by
  intro store h
  obtain ⟨-, -, rfl⟩ := Option.map_eq_some_iff.mp h
  rfl

/-- A registry that finds its own store finds nothing new. -/
theorem seeStore_self (h : r.UsesStore) (store : Library.Store) :
    r.seeStore (r.store.getD store) = r := by
  obtain ⟨options, searchPath, shared, builtin, pygmentize, highlight⟩ := r
  cases shared with
  | none => rfl
  | some shared =>
    cases builtin with
    | none => rfl
    | some b =>
      have hb : b.store = shared := h shared rfl
      subst hb
      rfl

/-- If it finds nothing new in a store, that is its own. -/
theorem getD_store_of_seeStore {store : Library.Store} (h : r.seeStore store = r) :
    r.store.getD store = store := by
  rw [seeStore] at h
  cases hs : r.store with
  | none => rfl
  | some shared =>
    rw [hs] at h
    have hstore : some store = r.store := congrArg Registry.store h
    exact Option.some.inj (hs.symm.trans hstore.symm)

/-! ## 5. Markers -/

/-- **Whom the language of a marker is trusted to**: the colorizer that it is routed to, if that is a
tool, or if it works in process and has a grammar for it. -/
def Trusts (r : Registry) (language : String) (c : Colorizer) : Prop :=
  r.colorizerFor language = .ok c ∧
    ((∃ t, c = .tool t) ∨ c = .builtin ∧ r.builtinBackend.knows language = true)

theorem trusts_iff {r : Registry} {language : String} {c : Colorizer} : r.Trusts language c ↔
    r.colorizerFor language = .ok c ∧ ((r.backend c).1.supports language).1 = true := by
  rw [Trusts]
  cases c with
  | builtin => simp [backend, Backend.supports]
  | tool t => simp [backend, Backend.supports]

end CodeTint.Registry
