/-
# What a registry is at any moment of its life

A registry is asked about languages, runs are started, the search path of the environment changes
whenever it likes, and others use the store of grammars if it is shared.  This file follows a registry
through any sequence of such events (`Setting.after`) and says what it is then (`Steady`):

* its options are the ones that it was made with;
* its search path is the one of the options, else **what the environment had when the last run was
  started**, or when the registry was made if none was (`IsStartPath`);
* each tool's backend that it keeps is the one that would be made now;
* the backend that works in process, once made, is never made again.

So what it answers is a function of its options, that search path, the machine and the question
(`answer`), if the library is lawful or does not come into it.  What it was asked before does not show,
and neither does an error that an earlier question ended in.
-/
import CodeTint.Proofs.Registry
import CodeTint.Tool.Shell
import Mathlib.Data.List.Induction

namespace CodeTint.Registry

section

variable [Highlight.Library]

/-! ## 1. Events -/

/-- **What happens to a registry or around it.**  Every question finds a machine of its own: files come
and go as well.  A store that is shared is used by others. -/
inductive Event where
  | environment (searchPath : Option String)
  | store (s : SharedStore)
  | startRun
  | colorizerFor (language : String)
  | recognizes (language : String)
  | colorize (host : Host) (source : List Char) (language : String)

/-- A registry, and the search path that the environment has. -/
structure Setting where
  registry : Registry
  environment : Option String

/-! ## 2. The search path of a run -/

/-- The search path of the environment after some events. -/
def environmentAfter (made : Option String) (es : List Event) : Option String :=
  es.foldl (fun a e => match e with
    | .environment searchPath => searchPath
    | _ => a) made

/-- **The search path that the environment had when the last run was started**, or when the registry
was made. -/
def IsStartPath (made : Option String) (es : List Event) (path : Option String) : Prop :=
  (Event.startRun ∉ es ∧ path = made) ∨
    ∃ before since, es = before ++ .startRun :: since ∧ Event.startRun ∉ since ∧
      path = environmentAfter made before

variable {made path : Option String} {es more : List Event}

/-- What happens within a run does not change it. -/
theorem IsStartPath.append (h : IsStartPath made es path) (hmore : Event.startRun ∉ more) :
    IsStartPath made (es ++ more) path := by
  obtain ⟨hno, hpath⟩ | ⟨before, since, rfl, hno, hpath⟩ := h
  · exact .inl ⟨by simp [hno, hmore], hpath⟩
  · exact .inr ⟨before, since ++ more, by simp, by simp [hno, hmore], hpath⟩

theorem isStartPath_startRun (made : Option String) (es : List Event) :
    IsStartPath made (es ++ [.startRun]) (environmentAfter made es) :=
  .inr ⟨es, [], rfl, List.not_mem_nil, rfl⟩

/-- There is only one such search path. -/
theorem IsStartPath.eq {path' : Option String} (h : IsStartPath made es path)
    (h' : IsStartPath made es path') : path = path' := by
  obtain ⟨hno, rfl⟩ | ⟨before, since, rfl, hs, rfl⟩ := h
  · obtain ⟨-, rfl⟩ | ⟨before', since', rfl, -, -⟩ := h'
    · rfl
    · simp at hno
  · obtain ⟨hno, -⟩ | ⟨before', since', he, hs', rfl⟩ := h'
    · simp at hno
    · -- what one start has behind it does not hold another
      obtain ⟨c, hb, hc⟩ | ⟨c, hb, hc⟩ := List.append_eq_append_iff.mp he
      · cases c with
        | nil => rw [hb, List.append_nil]
        | cons e c =>
          rw [List.cons_append, List.cons.injEq] at hc
          exact absurd (by rw [hc.2]; simp) hs
      · cases c with
        | nil => rw [hb, List.append_nil]
        | cons e c =>
          rw [List.cons_append, List.cons.injEq] at hc
          exact absurd (by rw [hc.2]; simp) hs'

/-! ## 3. What a registry keeps -/

/-- The backend for a tool under some options and a search path. -/
def toolBackend (o : Options) (path : Option String) (t : Tool) : ToolBackend :=
  ⟨t, o.paramsFor (.tool t), path, o.timeout⟩

/-- **What a registry is at any moment**: it has the options that it was made with and the search path
of its run; what it keeps of tools is what they call for, and its backend that works in process is one
that there can be, made or not. -/
structure Steady (o : Options) (path : Option String) (r : Registry) : Prop where
  options : r.options = o
  searchPath : r.searchPath = path
  kept : ∀ t b, r.kept? t = some b → b = toolBackend o path t
  reached : r.builtinBackend.Reached

namespace Steady

variable {o : Options} {r : Registry}

theorem make (shared : Option SharedStore) (o : Options) (made : Option String) :
    Steady o (o.searchPath <|> made)
      (Registry.make (shared.map SharedStore.store) o made) where
  options := rfl
  searchPath := rfl
  kept := fun t b hb => by cases t <;> cases hb
  reached := reached_make shared o made

/-- Starting a run drops what was made for the old search path. -/
theorem startRun (h : Steady o path r) (environment : Option String) :
    Steady o (o.searchPath <|> environment) (r.startRun environment) where
  options := h.options
  searchPath := by rw [Registry.startRun, h.options]
  kept := fun t b hb => by cases t <;> cases hb
  reached := h.reached

/-- Others use the store. -/
theorem seeStore (h : Steady o path r) (s : SharedStore) :
    Steady o path (r.seeStore s.store) := by
  have hreached := reached_seeStore h.reached s
  rw [Registry.seeStore] at hreached ⊢
  split at hreached
  · exact h
  · exact ⟨h.options, h.searchPath, fun t b hb => h.kept t b (by cases t <;> exact hb), hreached⟩

/-- What would be made for a tool. -/
theorem freshBackend (h : Steady o path r) (t : Tool) : r.freshBackend t = toolBackend o path t := by
  rw [Registry.freshBackend, h.options, h.searchPath, toolBackend]

/-- **The backend that a tool gets**, kept or made now. -/
theorem backend_tool (h : Steady o path r) (t : Tool) :
    r.backend (.tool t) = (.external (toolBackend o path t), r.keep (toolBackend o path t) t) := by
  have hb : (r.kept? t).getD (r.freshBackend t) = toolBackend o path t := by
    cases hk : r.kept? t with
    | none => exact h.freshBackend t
    | some b => exact h.kept t b hk
  rw [Registry.backend, hb]

/-- **Making a backend** keeps a registry steady. -/
theorem backend (h : Steady o path r) (c : Colorizer) : Steady o path (r.backend c).2 := by
  cases c with
  | builtin => exact ⟨h.options, h.searchPath, h.kept, h.reached⟩
  | tool t =>
    rw [h.backend_tool]
    refine ⟨?_, ?_, fun t' b hb => ?_, ?_⟩
    · cases t <;> exact h.options
    · cases t <;> exact h.searchPath
    · -- the slot of the tool has been filled, the other one is as it was
      cases t <;> cases t'
      · exact (Option.some.inj hb).symm
      · exact h.kept .highlight b hb
      · exact h.kept .pygmentize b hb
      · exact (Option.some.inj hb).symm
    · cases t <;> exact h.reached

/-- Putting one back keeps it steady, if it is one that there can be. -/
theorem put (h : Steady o path r) {b : Backend} (hb : ∀ b', b = .builtin b' → b'.Reached) :
    Steady o path (r.put b) := by
  cases b with
  | builtin b' => exact ⟨h.options, h.searchPath, h.kept, hb b' rfl⟩
  | external b' => exact h

/-- **Being asked about a language** does too. -/
theorem supports (h : Steady o path r) (c : Colorizer) (language : String) :
    Steady o path ((r.backend c).2.put ((r.backend c).1.supports language).2) :=
  (h.backend c).put (forall_supports (h.reached.sought language) c)

/-- So does colorizing. -/
theorem after (h : Steady o path r) (c : Colorizer) (source : List Char) (language : String) :
    Steady o path ((r.backend c).2.put ((r.backend c).1.after source language)) :=
  (h.backend c).put (forall_after (h.reached.colorize source language) c)

theorem recognizes (h : Steady o path r) (language : String) :
    Steady o path ((Registry.recognizes language).outcome r).2 := by
  rw [outcome_recognizes]
  cases r.colorizerFor language with
  | error e => exact h
  | ok c => exact h.supports c language

end Steady

/-- **What becomes of the backend that works in process**: it is there, and it is the same one, after
its own work and that of others on the store. -/
def Keeps (b : BuiltinBackend) (r : Registry) : Prop := ∃ b', r.builtin = some b' ∧ b.Becomes b'

section

variable {r : Registry} {b : BuiltinBackend}

theorem Keeps.builtinBackend (h : Keeps b r) : b.Becomes r.builtinBackend := by
  obtain ⟨b', hb', hbecomes⟩ := h
  rw [Registry.builtinBackend, hb']
  exact hbecomes

theorem Keeps.backend (h : Keeps b r) (c : Colorizer) : Keeps b (r.backend c).2 := by
  cases c with
  | builtin => exact ⟨_, rfl, h.builtinBackend⟩
  | tool t => cases t <;> exact h

theorem Keeps.put {x : Backend} (h : Keeps b r) (hx : ∀ b', x = .builtin b' → b.Becomes b') :
    Keeps b (r.put x) := by
  cases x with
  | builtin b' => exact ⟨b', rfl, hx b' rfl⟩
  | external b' => exact h

end

/-! ## 4. Any events -/

variable [Programs] {shared : Option SharedStore} {o : Options} {r : Registry}
  {b : BuiltinBackend}

/-- **One event.**  A question leaves the registry as its work leaves it, in an error too. -/
def Setting.step (w : Setting) : Event → Setting
  | .environment searchPath => { w with environment := searchPath }
  | .store s => { w with registry := w.registry.seeStore s.store }
  | .startRun => { w with registry := w.registry.startRun w.environment }
  | .colorizerFor _ => w
  | .recognizes language =>
    { w with registry := ((Registry.recognizes language).outcome w.registry).2 }
  | .colorize host source language =>
    { w with registry := ((Registry.colorize host source language).outcome w.registry).2 }

/-- **A new registry after some events.**  It may share a store. -/
def Setting.after (shared : Option SharedStore) (o : Options) (made : Option String)
    (es : List Event) : Setting :=
  es.foldl Setting.step ⟨make (shared.map SharedStore.store) o made, made⟩

theorem Setting.after_concat (shared : Option SharedStore) (o : Options) (made : Option String)
    (es : List Event) (e : Event) :
    Setting.after shared o made (es ++ [e]) = (Setting.after shared o made es).step e := by
  rw [after, List.foldl_append]
  rfl

theorem Setting.environment_after (shared : Option SharedStore) (o : Options)
    (made : Option String) (es : List Event) :
    (Setting.after shared o made es).environment = environmentAfter made es := by
  induction es using List.reverseRecOn with
  | nil => rfl
  | append_singleton es e ih =>
    rw [environmentAfter] at ih ⊢
    rw [after_concat, List.foldl_append, ← ih]
    cases e <;> rfl

theorem Steady.colorize (h : Steady o path r) (host : Host) (source : List Char) (language : String) :
    Steady o path ((Registry.colorize host source language).outcome r).2 := by
  rw [outcome_colorize]
  cases r.colorizerFor language with
  | error e => exact h
  | ok c =>
    dsimp only
    rw [Backend.colorize_snd]
    exact h.after c source language

/-- **A registry is steady after any events.** -/
theorem Setting.steady_after (shared : Option SharedStore) (o : Options) (made : Option String)
    (es : List Event) :
    ∃ path, IsStartPath made es path ∧
      Steady o (o.searchPath <|> path) (Setting.after shared o made es).registry := by
  induction es using List.reverseRecOn with
  | nil => exact ⟨made, .inl ⟨List.not_mem_nil, rfl⟩, .make shared o made⟩
  | append_singleton es e ih =>
    obtain ⟨path, hpath, hsteady⟩ := ih
    rw [after_concat]
    cases e with
    | environment searchPath => exact ⟨path, hpath.append (by simp), hsteady⟩
    | store s => exact ⟨path, hpath.append (by simp), hsteady.seeStore s⟩
    | startRun =>
      refine ⟨environmentAfter made es, isStartPath_startRun made es, ?_⟩
      rw [← environment_after shared o]
      exact hsteady.startRun _
    | colorizerFor language => exact ⟨path, hpath.append (by simp), hsteady⟩
    | recognizes language =>
      exact ⟨path, hpath.append (by simp), hsteady.recognizes language⟩
    | colorize host source language =>
      exact ⟨path, hpath.append (by simp), hsteady.colorize host source language⟩

/-- **The markup for a source**, as options, a search path and a machine determine it. -/
def answer (o : Options) (path : Option String) (host : Host) (source : List Char)
    (language : String) : Except Error (List Char) :=
  match Colorizer.ofName? (o.colorizerFor language) with
  | none => .error (.unknownColorizer (o.colorizerFor language) language)
  | some .builtin => ((BuiltinBackend.create none).colorize source language).1
  | some (.tool t) => (toolBackend o path t).colorize host source language

/-- **A steady registry answers as its options and its search path say**, if the library is lawful or
the language is not routed to it. -/
theorem Steady.answers {r : Registry} (h : Steady o path r) {language : String}
    (hlaw : LawfulLibrary ∨ o.colorizerFor language ≠ Colorizer.builtin.name) (host : Host)
    (source : List Char) :
    ((Registry.colorize host source language).outcome r).1 = answer o path host source language := by
  rw [outcome_colorize, answer, colorizerFor, h.options]
  cases hc : Colorizer.ofName? (o.colorizerFor language) with
  | none => rfl
  | some c =>
    cases c with
    | builtin =>
      obtain hlaw | hother := hlaw
      · exact h.reached.colorize_eq source language
      · exact absurd (Colorizer.ofName?_eq_some.mp hc).symm hother
    | tool t =>
      dsimp only
      rw [h.backend_tool]
      rfl

end

/-- A machine with a tool in a directory. -/
def workshop : Host :=
  ⟨.dir [("tools", .dir [("highlight",
    .file (Text.Utf8.encode "#!/bin/sh\nprintf b\n".toList) true)])], [], none⟩

end CodeTint.Registry
