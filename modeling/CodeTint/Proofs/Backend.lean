/-
# What becomes of a backend that works in process

A backend that works in process is another one after each question, and if its store is shared it is
another one after the questions of others too.  This file says what a backend can come to be from its
beginning (`BuiltinBackend.Reached`), and what another given one can (`BuiltinBackend.Becomes`).

**A library is lawful if none of that shows in its answers** (`LawfulLibrary`): they depend on the
language and the source alone.  Then a backend that has been used answers as a new one does
(`BuiltinBackend.Reached.colorize_eq`), with a fragment or with an error.  For some theorems it is
enough that the grammars are fixed (`FixedGrammars`).  The grammars here are lawful; of other libraries
it is asked where a theorem needs it.
-/
import CodeTint.Backend
import CodeTint.Highlight.Grammar

namespace CodeTint

open Highlight (Library)

/-! ## 1. What a backend can come to be -/

section

variable [Library]

namespace BuiltinBackend

/-- **A backend that there can be**: new, or after questions to it or, in the store, to others. -/
inductive Reached : BuiltinBackend → Prop
  | new : Reached (.create none)
  | sought {b : BuiltinBackend} (h : Reached b) (language : String) : Reached (b.sought language)
  | read {b : BuiltinBackend} (h : Reached b) (language : String) (source : List Char) :
      Reached (b.read language source).2
  | shared {b other : BuiltinBackend} (h : Reached b) (hother : Reached other) :
      Reached { b with store := other.store }

/-- **A backend becomes another one** by questions to it or, in the store, to others.  It is still the
same backend: what it keeps for itself has only been changed by its own work. -/
inductive Becomes (b : BuiltinBackend) : BuiltinBackend → Prop
  | same : Becomes b b
  | sought {b' : BuiltinBackend} (h : Becomes b b') (language : String) :
      Becomes b (b'.sought language)
  | read {b' : BuiltinBackend} (h : Becomes b b') (language : String) (source : List Char) :
      Becomes b (b'.read language source).2
  | shared {b' : BuiltinBackend} (h : Becomes b b') (store : Library.Store) :
      Becomes b { b' with store }

theorem Becomes.trans {b b' b'' : BuiltinBackend} (h : b.Becomes b') (h' : b'.Becomes b'') :
    b.Becomes b'' := by
  induction h' with
  | same => exact h
  | sought _ language ih => exact ih.sought language
  | read _ language source ih => exact ih.read language source
  | shared _ store ih => exact ih.shared store

variable {b : BuiltinBackend}

/-- What a backend answers, from what the library does. -/
theorem colorize_fst (b : BuiltinBackend) (source : List Char)
    (language : String) :
    (b.colorize source language).1
      = if b.knows language then
          match ((b.sought language).read language source).1 with
          | .error reason => .error (.highlight language reason)
          | .ok captures => .ok (Highlight.render source (Highlight.spansOf captures))
        else .ok (Markup.Entity.encode source) := by
  rw [colorize]
  split
  · generalize (b.sought language).read language source = x
    obtain ⟨reason | captures, b'⟩ := x <;> rfl
  · rfl

/-- What colorizing makes of a backend, with a grammar or without. -/
theorem colorize_snd (b : BuiltinBackend) (source : List Char) (language : String) :
    (b.colorize source language).2
      = if b.knows language then ((b.sought language).read language source).2
        else b.sought language := by
  rw [colorize]
  split
  · generalize (b.sought language).read language source = x
    obtain ⟨reason | captures, b'⟩ := x <;> rfl
  · rfl

theorem Reached.colorize (h : b.Reached) (source : List Char) (language : String) :
    (b.colorize source language).2.Reached := by
  rw [colorize_snd]
  split
  · exact (h.sought language).read language source
  · exact h.sought language

end BuiltinBackend

/-- **A store that there can be**, shared by any number of backends. -/
structure SharedStore where
  store : Library.Store
  reached : ∃ b : BuiltinBackend, b.Reached ∧ b.store = store

/-- A new store. -/
def SharedStore.new : SharedStore := ⟨Library.newStore, .create none, .new, rfl⟩

/-- The store of a backend. -/
def BuiltinBackend.Reached.sharedStore {b : BuiltinBackend} (h : b.Reached) : SharedStore :=
  ⟨b.store, b, h, rfl⟩

theorem SharedStore.reached_seen (s : SharedStore) {b : BuiltinBackend} (h : b.Reached) :
    BuiltinBackend.Reached { b with store := s.store } := by
  obtain ⟨other, hother, hs⟩ := s.reached
  rw [← hs]
  exact h.shared hother

/-- A new backend is one that there can be, whatever store it is given. -/
theorem BuiltinBackend.reached_create (shared : Option SharedStore) :
    (BuiltinBackend.create (shared.map SharedStore.store)).Reached := by
  cases shared with
  | none => exact .new
  | some s => exact s.reached_seen .new

end

/-! ## 2. Lawful libraries -/

/-- **The grammars of a library are fixed**: looking for one and reading a source do not change which
there are. -/
class FixedGrammars [Library] : Prop where
  find_find (store : Library.Store) (language other : String) :
    (Library.find (Library.find store other).2 language).1 = (Library.find store language).1
  find_read (store : Library.Store) (scratch : Library.Scratch) (language other : String)
    (source : List Char) : (Library.find (Library.read store scratch other source).2.1 language).1
      = (Library.find store language).1

/-- **The answers of a library depend on the language and the source alone**, not on what it has kept
from other questions. -/
class LawfulLibrary [Library] : Prop extends FixedGrammars where
  read_eq {b : BuiltinBackend} (h : b.Reached) (language : String) (source : List Char) :
    (b.read language source).1 = ((BuiltinBackend.create none).read language source).1

namespace BuiltinBackend

variable [Library] [FixedGrammars] {b : BuiltinBackend} {language : String}

theorem knows_sought (b : BuiltinBackend) (language other : String) :
    (b.sought other).knows language = b.knows language :=
  FixedGrammars.find_find b.store language other

theorem knows_read (b : BuiltinBackend) (language other : String) (source : List Char) :
    (b.read other source).2.knows language = b.knows language :=
  FixedGrammars.find_read b.store b.scratch language other source

/-- **A backend that has been used has the grammars of a new one.** -/
theorem Reached.knows_eq (h : b.Reached) (language : String) :
    b.knows language = (create none).knows language := by
  induction h with
  | new => rfl
  | sought h other ih => rw [knows_sought, ih]
  | read h other source ih => rw [knows_read, ih]
  | shared h hother ih ih' => exact ih'

/-- **A backend that has found a grammar reads with it**, or fails with the reason of the library. -/
theorem colorize_of_knows (h : b.knows language = true) (source : List Char) :
    ((b.sought language).colorize source language).1
      = match (((b.sought language).sought language).read language source).1 with
        | .error reason => .error (.highlight language reason)
        | .ok captures => .ok (Highlight.render source (Highlight.spansOf captures)) := by
  rw [colorize_fst, knows_sought, if_pos h]

end BuiltinBackend

/-- **A backend that has been used answers as a new one**, if the library is lawful. -/
theorem BuiltinBackend.Reached.colorize_eq [Library] [LawfulLibrary] {b : BuiltinBackend}
    (h : b.Reached) (source : List Char) (language : String) :
    (b.colorize source language).1
      = ((BuiltinBackend.create none).colorize source language).1 := by
  rw [colorize_fst, colorize_fst, h.knows_eq, LawfulLibrary.read_eq (h.sought language),
    LawfulLibrary.read_eq (Reached.new.sought language)]

/-- The grammars are all that their library keeps, and nothing changes them. -/
theorem BuiltinBackend.Reached.eq_new {b : BuiltinBackend} (h : b.Reached) : b = .create none := by
  induction h with
  | new => rfl
  | sought h language ih => rw [ih]; rfl
  | read h language source ih => rw [ih]; rfl
  | shared h hother ih ih' => rw [ih, ih']

/-- **The grammars are lawful.** -/
instance : LawfulLibrary where
  find_find store language other := rfl
  find_read store scratch language other source := rfl
  read_eq h language source := by rw [h.eq_new]

/-! ## 3. Backends of either kind -/

/-- **A backend after it has colorized a source.**  A tool keeps nothing, so the machine does not come
into it. -/
def Backend.after [Library] (b : Backend) (source : List Char) (language : String) : Backend :=
  match b with
  | .builtin b => .builtin (b.colorize source language).2
  | .external b => .external b

theorem Backend.colorize_snd [Library] [Programs] (host : Host) (b : Backend) (source : List Char)
    (language : String) : (b.colorize host source language).2 = b.after source language := by
  cases b <;> rfl

end CodeTint
