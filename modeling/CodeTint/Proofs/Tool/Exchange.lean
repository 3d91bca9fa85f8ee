/-
# What an exchange gives

What a call gives is put together from its looks and from what the parts of the exchange gave
(`Exchange.result?`).  There are three ways: a wait was given up, waiting for the process failed, or
all was over and what came of it decides (`result?_cases`).

A wait is given up only at a look that found something unfinished, when the clock was at or past the
deadline (`exists_of_await_expired`).
-/
import CodeTint.Tool.Exchange

namespace CodeTint

/-! ## 1. Waiting -/

section

variable {deadline : Option Nat} {polls : List Poll}

/-- More looks count only if waiting goes on. -/
theorem await_append (polls more : List Poll) :
    await deadline (polls ++ more)
      = if await deadline polls = .going then await deadline more else await deadline polls := by
  induction polls with
  | nil => rfl
  | cons p polls ih =>
    rw [List.cons_append, await, await]
    split
    · rfl
    · split
      · rfl
      · exact ih

theorem await_over (clock : Nat) : await deadline [⟨true, clock⟩] = .ended := rfl

theorem await_unfinished (clock : Nat) :
    await deadline [⟨false, clock⟩] = if deadline.any (· ≤ clock) then .expired else .going := rfl

/-- **Waiting expires only at a look that finds it unfinished, with the deadline reached.** -/
theorem exists_of_await_expired (h : await deadline polls = .expired) :
    ∃ p ∈ polls, p.ended = false ∧ ∃ d, deadline = some d ∧ d ≤ p.clock := by
  induction polls with
  | nil => cases h
  | cons p polls ih =>
    rw [await] at h
    split at h
    · cases h
    · next hp =>
      split at h
      · next hd =>
        refine ⟨p, List.mem_cons_self, Bool.eq_false_iff.mpr hp, ?_⟩
        cases deadline with
        | none => cases hd
        | some d => exact ⟨d, rfl, by simpa using hd⟩
      · obtain ⟨q, hq, hrest⟩ := ih h
        exact ⟨q, List.mem_cons_of_mem _ hq, hrest⟩

/-- Looks that find it unfinished go on until one of them is too late. -/
theorem await_of_unfinished (h : ∀ p ∈ polls, p.ended = false) :
    await deadline polls
      = if polls.any fun p => deadline.any (· ≤ p.clock) then .expired else .going := by
  induction polls with
  | nil => rfl
  | cons p polls ih =>
    rw [await, h p List.mem_cons_self, if_neg Bool.false_ne_true, List.any_cons,
      ih fun q hq => h q (List.mem_cons_of_mem _ hq)]
    cases deadline.any (· ≤ p.clock) <;> simp

end

namespace Wait

theorem join_eq_ended {ws : List Wait} : join ws = .ended ↔ ∀ w ∈ ws, w = .ended := by
  fun_induction join ws <;> simp_all

theorem join_eq_expired {ws : List Wait} : join ws = .expired ↔ .expired ∈ ws := by
  fun_induction join ws <;> simp_all

end Wait

/-! ## 2. What an exchange gives -/

namespace Exchange

variable {x : Exchange} {executable : String} {limit : Option Duration} {deadline : Option Nat}
  {r : Except ToolError (List Char)}

/-- The waits of an exchange for the threads. -/
def threads (x : Exchange) (deadline : Option Nat) : List Wait :=
  [await deadline x.inputPolls, await deadline x.outPolls, await deadline x.errPolls]

/-- **What an exchange can give**: that it took too long, that waiting for the process failed, or
what came of it once all was over. -/
theorem result?_cases (h : x.result? executable limit deadline = some r) :
    (r = .error (.timeout executable (limit.getD ⟨0⟩)) ∧
      .expired ∈ await deadline x.exitPolls :: x.threads deadline) ∨
    (∃ cause, x.exit = .error cause ∧ r = .error (.io executable cause)) ∨
    ∃ exit, x.exit = .ok exit ∧ await deadline x.exitPolls = .ended ∧
      (∀ w ∈ x.threads deadline, w = .ended) ∧ r = x.settled executable exit := by
  rw [result?] at h
  split at h
  · cases h
  · next he =>
    cases h
    exact .inl ⟨rfl, he ▸ List.mem_cons_self⟩
  · next he =>
    split at h
    · next cause hx =>
      cases h
      exact .inr (.inl ⟨cause, hx, rfl⟩)
    · next exit hx =>
      split at h
      · cases h
      · next hj =>
        cases h
        exact .inl ⟨rfl, List.mem_cons_of_mem _ (Wait.join_eq_expired.mp hj)⟩
      · next hj =>
        cases h
        exact .inr (.inr ⟨exit, hx, he, Wait.join_eq_ended.mp hj, rfl⟩)

theorem settled_eq_ok {exit : Exit} {s : List Char} (h : x.settled executable exit = .ok s) :
    exit.success = true ∧ (∀ cause, x.input ≠ .failed cause) ∧
      ∃ out err, x.out = .ok out ∧ x.err = .ok err ∧ s = Text.Utf8.repair out := by
  rw [settled] at h
  split at h
  · cases h
  · cases h
  · next out err ho he =>
    split at h
    · next hs =>
      split at h
      · cases h
      · next hi =>
        cases h
        exact ⟨hs, hi, out, err, ho, he, rfl⟩
    · cases h

theorem settled_ne_timeout {exit : Exit} {e : String} {d : Duration} :
    x.settled executable exit ≠ .error (.timeout e d) := by
  rw [settled]
  split
  · simp
  · simp
  · split
    · split <;> simp
    · simp

theorem settled_of_failure {exit : Exit} (hs : exit.success = false) {out err : List UInt8}
    (ho : x.out = .ok out) (he : x.err = .ok err) :
    x.settled executable exit = .error (.failed executable exit.code (Text.Utf8.repair err)) := by
  rw [settled, ho, he]
  dsimp only
  rw [hs, if_neg Bool.false_ne_true]

end Exchange

end CodeTint
