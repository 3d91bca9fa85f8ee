/-
# What a run with several parts went through

A `Run` made of parts ends well just if each part does, each from the state that the one before it
left.  These lemmas take the outcome of the whole apart, so that nobody has to look into the monad.
-/
import CodeTint.Run

namespace CodeTint.Run

variable {σ α β : Type}

@[simp] theorem outcome_pure (a : α) (s : σ) : (pure a : Run σ α).outcome s = (.ok a, s) := rfl

@[simp] theorem outcome_ofReading (r : Except Markup.Ambiguity α) (s : σ) :
    (ofReading r : Run σ α).outcome s = (r.mapError Error.ambiguous, s) := rfl

theorem outcome_bind (x : Run σ α) (f : α → Run σ β) (s : σ) :
    (x >>= f).outcome s
      = match x.outcome s with
        | (.ok a, s') => (f a).outcome s'
        | (.error e, s') => (.error e, s') := by
  show (ExceptT.run (x >>= f)).run s = _
  rw [ExceptT.run_bind, StateT.run_bind]
  show _ = match x.run.run s with
    | (.ok a, s') => (f a).run.run s'
    | (.error e, s') => (.error e, s')
  generalize x.run.run s = r
  obtain ⟨r, s'⟩ := r
  cases r <;> rfl

/-- **Two parts end well just if the first does, and the second does from where it left.** -/
theorem outcome_bind_ok {x : Run σ α} {f : α → Run σ β} {s s'' : σ} {b : β} :
    (x >>= f).outcome s = (.ok b, s'') ↔
      ∃ a s', x.outcome s = (.ok a, s') ∧ (f a).outcome s' = (.ok b, s'') := by
  rw [outcome_bind]
  constructor
  · intro h
    split at h
    · next a s' hx => exact ⟨a, s', hx, h⟩
    · next e s' hx => cases h
  · rintro ⟨a, s', hx, h⟩
    rw [hx]
    exact h

/-- Work on each member of a list gives one result for each. -/
theorem length_of_mapM {f : α → Run σ β} {xs : List α} {ys : List β} {s s' : σ}
    (h : (xs.mapM f).outcome s = (.ok ys, s')) : ys.length = xs.length := by
  induction xs generalizing ys s with
  | nil =>
    rw [List.mapM_nil, outcome_pure] at h
    cases h
    rfl
  | cons x xs ih =>
    rw [List.mapM_cons, outcome_bind_ok] at h
    obtain ⟨y, s₁, -, h⟩ := h
    rw [outcome_bind_ok] at h
    obtain ⟨zs, s₂, hz, h⟩ := h
    rw [outcome_pure] at h
    cases h
    rw [List.length_cons, List.length_cons, ih hz]

/-- **The result for a member** is that of the work on it, from some state on the way. -/
theorem getElem?_of_mapM {f : α → Run σ β} {xs : List α} {ys : List β} {s s' : σ}
    (h : (xs.mapM f).outcome s = (.ok ys, s')) {i : Nat} {x : α} (hx : xs[i]? = some x) :
    ∃ y s₁ s₂, ys[i]? = some y ∧ (f x).outcome s₁ = (.ok y, s₂) := by
  induction xs generalizing ys s i with
  | nil => cases hx
  | cons x' xs ih =>
    rw [List.mapM_cons, outcome_bind_ok] at h
    obtain ⟨y, s₁, hy, h⟩ := h
    rw [outcome_bind_ok] at h
    obtain ⟨zs, s₂, hz, h⟩ := h
    rw [outcome_pure] at h
    cases h
    cases i with
    | zero =>
      cases hx
      exact ⟨y, s, s₁, rfl, hy⟩
    | succ i => exact ih hz hx

/-- **Work on the members of a list ends in an error just if it does on one of them**, from the
state that the work on those before it leaves.  The members behind it are not worked on. -/
theorem mapM_eq_error {f : α → Run σ β} {xs : List α} {s s' : σ} {e : Error} :
    (xs.mapM f).outcome s = (.error e, s') ↔
      ∃ front x back ys s₁, xs = front ++ x :: back ∧
        (front.mapM f).outcome s = (.ok ys, s₁) ∧ (f x).outcome s₁ = (.error e, s') := by
  constructor
  · intro h
    induction xs generalizing s with
    | nil => cases h
    | cons x xs ih =>
      rw [List.mapM_cons, outcome_bind] at h
      split at h
      · next y s₁ hx =>
        rw [outcome_bind] at h
        split at h
        · cases h
        · next e' s₂ hxs =>
          cases h
          obtain ⟨front, z, back, ys, s₃, rfl, hfront, hz⟩ := ih hxs
          refine ⟨x :: front, z, back, y :: ys, s₃, rfl, ?_, hz⟩
          rw [List.mapM_cons, outcome_bind_ok]
          exact ⟨y, s₁, hx, outcome_bind_ok.mpr ⟨ys, s₃, hfront, rfl⟩⟩
      · next e' s₁ hx =>
        cases h
        exact ⟨[], x, xs, [], s, rfl, rfl, hx⟩
  · rintro ⟨front, x, back, ys, s₁, rfl, hfront, hx⟩
    rw [List.mapM_append, outcome_bind, hfront]
    dsimp only
    rw [List.mapM_cons, outcome_bind, outcome_bind, hx]

/-! ## Two runs side by side -/

variable {σ' : Type} {R : σ → σ' → Prop}

/-- **Two runs agree**: from states that are related they have the same result, and their states are
related again. -/
def Agree (R : σ → σ' → Prop) (x : Run σ α) (y : Run σ' α) : Prop :=
  ∀ s s', R s s' → (x.outcome s).1 = (y.outcome s').1 ∧ R (x.outcome s).2 (y.outcome s').2

theorem Agree.pure (a : α) : Agree R (pure a) (pure a) := fun _ _ h => ⟨rfl, h⟩

theorem Agree.ofExcept (r : Except Error α) : Agree R (ofExcept r) (ofExcept r) :=
  fun _ _ h => ⟨rfl, h⟩

/-- Runs with parts agree if the parts do. -/
theorem Agree.bind {x : Run σ α} {y : Run σ' α} {f : α → Run σ β} {g : α → Run σ' β}
    (h : Agree R x y) (hf : ∀ a, Agree R (f a) (g a)) : Agree R (x >>= f) (y >>= g) := by
  intro s s' hs
  obtain ⟨hr, hs'⟩ := h s s' hs
  rw [outcome_bind, outcome_bind]
  generalize x.outcome s = u at hr hs'
  generalize y.outcome s' = v at hr hs'
  obtain ⟨r, t⟩ := u
  obtain ⟨r', t'⟩ := v
  cases hr
  cases r with
  | error e => exact ⟨rfl, hs'⟩
  | ok a => exact hf a t t' hs'

theorem Agree.mapM {f : α → Run σ β} {g : α → Run σ' β} (hf : ∀ a, Agree R (f a) (g a))
    (xs : List α) : Agree R (xs.mapM f) (xs.mapM g) := by
  induction xs with
  | nil => rw [List.mapM_nil, List.mapM_nil]; exact Agree.pure _
  | cons x xs ih =>
    rw [List.mapM_cons, List.mapM_cons]
    exact (hf x).bind fun y => ih.bind fun ys => Agree.pure _

end CodeTint.Run
