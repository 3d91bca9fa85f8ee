/-
# What the caller in a talk knows

The process, its threads, the clock and the caller of a `Talk` take turns in any order.  **At any
time the caller knows only what is true** (`Knows`), for what is over stays as it is
(`Scene.over?_after`), **and its stage says which parts it has waited for** (`Fits`).  Each turn
keeps both (`knows_after`, `sound_act`), so what the caller concludes is what the exchange gives
that it has seen (`result?_of_conclusion`).
-/
import CodeTint.Proofs.Tool.Exchange
import CodeTint.Tool.Talk

namespace CodeTint

/-! ## 1. The scene -/

namespace Reading

variable {r : Reading} {v : Except String (List UInt8)}

theorem result?_deliver (h : r.result? = some v) (bytes : List UInt8) :
    (r.deliver bytes).result? = some v := by
  obtain ⟨how, hh, -⟩ := Option.map_eq_some_iff.mp h
  rw [deliver, hh, Option.isSome_some, if_pos rfl, h]

theorem result?_close (h : r.result? = some v) (how : Except String Unit) :
    (r.close how).result? = some v := by
  obtain ⟨how', hh, -⟩ := Option.map_eq_some_iff.mp h
  rw [close, hh, Option.isSome_some, if_pos rfl, h]

end Reading

namespace Scene

/-- A turn leaves a reading alone, brings more bytes or closes it. -/
theorem reading_after (s : Scene) (turn : Turn) (x : Stream) :
    (s.after turn).reading x = s.reading x ∨
      (∃ bytes, (s.after turn).reading x = (s.reading x).deliver bytes) ∨
      ∃ how, (s.after turn).reading x = (s.reading x).close how := by
  cases turn with
  | delivers y bytes =>
    by_cases hxy : x = y
    · subst hxy
      exact .inr (.inl ⟨bytes, Function.update_self ..⟩)
    · exact .inl (Function.update_of_ne hxy ..)
  | closes y how =>
    by_cases hxy : x = y
    · subst hxy
      exact .inr (.inr ⟨how, Function.update_self ..⟩)
    · exact .inl (Function.update_of_ne hxy ..)
  | _ => exact .inl rfl

/-- **What is over stays as it is.** -/
theorem over?_after {s : Scene} {p : Part} {v : p.Value} (h : s.over? p = some v) (turn : Turn) :
    (s.after turn).over? p = some v := by
  cases p with
  | exit =>
    cases turn with
    | exits how => simp only [over?] at h; simp [over?, after, h]
    | _ => exact h
  | input =>
    cases turn with
    | feeds how => simp only [over?] at h; simp [over?, after, h]
    | _ => exact h
  | stream x =>
    rw [over?] at h ⊢
    rcases s.reading_after turn x with hr | ⟨bytes, hr⟩ | ⟨how, hr⟩
    · rw [hr, h]
    · rw [hr, Reading.result?_deliver h]
    · rw [hr, Reading.result?_close h]

end Scene

/-! ## 2. The caller -/

namespace Talk

variable {t : Talk}

/-- **What the caller knows is true**: what it has got from a part is what came of it, and it has
got something just if waiting for the part has ended. -/
structure Knows (t : Talk) : Prop where
  notes : ∀ {p v}, t.notes p = some v → t.scene.over? p = some v
  ended : ∀ p, await t.deadline (t.looks p) = .ended ↔ (t.notes p).isSome = true

/-- **What the stage says**: all parts before the one that the caller is at have been waited for, it
and those behind it have not, and the process had an exit. -/
def Fits (t : Talk) : Prop :=
  match t.stage with
  | .look p | .clock p =>
    (∀ q : Part, await t.deadline (t.looks q) = .going ↔ p.rank ≤ q.rank) ∧
      (p ≠ .exit → ∃ exit, t.notes .exit = some (.ok exit))
  | .reap => await t.deadline (t.looks .exit) = .expired
  | .done r => t.exchange.result? t.call.executable t.call.timeout t.deadline = some r

/-- Without something from every part the caller is late. -/
theorem conclusion_of_missing {p : Part} (hp : t.notes p = none) : t.conclusion = t.late := by
  rw [conclusion]
  split
  · next hexit hin hout herr =>
    match p with
    | .exit => rw [hexit] at hp; cases hp
    | .input => rw [hin] at hp; cases hp
    | .stream .out => rw [hout] at hp; cases hp
    | .stream .err => rw [herr] at hp; cases hp
  · rfl

/-- **What is concluded is what the exchange gives.** -/
theorem result?_of_conclusion (hk : t.Knows) {exit : Exit} (he : t.notes .exit = some (.ok exit))
    (hw : ∀ p, await t.deadline (t.looks p) ≠ .going) :
    t.exchange.result? t.call.executable t.call.timeout t.deadline = some t.conclusion := by
  have hgot : ∀ {p v}, t.notes p = some v → await t.deadline (t.looks p) = .ended :=
    fun h => (hk.ended _).mpr (by rw [h]; rfl)
  simp only [Exchange.result?, exchange, hgot he, he, Option.getD_some]
  by_cases hall : ∀ p, (t.notes p).isSome = true
  · obtain ⟨input, hi⟩ := Option.isSome_iff_exists.mp (hall .input)
    obtain ⟨out, ho⟩ := Option.isSome_iff_exists.mp (hall (.stream .out))
    obtain ⟨err, hr⟩ := Option.isSome_iff_exists.mp (hall (.stream .err))
    simp only [hgot hi, hgot ho, hgot hr, Wait.join, conclusion, he, hi, ho, hr, Option.getD_some,
      Exchange.settled]
  · -- what it has not got it has waited for too long
    obtain ⟨p, hp⟩ := not_forall.mp hall
    rw [Option.not_isSome_iff_eq_none] at hp
    have hlate : await t.deadline (t.looks p) = .expired := by
      have hended := hk.ended p
      have hgoing := hw p
      cases hwait : await t.deadline (t.looks p) <;> simp_all
    have hjoin : Wait.join [await t.deadline (t.looks .input),
        await t.deadline (t.looks (.stream .out)), await t.deadline (t.looks (.stream .err))]
          = .expired := by
      refine Wait.join_eq_expired.mpr ?_
      cases p with
      | exit =>
        rw [he] at hp
        cases hp
      | input => simp [hlate]
      | stream x => cases x <;> simp [hlate]
    rw [hjoin, conclusion_of_missing hp]
    rfl

/-! ## 3. Moving on -/

/-- **Behind a part that was waited for the next one is looked at**, or all is concluded. -/
theorem fits_moveOn (hk : t.Knows) {exit : Exit} (he : t.notes .exit = some (.ok exit)) {p : Part}
    (hw : ∀ q : Part, await t.deadline (t.looks q) = .going ↔ p.rank < q.rank) :
    (t.moveOn p).Fits := by
  match p with
  | .exit | .input | .stream .out => exact ⟨hw, fun _ => ⟨exit, he⟩⟩
  | .stream .err =>
    have hnone : ∀ q, await t.deadline (t.looks q) ≠ .going := by
      intro q hq
      have hlt := (hw q).mp hq
      cases q with
      | stream x => cases x <;> simp [Part.rank] at hlt
      | _ => simp [Part.rank] at hlt
    have hdone := result?_of_conclusion hk he hnone
    exact hdone

/-! ## 4. Turns -/

/-- A talk at its start is sound. -/
theorem start_knows (call : Invocation) (begun : Nat) : (start call begun).Knows where
  notes h := by cases h
  ended p := by simp [start, await]

theorem start_fits (call : Invocation) (begun : Nat) : (start call begun).Fits :=
  ⟨fun q => by simp [start, await, Part.rank], fun h => absurd rfl h⟩

/-- What happens beside the caller changes nothing of what it knows. -/
theorem knows_after (hk : t.Knows) (turn : Turn) :
    ({ t with scene := t.scene.after turn } : Talk).Knows where
  notes h := Scene.over?_after (hk.notes h) turn
  ended := hk.ended

theorem looks_keep_self (p : Part) (poll : Poll) : (t.keep p poll).looks p = t.looks p ++ [poll] :=
  Function.update_self ..

theorem looks_keep_of_ne {p q : Part} (h : q ≠ p) (poll : Poll) :
    (t.keep p poll).looks q = t.looks q := Function.update_of_ne h ..

theorem notes_note_self (p : Part) (v : p.Value) : (t.note p v).notes p = some v :=
  Function.update_self ..

theorem notes_note_of_ne {p q : Part} (h : q ≠ p) (v : p.Value) :
    (t.note p v).notes q = t.notes q := Function.update_of_ne h ..

/-- What the caller knows does not depend on its stage. -/
theorem knows_stage (hk : t.Knows) (stage : Stage) : ({ t with stage } : Talk).Knows :=
  ⟨hk.notes, hk.ended⟩

theorem knows_moveOn (hk : t.Knows) (p : Part) : (t.moveOn p).Knows := by
  match p with
  | .exit | .input | .stream .out | .stream .err => exact knows_stage hk _

theorem rank_injective : Function.Injective Part.rank := by
  intro p q
  match p, q with
  | .exit, q | .input, q | .stream .out, q | .stream .err, q =>
    cases q with
    | stream x => cases x <;> simp [Part.rank]
    | _ => simp [Part.rank]

/-- **A look that decides takes the waiting on by one part.** -/
theorem waits_keep {p : Part} {poll : Poll}
    (hw : ∀ q : Part, await t.deadline (t.looks q) = .going ↔ p.rank ≤ q.rank)
    (hpoll : await t.deadline [poll] ≠ .going) (q : Part) :
    await t.deadline ((t.keep p poll).looks q) = .going ↔ p.rank < q.rank := by
  by_cases hq : q = p
  · subst hq
    rw [looks_keep_self, await_append, if_pos ((hw q).mpr (Nat.le_refl _))]
    exact iff_of_false hpoll (Nat.lt_irrefl _)
  · rw [looks_keep_of_ne hq, hw q, Nat.le_iff_lt_or_eq, or_iff_left]
    exact fun h => hq (rank_injective h).symm

/-- A look that finds a part over ends the waiting for it. -/
theorem knows_note (hk : t.Knows) {p : Part} {v : p.Value}
    (hgo : await t.deadline (t.looks p) = .going) (hv : t.scene.over? p = some v) :
    (t.note p v).Knows := by
  have hself : await t.deadline ((t.note p v).looks p) = .ended := by
    show await t.deadline ((t.keep p _).looks p) = .ended
    rw [looks_keep_self, await_append, if_pos hgo, await_over]
  have hother : ∀ {q}, q ≠ p → (t.note p v).looks q = t.looks q := fun hq => looks_keep_of_ne hq _
  refine ⟨fun {q w} h => ?_, fun q => ?_⟩
  · by_cases hq : q = p
    · subst hq
      rw [notes_note_self] at h
      exact hv.trans h
    · rw [notes_note_of_ne hq] at h
      exact hk.notes h
  · by_cases hq : q = p
    · subst hq
      rw [notes_note_self]
      exact iff_of_true hself rfl
    · rw [hother hq, notes_note_of_ne hq]
      exact hk.ended q

/-- A look that finds a part unfinished gives the caller nothing. -/
theorem knows_keep (hk : t.Knows) {p : Part} (hgo : await t.deadline (t.looks p) = .going)
    (clock : Nat) : (t.keep p ⟨false, clock⟩).Knows := by
  have hnone : t.notes p = none := by
    have hended := hk.ended p
    rw [hgo] at hended
    cases hn : t.notes p with
    | none => rfl
    | some v => simp [hn] at hended
  have hself : await t.deadline ((t.keep p ⟨false, clock⟩).looks p) ≠ .ended := by
    rw [looks_keep_self, await_append, if_pos hgo, await_unfinished]
    split <;> simp
  refine ⟨hk.notes, fun q => ?_⟩
  by_cases hq : q = p
  · subst hq
    refine iff_of_false hself ?_
    rw [keep, hnone]
    simp
  · rw [looks_keep_of_ne hq]
    exact hk.ended q

/-- What is taken from a part that is found over. -/
theorem sound_take (hk : t.Knows) {p : Part} {v : p.Value}
    (hw : ∀ q : Part, await t.deadline (t.looks q) = .going ↔ p.rank ≤ q.rank)
    (hexit : p ≠ .exit → ∃ exit, t.notes .exit = some (.ok exit))
    (hv : t.scene.over? p = some v) : (t.take p v).Knows ∧ (t.take p v).Fits := by
  have hnote := knows_note hk ((hw p).mpr (Nat.le_refl _)) hv
  have hover : await t.deadline [⟨true, t.scene.clock⟩] ≠ .going := by simp [await_over]
  have hwaits := waits_keep hw hover
  match p, v with
  | .exit, .error cause =>
    refine ⟨knows_stage hnote _, ?_⟩
    have hended : await t.deadline ((t.note .exit (.error cause)).looks .exit) = .ended :=
      (hnote.ended _).mpr (by rw [notes_note_self]; rfl)
    have hresult : (t.note .exit (.error cause)).exchange.result? t.call.executable
        t.call.timeout t.deadline = some (.error (.io t.call.executable cause)) := by
      simp [Exchange.result?, exchange, hended, notes_note_self]
    exact hresult
  | .exit, .ok exit =>
    exact ⟨knows_moveOn hnote .exit, fits_moveOn hnote (notes_note_self ..) hwaits⟩
  | .input, v =>
    obtain ⟨exit, he⟩ := hexit (by simp)
    rw [← notes_note_of_ne (by simp) v] at he
    exact ⟨knows_moveOn hnote .input, fits_moveOn hnote he hwaits⟩
  | .stream x, v =>
    obtain ⟨exit, he⟩ := hexit (by simp)
    rw [← notes_note_of_ne (by simp) v] at he
    exact ⟨knows_moveOn hnote (.stream x), fits_moveOn hnote he hwaits⟩

/-- A part that it was waited for too long is given up. -/
theorem sound_giveUp (hk : t.Knows) {p : Part}
    (hexit : p ≠ .exit → ∃ exit, t.notes .exit = some (.ok exit))
    (hw : ∀ q : Part, await t.deadline (t.looks q) = .going ↔ p.rank < q.rank)
    (hlate : await t.deadline (t.looks p) = .expired) :
    (t.giveUp p).Knows ∧ (t.giveUp p).Fits := by
  cases p with
  | exit => exact ⟨knows_stage hk _, hlate⟩
  | input =>
    obtain ⟨exit, he⟩ := hexit (by simp)
    exact ⟨knows_moveOn hk .input, fits_moveOn hk he hw⟩
  | stream x =>
    obtain ⟨exit, he⟩ := hexit (by simp)
    exact ⟨knows_moveOn hk (.stream x), fits_moveOn hk he hw⟩

/-- **Whatever the caller does next, it knows what is true, and its stage says what it has waited
for.** -/
theorem sound_act (hk : t.Knows) (hf : t.Fits) : t.act.Knows ∧ t.act.Fits := by
  rw [act]
  split
  · next p hstage =>
    rw [Fits, hstage] at hf
    obtain ⟨hw, hexit⟩ := hf
    split
    · next v hv => exact sound_take hk hw hexit hv
    · split
      · exact ⟨knows_stage hk _, hw, hexit⟩
      · refine ⟨hk, ?_⟩
        rw [Fits, hstage]
        exact ⟨hw, hexit⟩
  · next p hstage =>
    rw [Fits, hstage] at hf
    obtain ⟨hw, hexit⟩ := hf
    have hgo := (hw p).mpr (Nat.le_refl _)
    have hkeep := knows_keep hk hgo t.scene.clock
    have hself : await t.deadline ((t.keep p ⟨false, t.scene.clock⟩).looks p)
        = await t.deadline [⟨false, t.scene.clock⟩] := by
      rw [looks_keep_self, await_append, if_pos hgo]
    rw [await_unfinished] at hself
    dsimp only
    split
    · next hd =>
      rw [if_pos hd] at hself
      have hnot : await t.deadline [⟨false, t.scene.clock⟩] ≠ .going := by
        simp [await_unfinished, hd]
      exact sound_giveUp hkeep hexit (waits_keep hw hnot) hself
    · next hd =>
      -- it is waited for the part as before
      rw [if_neg hd] at hself
      refine ⟨knows_stage hkeep _, fun q => ?_, hexit⟩
      by_cases hq : q = p
      · subst hq
        exact iff_of_true hself (Nat.le_refl _)
      · exact (looks_keep_of_ne hq _).symm ▸ hw q
  · next hstage =>
    rw [Fits, hstage] at hf
    split
    · refine ⟨knows_stage hk _, ?_⟩
      have hresult : t.exchange.result? t.call.executable t.call.timeout t.deadline
          = some t.late := by
        simp [Exchange.result?, exchange, hf, late]
      exact hresult
    · refine ⟨hk, ?_⟩
      rw [Fits, hstage]
      exact hf
  · exact ⟨hk, hf⟩

end Talk

end CodeTint
