/-
# The talk with a script

A call of a script is computed from looks that are known beforehand (`Script.Outcome.exchange`).
**That is a talk like any other**, in the order of one schedule (`Host.converse_eq_run`): the caller
looks every ten milliseconds until the script is over, or until a look was too late (`run_rounds`).
-/
import CodeTint.Proofs.Tool.Schedule

namespace CodeTint

/-! ## 1. Rounds -/

namespace Talk

variable {call : Invocation} {t : Talk} {clock : Nat}

/-- The talk with a script that goes on, at a look at the process. -/
structure Waits (t : Talk) (call : Invocation) (clock : Nat) : Prop where
  call : t.call = call
  begun : t.begun = 0
  scene : t.scene = { clock }
  stage : t.stage = .look .exit
  notes : t.notes = fun _ => none

/-- The talk with a script that the caller has given up on. -/
structure Reaps (t : Talk) (call : Invocation) (clock : Nat) : Prop where
  call : t.call = call
  scene : t.scene = { clock }
  stage : t.stage = .reap

/-- Whether the clock is past the deadline of a call that began at the start of time. -/
def isLate (call : Invocation) (clock : Nat) : Bool :=
  (call.timeout.map Duration.nanos).any (· ≤ clock)

/-- One round: the caller gives up if the clock is past the deadline. -/
theorem Waits.run_pollRound (h : t.Waits call clock) :
    (isLate call clock = true → (t.run pollRound).Reaps call (clock + pollInterval)) ∧
      (isLate call clock = false → (t.run pollRound).Waits call (clock + pollInterval)) := by
  obtain ⟨⟨executable, arguments, input, searchPath, timeout⟩, begun, scene, stage, looks, notes⟩ := t
  obtain ⟨rfl, rfl, rfl, rfl, rfl⟩ := h
  cases timeout with
  | none => exact ⟨nofun, fun _ => ⟨rfl, rfl, rfl, rfl, rfl⟩⟩
  | some limit =>
    constructor
    · intro hlate
      have hlate : limit.nanos ≤ clock := by simpa [isLate] using hlate
      constructor <;>
        simp [run, pollRound, step, act, Scene.over?, deadline, hlate, giveUp, keep, Scene.after]
    · intro hlate
      have hlate : clock < limit.nanos := by simpa [isLate] using hlate
      constructor <;>
        simp [run, pollRound, step, act, Scene.over?, deadline, Nat.not_le.mpr hlate, keep, Scene.after]

theorem Reaps.run_pollRound (h : t.Reaps call clock) :
    (t.run pollRound).Reaps call (clock + pollInterval) := by
  obtain ⟨call', begun, scene, stage, looks, notes⟩ := t
  obtain ⟨rfl, rfl, rfl⟩ := h
  exact ⟨rfl, rfl, rfl⟩

/-- **After some rounds the caller goes on looking**, or has given up at one of the looks. -/
theorem run_rounds (call : Invocation) (n : Nat) :
    let t := (start call 0).run (List.replicate n pollRound).flatten
    (∀ k < n, isLate call (k * pollInterval) = false) ∧ t.Waits call (n * pollInterval) ∨
      (∃ k < n, isLate call (k * pollInterval) = true) ∧ t.Reaps call (n * pollInterval) := by
  intro t
  induction n with
  | zero => exact .inl ⟨nofun, ⟨rfl, rfl, rfl, rfl, rfl⟩⟩
  | succ n ih =>
    have hrun : t = ((start call 0).run (List.replicate n pollRound).flatten).run pollRound := by
      rw [← run_append, ← List.flatten_concat, ← List.replicate_succ']
    rw [hrun, Nat.succ_mul]
    rcases ih with ⟨hno, hw⟩ | ⟨⟨k, hk, hlate⟩, hr⟩
    · cases hl : isLate call (n * pollInterval) with
      | true => exact .inr ⟨⟨n, Nat.lt_succ_self n, hl⟩, hw.run_pollRound.1 hl⟩
      | false =>
        refine .inl ⟨fun k hk => ?_, hw.run_pollRound.2 hl⟩
        rcases Nat.lt_succ_iff_lt_or_eq.mp hk with hk | rfl
        · exact hno k hk
        · exact hl
    · exact .inr ⟨⟨k, Nat.lt_succ_of_lt hk, hlate⟩, hr.run_pollRound⟩

/-- Once a script is over, the caller concludes. -/
theorem result?_lastTurns (o : Script.Outcome) (h : t.Waits call clock) :
    (t.run o.lastTurns).result? = some (o.exchange.settled call.executable o.ending.exit) := by
  obtain ⟨call', begun, scene, stage, looks, notes⟩ := t
  obtain ⟨rfl, rfl, rfl, rfl, rfl⟩ := h
  simp [run, Script.Outcome.lastTurns, step, act, take, note, keep, moveOn, conclusion, result?,
    Scene.after, Scene.over?, Reading.deliver, Reading.close, Reading.result?, Except.map,
    Exchange.settled, Script.Outcome.exchange]

/-- Once a script is over that the caller has given up on, it is late. -/
theorem Reaps.result?_lastTurns (o : Script.Outcome) (h : t.Reaps call clock) :
    (t.run o.lastTurns).result?
      = some (.error (.timeout call.executable (call.timeout.getD ⟨0⟩))) := by
  obtain ⟨call', begun, scene, stage, looks, notes⟩ := t
  obtain ⟨rfl, rfl, rfl⟩ := h
  simp [run, Script.Outcome.lastTurns, step, act, late, result?, Scene.after]

end Talk

/-! ## 2. The looks at a script -/

namespace Script.Outcome

/-- **The looks at a script** find it unfinished until it is over. -/
theorem pollsUntil_eq (o : Outcome) :
    ∃ more, pollsUntil (startupNanos + o.millis * 1000000)
      = (List.range o.rounds).map (fun k => ⟨false, k * pollInterval⟩) ++
        ⟨true, o.rounds * pollInterval⟩ :: more := by
  rw [pollsUntil, rounds]
  generalize startupNanos + o.millis * 1000000 = moment
  have hover : moment ≤ (moment + (pollInterval - 1)) / pollInterval * pollInterval := by
    rw [pollInterval]
    omega
  have hgoes : ∀ k < (moment + (pollInterval - 1)) / pollInterval,
      ¬ moment ≤ k * pollInterval := by
    rw [pollInterval]
    omega
  obtain ⟨r, hr⟩ : ∃ r, moment / pollInterval + 2
      = (moment + (pollInterval - 1)) / pollInterval + (r + 1) := by
    refine ⟨moment / pollInterval + 1 - (moment + (pollInterval - 1)) / pollInterval, ?_⟩
    rw [pollInterval]
    omega
  rw [hr, List.range_add, List.map_append, List.range_succ_eq_map, List.map_cons, List.map_cons,
    Nat.add_zero, decide_eq_true hover]
  refine ⟨_, congrArg (· ++ _) (List.map_congr_left fun k hk => ?_)⟩
  rw [decide_eq_false (hgoes k (List.mem_range.mp hk))]

/-- Looks at given moments that find it unfinished. -/
theorem await_unfinished_at (call : Invocation) (n : Nat) (clock : Nat → Nat) :
    await (call.timeout.map Duration.nanos) ((List.range n).map fun k => ⟨false, clock k⟩)
      = if (List.range n).any fun k => Talk.isLate call (clock k) then .expired else .going := by
  rw [await_of_unfinished (by simp), List.any_map]
  rfl

/-- The waiting for a script ends, unless a look before its end is too late. -/
theorem await_pollsUntil (call : Invocation) (o : Outcome) :
    await (call.timeout.map Duration.nanos) (pollsUntil (startupNanos + o.millis * 1000000))
      = if (List.range o.rounds).any fun k => Talk.isLate call (k * pollInterval) then .expired
        else .ended := by
  obtain ⟨more, hsplit⟩ := pollsUntil_eq o
  rw [hsplit, await_append, await_unfinished_at call o.rounds (· * pollInterval)]
  by_cases hlate : ((List.range o.rounds).any fun k => Talk.isLate call (k * pollInterval)) = true
  · rw [if_pos hlate, if_neg (by simp), if_pos hlate]
  · rw [if_neg hlate, if_pos rfl, if_neg hlate, await, if_pos rfl]

/-- What comes of the talk with a script depends on one thing only, whether a look was too late. -/
theorem result?_exchange (call : Invocation) (o : Outcome) :
    o.exchange.result? call.executable call.timeout (call.timeout.map Duration.nanos)
      = some (if (List.range o.rounds).any fun k => Talk.isLate call (k * pollInterval) then
          .error (.timeout call.executable (call.timeout.getD ⟨0⟩))
        else o.exchange.settled call.executable o.ending.exit) := by
  have hwait := await_pollsUntil call o
  have hexit : o.exchange.exitPolls = pollsUntil (startupNanos + o.millis * 1000000) := rfl
  have hinput : o.exchange.inputPolls = pollsUntil (startupNanos + o.millis * 1000000) := rfl
  have hout : o.exchange.outPolls = pollsUntil (startupNanos + o.millis * 1000000) := rfl
  have herr : o.exchange.errPolls = pollsUntil (startupNanos + o.millis * 1000000) := rfl
  have hok : o.exchange.exit = .ok o.ending.exit := rfl
  rw [Exchange.result?, hexit, hinput, hout, herr, hwait, hok]
  cases (List.range o.rounds).any fun k => Talk.isLate call (k * pollInterval) with
  | true => rfl
  | false => rfl

end Script.Outcome

/-- **What a call of a script gives is what the talk with it gives**, in its schedule's order. -/
theorem Host.converse_eq_run {h : Host} {call : Invocation} {p : Path} {file : List UInt8}
    {script : List Char} (hfile : h.read? p = some file) (hs : scriptIn? file = some script) :
    some (h.converse call p) = ((Talk.start call 0).run
      (Script.run script call.arguments (Text.Utf8.encode call.input)).schedule).result? := by
  have hstart : Programs.start file call.arguments (Text.Utf8.encode call.input)
      = .ok (Script.run script call.arguments (Text.Utf8.encode call.input)).exchange := by
    simp only [Programs.start, hs]
  rw [converse, hfile]
  dsimp only
  rw [hstart]
  dsimp only
  rw [Script.Outcome.result?_exchange, Option.getD_some, Script.Outcome.schedule, Talk.run_append]
  rcases Talk.run_rounds call (Script.run script call.arguments (Text.Utf8.encode call.input)).rounds
    with ⟨hno, hw⟩ | ⟨⟨k, hk, hlate⟩, hr⟩
  · rw [Talk.result?_lastTurns _ hw, if_neg]
    simpa using hno
  · rw [hr.result?_lastTurns, if_pos]
    simpa using ⟨k, hk, hlate⟩

end CodeTint
