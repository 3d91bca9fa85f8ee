/-
# Every order in which a talk can go

A schedule says in which order the process, its threads, the clock and the caller take their turns.
**Whatever the order, what the call gives is what its looks say** (`sound_run`,
`exchange_of_result?`).

From that follows what a call can give in the end (`every_schedule`): output only of a process that
went well and whose threads are all done, and then all that it wrote; the whole complaint of a
process that failed, whatever became of its input; and that it took too long only if something was
found unfinished and the clock read next was at or past the deadline (`FoundUnfinished`).
-/
import CodeTint.Proofs.Tool.Talk
import Mathlib.Data.List.Induction

namespace CodeTint

namespace Talk

variable {t : Talk}

/-! ## 1. Schedules -/

theorem run_concat (t : Talk) (turns : List Turn) (turn : Turn) :
    t.run (turns ++ [turn]) = (t.run turns).step turn := List.foldl_append

theorem run_append (t : Talk) (turns more : List Turn) :
    t.run (turns ++ more) = (t.run turns).run more := List.foldl_append

/-- **After any turns the caller knows what is true, and its stage fits.** -/
theorem sound_run (call : Invocation) (begun : Nat) (turns : List Turn) :
    ((start call begun).run turns).Knows ∧ ((start call begun).run turns).Fits := by
  induction turns using List.reverseRecOn with
  | nil => exact ⟨start_knows call begun, start_fits call begun⟩
  | append_singleton turns turn ih =>
    rw [run_concat]
    cases turn with
    | calls => exact sound_act ih.1 ih.2
    | _ => exact ⟨knows_after ih.1 _, ih.2⟩

/-! ## 2. What the caller's turn leaves alone, and what it adds -/

/-- **The caller changes nothing but its stage, its looks and its notes.** -/
structure Frame (t t' : Talk) : Prop where
  call : t'.call = t.call
  begun : t'.begun = t.begun
  scene : t'.scene = t.scene

theorem frame_moveOn (t : Talk) (p : Part) : t.Frame (t.moveOn p) := by
  match p with
  | .exit | .input | .stream .out | .stream .err => exact ⟨rfl, rfl, rfl⟩

theorem frame_take (t : Talk) (p : Part) (v : p.Value) : t.Frame (t.take p v) := by
  obtain ⟨hc, hb, hs⟩ := (t.note p v).frame_moveOn p
  match p, v with
  | .exit, .error cause => exact ⟨rfl, rfl, rfl⟩
  | .exit, .ok exit | .input, v | .stream x, v => exact ⟨hc, hb, hs⟩

theorem frame_giveUp (t : Talk) (p : Part) : t.Frame (t.giveUp p) := by
  cases p with
  | exit => exact ⟨rfl, rfl, rfl⟩
  | input => exact t.frame_moveOn .input
  | stream x => exact t.frame_moveOn (.stream x)

theorem frame_act (t : Talk) : t.Frame t.act := by
  rw [act]
  split
  · next p hstage =>
    split
    · next v hv => exact t.frame_take p v
    · split <;> exact ⟨rfl, rfl, rfl⟩
  · next p hstage =>
    obtain ⟨hc, hb, hs⟩ := (t.keep p ⟨false, t.scene.clock⟩).frame_giveUp p
    dsimp only
    split
    · exact ⟨hc, hb, hs⟩
    · exact ⟨rfl, rfl, rfl⟩
  · split <;> exact ⟨rfl, rfl, rfl⟩
  · exact ⟨rfl, rfl, rfl⟩

theorem call_run (t : Talk) (turns : List Turn) :
    (t.run turns).call = t.call ∧ (t.run turns).begun = t.begun := by
  induction turns using List.reverseRecOn with
  | nil => exact ⟨rfl, rfl⟩
  | append_singleton turns turn ih =>
    rw [run_concat]
    cases turn with
    | calls => exact ⟨(frame_act _).call.trans ih.1, (frame_act _).begun.trans ih.2⟩
    | _ => exact ih

/-- The scene goes its own way. -/
theorem scene_run (t : Talk) (turns : List Turn) :
    (t.run turns).scene = turns.foldl Scene.after t.scene := by
  induction turns using List.reverseRecOn with
  | nil => rfl
  | append_singleton turns turn ih =>
    rw [run_concat, List.foldl_append, ← ih]
    cases turn with
    | calls => exact (frame_act _).scene
    | _ => rfl

theorem looks_take (t : Talk) (p : Part) (v : p.Value) :
    (t.take p v).looks = (t.keep p ⟨true, t.scene.clock⟩).looks := by
  match p, v with
  | .exit, .error cause => rfl
  | .exit, .ok exit | .input, v | .stream .out, v | .stream .err, v => rfl

theorem looks_giveUp (t : Talk) (p : Part) : (t.giveUp p).looks = t.looks := by
  match p with
  | .exit | .input | .stream .out | .stream .err => rfl

theorem mem_keep {p q : Part} {poll new : Poll} :
    poll ∈ (t.keep p new).looks q ↔ poll ∈ t.looks q ∨ q = p ∧ poll = new := by
  by_cases hq : q = p
  · subst hq
    simp [looks_keep_self]
  · simp [looks_keep_of_ne hq, hq]

/-- **A look is kept as unfinished when the clock is read**, with what the clock shows. -/
theorem looks_act {p : Part} {poll : Poll} (h : poll ∈ t.act.looks p) (hu : poll.ended = false) :
    poll ∈ t.looks p ∨ t.stage = .clock p ∧ poll.clock = t.scene.clock := by
  rw [act] at h
  split at h
  · next q hstage =>
    split at h
    · rw [looks_take, mem_keep] at h
      rcases h with h | ⟨-, rfl⟩
      · exact .inl h
      · cases hu
    · split at h <;> exact .inl h
  · next q hstage =>
    have hkeep : poll ∈ (t.keep q ⟨false, t.scene.clock⟩).looks p := by
      dsimp only at h
      split at h
      · rwa [looks_giveUp] at h
      · exact h
    rcases mem_keep.mp hkeep with hold | ⟨rfl, rfl⟩
    · exact .inl hold
    · exact .inr ⟨hstage, rfl⟩
  · split at h <;> exact .inl h
  · exact .inl h

theorem stage_moveOn (t : Talk) (p q : Part) : (t.moveOn p).stage ≠ .clock q := by
  match p with
  | .exit | .input | .stream .out | .stream .err => simp [moveOn]

/-- **The clock is read for a part that was found unfinished.** -/
theorem stage_act {p : Part} (h : t.act.stage = .clock p) :
    t.stage = .look p ∧ t.scene.over? p = none := by
  rw [act] at h
  split at h
  · next q hstage =>
    split at h
    · next v hv =>
      cases q with
      | exit =>
        cases v with
        | error cause => cases h
        | ok exit => exact absurd h (stage_moveOn _ _ _)
      | input | stream x => exact absurd h (stage_moveOn _ _ _)
    · next hnone =>
      split at h
      · cases h
        exact ⟨hstage, hnone⟩
      · rw [hstage] at h
        cases h
  · next q hstage =>
    dsimp only at h
    split at h
    · cases q with
      | exit => cases h
      | input => exact absurd h (stage_moveOn _ .input _)
      | stream x => exact absurd h (stage_moveOn _ (.stream x) _)
    · cases h
  · next hstage =>
    split at h
    · cases h
    · rw [hstage] at h
      cases h
  · next hstage =>
    rw [hstage] at h
    cases h

/-! ## 3. What was seen -/

/-- **In the course of some turns the caller found a part unfinished and then read the clock**, with
nothing that it did in between. -/
def FoundUnfinished (t : Talk) (turns : List Turn) (p : Part) (clock : Nat) : Prop :=
  ∃ before between after, turns = before ++ .calls :: (between ++ .calls :: after) ∧
    .calls ∉ between ∧ (t.run before).stage = .look p ∧ (t.run before).scene.over? p = none ∧
    (t.run (before ++ .calls :: between)).scene.clock = clock

theorem FoundUnfinished.concat {turns : List Turn} {p : Part} {clock : Nat}
    (h : t.FoundUnfinished turns p clock) (turn : Turn) :
    t.FoundUnfinished (turns ++ [turn]) p clock := by
  obtain ⟨before, between, after, rfl, hrest⟩ := h
  exact ⟨before, between, after ++ [turn], by simp, hrest⟩

/-- A caller that is about to read the clock has found the part unfinished at its last turn. -/
theorem found_of_clock {turns : List Turn} {p : Part} (hs : t.stage = .look .exit)
    (h : (t.run turns).stage = .clock p) :
    ∃ before between, turns = before ++ .calls :: between ∧ .calls ∉ between ∧
      (t.run before).stage = .look p ∧ (t.run before).scene.over? p = none := by
  induction turns using List.reverseRecOn with
  | nil =>
    rw [run, List.foldl_nil, hs] at h
    cases h
  | append_singleton turns turn ih =>
    rw [run_concat] at h
    by_cases hc : turn = .calls
    · subst hc
      obtain ⟨hlook, hnone⟩ := stage_act h
      exact ⟨turns, [], by simp, by simp, hlook, hnone⟩
    · have hstage : (t.run turns).stage = .clock p := by
        cases turn with
        | calls => exact absurd rfl hc
        | _ => exact h
      obtain ⟨before, between, rfl, hno, hrest⟩ := ih hstage
      exact ⟨before, between ++ [turn], by simp, by simp [hno, Ne.symm hc], hrest⟩

/-- **A look that is kept as unfinished was one.** -/
theorem found_of_mem {turns : List Turn} {p : Part} {poll : Poll} (hs : t.stage = .look .exit)
    (hl : ∀ q, t.looks q = []) (h : poll ∈ (t.run turns).looks p) (hu : poll.ended = false) :
    t.FoundUnfinished turns p poll.clock := by
  induction turns using List.reverseRecOn with
  | nil =>
    rw [run, List.foldl_nil, hl] at h
    cases h
  | append_singleton turns turn ih =>
    rw [run_concat] at h
    cases turn with
    | calls =>
      rcases looks_act h hu with hold | ⟨hclock, hread⟩
      · exact (ih hold).concat _
      · obtain ⟨before, between, rfl, hno, hlook, hnone⟩ := found_of_clock hs hclock
        exact ⟨before, between, [], by simp, hno, hlook, hnone, hread.symm⟩
    | _ => exact (ih h).concat _

end Talk

/-! ## 4. Streams -/

/-- **A reading has got what was delivered**, as long as it goes on. -/
theorem Scene.got_foldl (s : Scene) (x : Stream) (turns : List Turn) :
    ((turns.foldl Scene.after s).reading x).got
      = (s.reading x).got ++ if (s.reading x).ended.isSome then [] else delivered x turns := by
  induction turns generalizing s with
  | nil => simp [delivered]
  | cons turn turns ih =>
    rw [List.foldl_cons, ih]
    cases turn with
    | delivers y bytes =>
      by_cases hxy : x = y
      · subst hxy
        cases he : (s.reading x).ended <;> simp [after, delivered, Reading.deliver, he]
      · simp [after, delivered, hxy]
    | closes y how =>
      by_cases hxy : x = y
      · subst hxy
        cases he : (s.reading x).ended <;> simp [after, delivered, Reading.close, he]
      · simp [after, delivered, hxy]
    | _ => rfl

namespace Talk

/-! ## 5. Every order -/

/-- Bytes that were read to the end of a stream are all that it delivered. -/
theorem eq_delivered {call : Invocation} {begun : Nat} {turns : List Turn} {x : Stream}
    {bytes : List UInt8}
    (h : ((start call begun).run turns).scene.over? (.stream x) = some (.ok bytes)) :
    bytes = delivered x turns := by
  obtain ⟨how, -, hmap⟩ := Option.map_eq_some_iff.mp h
  have hgot := Scene.got_foldl (start call begun).scene x turns
  rw [← scene_run] at hgot
  cases how with
  | error cause => cases hmap
  | ok _ =>
    cases hmap
    exact hgot

variable {t : Talk}

/-- A talk that is done gives what was seen of it. -/
theorem exchange_of_result? (hf : t.Fits) {r : Except ToolError (List Char)}
    (h : t.result? = some r) :
    t.exchange.result? t.call.executable t.call.timeout t.deadline = some r := by
  rw [result?] at h
  split at h
  · next r' hstage =>
    cases h
    rw [Fits, hstage] at hf
    exact hf
  · cases h

/-- Waiting that has ended has given something. -/
theorem exists_note (hk : t.Knows) {p : Part} (h : await t.deadline (t.looks p) = .ended) :
    ∃ v, t.notes p = some v := Option.isSome_iff_exists.mp ((hk.ended p).mp h)

/-- **A caller that has got something from every part is done.** -/
theorem exists_result (hk : t.Knows) (hf : t.Fits) (hall : ∀ p, (t.notes p).isSome = true) :
    ∃ r, t.result? = some r := by
  have hended := fun p => (hk.ended p).mpr (hall p)
  rw [result?]
  rw [Fits] at hf
  cases hstage : t.stage with
  | look p | clock p =>
    rw [hstage] at hf
    have hgo := (hf.1 p).mpr (Nat.le_refl _)
    rw [hended p] at hgo
    cases hgo
  | reap =>
    rw [hstage] at hf
    dsimp only at hf
    rw [hended .exit] at hf
    cases hf
  | done r => exact ⟨r, rfl⟩

/-- **Output comes only of a process that went well, from threads that are all done.** -/
theorem parts_of_ok (hk : t.Knows) (hf : t.Fits) {s : List Char} (h : t.result? = some (.ok s)) :
    (∃ exit, t.notes .exit = some (.ok exit) ∧ exit.success = true) ∧
      (∃ fed, t.notes .input = some fed ∧ ∀ cause, fed ≠ .failed cause) ∧
      ∃ out err, t.notes (.stream .out) = some (.ok out) ∧
        t.notes (.stream .err) = some (.ok err) ∧ s = Text.Utf8.repair out := by
  obtain ⟨hlate, -⟩ | ⟨_, -, herror⟩ | ⟨exit, hexit, hended, hthreads, hs⟩ :=
    Exchange.result?_cases (exchange_of_result? hf h)
  · cases hlate
  · cases herror
  · obtain ⟨hsuccess, hfed, out, err, hout, herr, hs⟩ := Exchange.settled_eq_ok hs.symm
    obtain ⟨ve, hve⟩ := exists_note hk hended
    obtain ⟨vi, hvi⟩ := exists_note hk (hthreads _ (.head _))
    obtain ⟨vo, hvo⟩ := exists_note hk (hthreads _ (.tail _ (.head _)))
    obtain ⟨vr, hvr⟩ := exists_note hk (hthreads _ (.tail _ (.tail _ (.head _))))
    simp only [exchange, hve, hvi, hvo, hvr, Option.getD_some] at hexit hfed hout herr
    subst hexit hout herr
    exact ⟨⟨exit, hve, hsuccess⟩, ⟨vi, hvi, hfed⟩, out, err, hvo, hvr, hs⟩

/-- **A process that failed is reported with all that it complained of.** -/
theorem failed_of_parts (hk : t.Knows) (hf : t.Fits) {exit : Exit}
    (hexit : t.notes .exit = some (.ok exit)) (hs : exit.success = false) {fed : Feeding}
    (hfed : t.notes .input = some fed) {out err : List UInt8}
    (hout : t.notes (.stream .out) = some (.ok out))
    (herr : t.notes (.stream .err) = some (.ok err)) :
    t.result? = some (.error (.failed t.call.executable exit.code (Text.Utf8.repair err))) := by
  have hall : ∀ p, (t.notes p).isSome = true := by
    intro p
    match p with
    | .exit => rw [hexit]; rfl
    | .input => rw [hfed]; rfl
    | .stream .out => rw [hout]; rfl
    | .stream .err => rw [herr]; rfl
  obtain ⟨r, hr⟩ := exists_result hk hf hall
  have hended := fun p => (hk.ended p).mpr (hall p)
  obtain ⟨-, hlate⟩ | ⟨_, herror, -⟩ | ⟨exit', hexit', -, -, hsettled⟩ :=
    Exchange.result?_cases (exchange_of_result? hf hr)
  · simp [Exchange.threads, exchange, hended] at hlate
  · simp [exchange, hexit] at herror
  · simp only [exchange, hexit, Option.getD_some, Except.ok.injEq] at hexit'
    subst hexit'
    have ho : t.exchange.out = .ok out := by simp only [exchange, hout, Option.getD_some]
    have he : t.exchange.err = .ok err := by simp only [exchange, herr, Option.getD_some]
    rw [hr, hsettled, Exchange.settled_of_failure hs ho he]

/-- **A call takes too long only by a look that found something unfinished too late.** -/
theorem look_of_timeout (hf : t.Fits) {e : String} {limit : Duration}
    (h : t.result? = some (.error (.timeout e limit))) :
    ∃ p, await t.deadline (t.looks p) = .expired ∧ t.call.timeout.getD ⟨0⟩ = limit := by
  obtain ⟨hlate, hexpired⟩ | ⟨_, -, herror⟩ | ⟨_, -, -, -, hsettled⟩ :=
    Exchange.result?_cases (exchange_of_result? hf h)
  · cases hlate
    simp only [Exchange.threads, exchange, List.mem_cons, List.not_mem_nil, or_false] at hexpired
    rcases hexpired with hp | hp | hp | hp
    · exact ⟨.exit, hp.symm, rfl⟩
    · exact ⟨.input, hp.symm, rfl⟩
    · exact ⟨.stream .out, hp.symm, rfl⟩
    · exact ⟨.stream .err, hp.symm, rfl⟩
  · cases herror
  · exact absurd hsettled.symm Exchange.settled_ne_timeout

/-- **What a call can give, whatever the order of the turns.**

* Output is given only if the process went well, its input was written or not wanted, and both
  streams were read to their end; it is all that the process wrote.
* If the process ended, the threads were waited for and both streams were read, a process that
  failed gives its failure with all that it complained of, whatever became of its input.
* The call took too long only if there is a limit and something was found unfinished, with the clock
  at or past the deadline when it was read next.  If the first look at each part finds it over, the
  call never took too long, however late the look is.
* What the call gives is what the exchange gives that the caller has seen. -/
theorem every_schedule (call : Invocation) (begun : Nat) (turns : List Turn) :
    let t := (start call begun).run turns
    (∀ s, t.result? = some (.ok s) →
      (∃ exit, t.scene.exit = some (.ok exit) ∧ exit.success = true) ∧
      (∃ fed, t.scene.input = some fed ∧ ∀ cause, fed ≠ .failed cause) ∧
      (∀ x, (t.scene.reading x).result? = some (.ok (delivered x turns))) ∧
      s = Text.Utf8.repair (delivered .out turns)) ∧
    (∀ exit, t.notes .exit = some (.ok exit) → exit.success = false →
      (t.notes .input).isSome = true → (∀ x, ∃ bytes, t.notes (.stream x) = some (.ok bytes)) →
        t.result? = some (.error (.failed call.executable exit.code
          (Text.Utf8.repair (delivered .err turns))))) ∧
    (∀ e limit, t.result? = some (.error (.timeout e limit)) →
      call.timeout = some limit ∧ ∃ p clock,
        (start call begun).FoundUnfinished turns p clock ∧ begun + limit.nanos ≤ clock) ∧
    ((∀ p poll, (t.looks p).head? = some poll → poll.ended = true) →
      ∀ e limit, t.result? ≠ some (.error (.timeout e limit))) ∧
    ∀ r, t.result? = some r →
      t.exchange.result? call.executable call.timeout t.deadline = some r := by
  intro t
  obtain ⟨hk, hf⟩ := sound_run call begun turns
  obtain ⟨hcall, hbegun⟩ := call_run (start call begun) turns
  have hdeadline : t.deadline = call.timeout.map fun limit => begun + limit.nanos := by
    rw [deadline, hcall, hbegun]
    rfl
  refine ⟨fun s hs => ?_, fun exit hexit hfailure hfed hread => ?_, fun e limit hr => ?_,
    fun hfirst e limit hr => ?_, fun r hr => ?_⟩
  · obtain ⟨⟨exit, he, hsuccess⟩, ⟨fed, hi, hfed⟩, out, err, ho, hr, hs⟩ := parts_of_ok hk hf hs
    have hout := hk.notes ho
    have herr := hk.notes hr
    cases eq_delivered hout
    cases eq_delivered herr
    refine ⟨⟨exit, hk.notes he, hsuccess⟩, ⟨fed, hk.notes hi, hfed⟩, fun x => ?_, hs⟩
    cases x with
    | out => exact hout
    | err => exact herr
  · obtain ⟨fed, hfed⟩ := Option.isSome_iff_exists.mp hfed
    obtain ⟨out, hout⟩ := hread .out
    obtain ⟨err, herr⟩ := hread .err
    have hresult := failed_of_parts hk hf hexit hfailure hfed hout herr
    rw [hcall, eq_delivered (hk.notes herr)] at hresult
    exact hresult
  · obtain ⟨p, hp, hlimit⟩ := look_of_timeout hf hr
    obtain ⟨poll, hmem, hu, d, hd, hle⟩ := exists_of_await_expired hp
    have hfound := found_of_mem (t := start call begun) rfl (fun _ => rfl) hmem hu
    rw [hdeadline] at hd
    obtain ⟨limit', hl, rfl⟩ := Option.map_eq_some_iff.mp hd
    rw [hcall] at hlimit
    simp only [start, hl, Option.getD_some] at hlimit
    subst hlimit
    exact ⟨hl, p, poll.clock, hfound, hle⟩
  · obtain ⟨p, hp, -⟩ := look_of_timeout hf hr
    cases hlooks : t.looks p with
    | nil =>
      rw [hlooks] at hp
      cases hp
    | cons poll polls =>
      have hover := hfirst p poll (by rw [hlooks]; rfl)
      rw [hlooks, await, if_pos hover] at hp
      cases hp
  · have hexchange := exchange_of_result? hf hr
    rwa [hcall] at hexchange

/-- A call that may take thirty milliseconds. -/
def hurried : Invocation := ⟨"highlight", [], ['x'], some "tools", some ⟨30000000⟩⟩

/-- The process fails with a complaint and without reading its input; the caller looks too late, but
finds all over. -/
def complaining : List Turn :=
  [.delivers .err [98], .exits (.ok ⟨some 1⟩), .feeds (.failed "Input/output error"),
    .closes .err (.ok ()), .closes .out (.ok ()), .passes 40000000, .calls, .calls, .calls, .calls]

/-- The process goes well, but a child of it keeps its output open. -/
def lingering : List Turn :=
  [.delivers .out [97], .exits (.ok ⟨some 0⟩), .calls, .feeds .brokenPipe, .calls, .calls,
    .passes 40000000, .calls, .closes .err (.ok ()), .calls]

theorem every_schedule_complaining :
    ((start hurried 0).run complaining).result?
        = some (.error (.failed "highlight" (some 1) ['b'])) ∧
      ∃ p clock, (start hurried 0).FoundUnfinished lingering p clock ∧ 30000000 ≤ clock := by
  obtain ⟨-, hfailed, -⟩ := every_schedule hurried 0 complaining
  obtain ⟨-, -, hlate, -⟩ := every_schedule hurried 0 lingering
  constructor
  · have hread : ∀ x, ∃ bytes,
        ((start hurried 0).run complaining).notes (.stream x) = some (.ok bytes) := by
      intro x
      cases x with
      | out => exact ⟨[], rfl⟩
      | err => exact ⟨[98], rfl⟩
    have hcomplaint : Text.Utf8.repair (delivered .err complaining) = ['b'] := by decide +kernel
    rw [hfailed ⟨some 1⟩ rfl rfl rfl hread, hcomplaint]
    rfl
  · obtain ⟨hlimit, p, clock, hfound, hle⟩ := hlate "highlight" ⟨30000000⟩ rfl
    exact ⟨p, clock, hfound, hle⟩

end Talk

end CodeTint
