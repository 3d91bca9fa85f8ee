/-
# Which block a run fails on, and what was colorized before

Blocks are planned in the order of the document, and **the first one that fails ends the run**.  A
watched registry (`Registry.watched`) tells what backends were called until then: a block that is
resolved is colorized once (`job`), the one that fails at most once, and those behind it never
(`failure_law`).

A block fails with an unknown colorizer just if the language that it asks for is routed to a name
that is none (`wanted`), be it from the class value or a mere candidate on a marker line.  Then no
backend is called for it.
-/
import CodeTint.Proofs.Document.Passes
import CodeTint.Proofs.Document.Plan
import CodeTint.Proofs.Registry.Calls

namespace CodeTint.Document

open CodeTint.Markup
open CodeTint.Registry (IsStartPath Setting Steady Watched World watched watched_colorize
  watched_recognizes)

/-! ## 1. A document and its blocks -/

/-- What comes of a document is what comes of its blocks. -/
theorem outcome_colorize_blocks {σ : Type} {e : Engine σ} {o : Options} {doc : List Char}
    {es : List Event} (he : events doc = .ok es) (s : σ) :
    (colorize e o doc).outcome s
      = match ((blocksOf o.blocks es).mapM (planBlock e)).outcome s with
        | (.ok plan, s') =>
          (.ok ⟨((merger o.blocks o.dialect).walk ⟨[], ⟨plan, 0⟩⟩ es).1,
            plan.length - skippedIn plan, skippedIn plan⟩, s')
        | (.error x, s') => (.error x, s') := by
  have hcollect : collect o.blocks doc = .ok (blocksOf o.blocks es) := by rw [collect, he]; rfl
  rw [colorize, Run.outcome_bind, Run.outcome_ofReading, hcollect]
  dsimp only [Except.mapError]
  rw [Run.outcome_bind]
  generalize ((blocksOf o.blocks es).mapM (planBlock e)).outcome s = x
  obtain ⟨x | plan, s'⟩ := x
  · rfl
  · dsimp only
    rw [Run.outcome_bind, Run.outcome_ofReading, merge_eq he]
    rfl

/-- A document that cannot be read is rejected before anybody is asked. -/
theorem rejected {σ : Type} {e : Engine σ} {o : Options} {doc : List Char} {a : Ambiguity}
    (ha : events doc = .error a) (s : σ) :
    (colorize e o doc).outcome s = (.error (.ambiguous a), s) := by
  have hcollect : collect o.blocks doc = .error a := by rw [collect, ha]; rfl
  rw [colorize, Run.outcome_bind, Run.outcome_ofReading, hcollect]
  rfl

/-- The entries of a plan that are not left alone. -/
theorem length_sub_skippedIn (plan : List (Option Replacement)) :
    plan.length - skippedIn plan = plan.countP Option.isSome := by
  have hsplit := List.length_eq_countP_add_countP Option.isSome (l := plan)
  have hskip : skippedIn plan = plan.countP fun x => ¬ x.isSome = true :=
    List.countP_congr fun x _ => by cases x <;> simp
  omega

/-! ## 2. What a block asks for -/

/-- **The language that a block asks for**: the one of its class value, or else the candidate on its
marker line. -/
def wanted (b : Block) : Option (List Char) :=
  match b.cls.bind Language.ofClass? with
  | some name => some name
  | none => Language.marker? (Entity.decode b.text)

/-- Whether a language is routed to a name that is no colorizer. -/
def isUnrouted (o : Options) (name : List Char) : Bool :=
  (Colorizer.ofName? (o.colorizerFor (String.ofList name))).isNone

/-- The error for such a language. -/
def unrouted (o : Options) (name : List Char) : Error :=
  .unknownColorizer (o.colorizerFor (String.ofList name)) (String.ofList name)

section

variable [Highlight.Library]

/-- **Whether a language is recognized**, as the options and the grammars say. -/
def recognizer (o : Options) (name : List Char) : Except Error Bool :=
  match Colorizer.ofName? (o.colorizerFor (String.ofList name)) with
  | none => .error (unrouted o name)
  | some .builtin => .ok ((BuiltinBackend.create none).knows (String.ofList name))
  | some (.tool _) => .ok true

/-- **What the language of a block is resolved to.** -/
def resolution (o : Options) (b : Block) : Except Error (Option Language.Resolved) :=
  Language.resolve (recognizer o) b.cls (Entity.decode b.text)

/-- **What there is to colorize for a block**, if its language is resolved: source and language. -/
def job (o : Options) (b : Block) : Option (List Char × String) :=
  match resolution o b with
  | .ok (some l) => some (Language.source l.origin (Entity.decode b.text), String.ofList l.name)
  | _ => none

/-! ## 3. What comes of a block -/

/-- **What comes of planning a block**, from one state of a watched registry to another. -/
inductive Planned (o : Options) (path : Option String) (b : Block) (s : Watched) :
    Except Error (Option Replacement) → Watched → Prop
  | unrouted {name : List Char} (hw : wanted b = some name) (hno : isUnrouted o name = true) :
    Planned o path b s (.error (unrouted o name)) s
  | unresolved {s' : Watched} (hr : job o b = none)
    (hw : ∀ name, wanted b = some name → isUnrouted o name = false)
    (hs : Steady o path s'.registry) (hj : s'.jobs = s.jobs) : Planned o path b s (.ok none) s'
  | colorized {s' : Watched} {j : List Char × String} {r : Except Error Replacement}
    (hr : job o b = some j) (hw : ∀ name, wanted b = some name → isUnrouted o name = false)
    (hs : Steady o path s'.registry) (hj : s'.jobs = s.jobs ++ [j])
    (hu : ∀ e, r = .error e → ∀ c l, e ≠ .unknownColorizer c l) :
    Planned o path b s (r.map some) s'

variable {o : Options} {path : Option String} {b : Block} {s s' : Watched} {w : World}

/-- A source is colorized by the backend that its language is routed to. -/
theorem planned_colorize {l : Language.Resolved} (hs : Steady o path s'.registry)
    (hj : s'.jobs = s.jobs) (hr : resolution o b = .ok (some l)) (hw : wanted b = some l.name)
    (hu : isUnrouted o l.name = false) :
    let out := ((watched w).colorize (Language.source l.origin (Entity.decode b.text))
      l.name).outcome s'
    Planned o path b s
      ((out.1.map fun fragment => ⟨newClass b.cls l.name, fragment⟩).map some) out.2 := by
  intro out
  obtain ⟨c, hc⟩ : ∃ c, Colorizer.ofName? (o.colorizerFor (String.ofList l.name)) = some c := by
    rw [isUnrouted, Option.isNone_eq_false_iff] at hu
    exact Option.isSome_iff_exists.mp hu
  have hout : out = _ := watched_colorize w _ _ s'
  rw [hs.colorizerFor, hc] at hout
  dsimp only at hout
  rw [hout]
  clear hout
  refine .colorized (j := (Language.source l.origin (Entity.decode b.text), String.ofList l.name))
    ?_ ?_ ?_ ?_ ?_
  · rw [job, hr]
  · intro name hname
    rw [hw] at hname
    cases hname
    exact hu
  · exact hs.after c _ _
  · rw [Watched.jobs, List.filterMap_append, ← hj]
    rfl
  · intro e he
    cases ha : w.answer s'.calls (s'.registry.backend c).1
        (Language.source l.origin (Entity.decode b.text)) (String.ofList l.name) with
    | ok fragment => rw [ha] at he; cases he
    | error x =>
      rw [ha] at he
      cases he
      exact w.routed ha

/-- **Planning a block** has one of these outcomes, if the grammars are fixed. -/
theorem planned [FixedGrammars] (w : World) (b : Block) (hs : Steady o path s.registry) :
    Planned o path b s ((planBlock (watched w) b).outcome s).1
      ((planBlock (watched w) b).outcome s).2 := by
  rw [outcome_planBlock, outcome_resolve]
  cases hclass : b.cls.bind Language.ofClass? with
  | some name =>
    -- the class value is trusted, nobody is asked
    have hw : wanted b = some name := by rw [wanted, hclass]
    have hr : resolution o b = .ok (some ⟨name, .className⟩) := by
      rw [resolution, Language.resolve, hclass]
      rfl
    cases hu : isUnrouted o name with
    | false => exact planned_colorize hs rfl hr hw hu
    | true =>
      dsimp only
      rw [watched_colorize, hs.colorizerFor, Option.isNone_iff_eq_none.mp hu]
      exact .unrouted hw hu
  | none =>
    cases hmarker : Language.marker? (Entity.decode b.text) with
    | none =>
      have hw : wanted b = none := by rw [wanted, hclass, hmarker]
      refine .unresolved ?_ (by simp [hw]) hs rfl
      rw [job, resolution, Language.resolve, hclass, hmarker]
      rfl
    | some name =>
      have hw : wanted b = some name := by rw [wanted, hclass, hmarker]
      have hr : resolution o b = (recognizer o name).map fun known =>
          if known then some ⟨name, .marker⟩ else none := by
        rw [resolution, Language.resolve, hclass, hmarker]
        dsimp only
        cases recognizer o name with
        | error e => rfl
        | ok known => cases known <;> rfl
      dsimp only
      rw [watched_recognizes, hs.colorizerFor]
      cases hc : Colorizer.ofName? (o.colorizerFor (String.ofList name)) with
      | none => exact .unrouted hw (by rw [isUnrouted, hc]; rfl)
      | some c =>
        have hu : isUnrouted o name = false := by rw [isUnrouted, hc]; rfl
        have hknows : recognizer o name
            = .ok ((s.registry.backend c).1.supports (String.ofList name)).1 := by
          rw [recognizer, hc, hs.supports_eq]
          cases c <;> rfl
        have hjobs : ∀ r, Watched.jobs ⟨r, s.calls ++
            [.supports (s.registry.backend c).1 (String.ofList name)]⟩ = s.jobs := by
          intro r
          rw [Watched.jobs, List.filterMap_append]
          exact List.append_nil _
        rw [hknows] at hr
        dsimp only
        cases hsupports : ((s.registry.backend c).1.supports (String.ofList name)).1 with
        | false =>
          rw [hsupports] at hr
          refine .unresolved ?_ ?_ (hs.supports c _) (hjobs _)
          · rw [job, hr]
            rfl
          · intro name' hname'
            rw [hw] at hname'
            cases hname'
            exact hu
        | true =>
          rw [hsupports] at hr
          exact planned_colorize (l := ⟨name, .marker⟩) (hs.supports c _) (hjobs _) hr hw hu

namespace Planned

variable {r : Except Error (Option Replacement)}

/-- **A block that does not fail is colorized once if it is resolved**, and else not at all. -/
theorem of_ok {x : Option Replacement} (h : Planned o path b s (.ok x) s') :
    Steady o path s'.registry ∧ s'.jobs = s.jobs ++ (job o b).toList ∧
      x.isSome = (job o b).isSome := by
  generalize hr : Except.ok x = r at h
  cases h with
  | unrouted hw hno => cases hr
  | unresolved hjob hw hs hj =>
    cases hr
    rw [hjob]
    exact ⟨hs, by rw [hj]; exact (List.append_nil _).symm, rfl⟩
  | @colorized _ j r' hjob hw hs hj hu =>
    cases r' with
    | error e => cases hr
    | ok y =>
      cases hr
      rw [hjob]
      exact ⟨hs, hj, rfl⟩

/-- A block that fails is colorized at most once. -/
theorem of_error {e : Error} (h : Planned o path b s (.error e) s') :
    ∃ last, s'.jobs = s.jobs ++ last ∧ (last = [] ∨ last = (job o b).toList) := by
  generalize hr : Except.error e = r at h
  cases h with
  | unrouted hw hno => exact ⟨[], (List.append_nil _).symm, .inl rfl⟩
  | unresolved hjob hw hs hj => exact ⟨[], by rw [hj, List.append_nil], .inl rfl⟩
  | @colorized _ j r' hjob hw hs hj hu => exact ⟨[j], hj, .inr (by rw [hjob]; rfl)⟩

/-- **A block fails with an unknown colorizer just if its language is routed to none.** -/
theorem unknown_iff (h : Planned o path b s r s') :
    (∃ c l, r = .error (.unknownColorizer c l)) ↔
      ∃ name, wanted b = some name ∧ isUnrouted o name = true := by
  cases h with
  | unrouted hw hno => exact ⟨fun _ => ⟨_, hw, hno⟩, fun _ => ⟨_, _, rfl⟩⟩
  | unresolved hjob hw hs hj =>
    refine ⟨fun ⟨_, _, hr⟩ => ?_, fun ⟨name, hname, hno⟩ => ?_⟩
    · cases hr
    · rw [hw name hname] at hno
      cases hno
  | @colorized _ j r' hjob hw hs hj hu =>
    refine ⟨fun ⟨c, l, hr⟩ => ?_, fun ⟨name, hname, hno⟩ => ?_⟩
    · cases r' with
      | ok y => cases hr
      | error e =>
        cases hr
        exact absurd rfl (hu _ rfl c l)
    · rw [hw name hname] at hno
      cases hno

/-- Then no backend is called for it. -/
theorem eq_of_unknown (h : Planned o path b s r s') {c l : String}
    (hr : r = .error (.unknownColorizer c l)) : s' = s := by
  cases h with
  | unrouted hw hno => rfl
  | unresolved hjob hw hs hj => cases hr
  | @colorized _ j r' hjob hw hs hj hu =>
    cases r' with
    | ok y => cases hr
    | error e =>
      cases hr
      exact absurd rfl (hu _ rfl c l)

end Planned

/-! ## 4. What comes of the blocks -/

/-- **Blocks that do not fail are colorized once each if they are resolved**, in their order. -/
theorem planned_all [FixedGrammars] {blocks : List Block} {plan : List (Option Replacement)}
    (hs : Steady o path s.registry)
    (h : (blocks.mapM (planBlock (watched w))).outcome s = (.ok plan, s')) :
    Steady o path s'.registry ∧ s'.jobs = s.jobs ++ blocks.filterMap (job o) ∧
      plan.map Option.isSome = blocks.map fun b => (job o b).isSome := by
  induction blocks generalizing s plan with
  | nil =>
    cases h
    exact ⟨hs, (List.append_nil _).symm, rfl⟩
  | cons b blocks ih =>
    rw [List.mapM_cons, Run.outcome_bind_ok] at h
    obtain ⟨x, s₁, hx, h⟩ := h
    rw [Run.outcome_bind_ok] at h
    obtain ⟨plan', s₂, hplan, h⟩ := h
    cases h
    have hb := planned w b hs
    rw [hx] at hb
    obtain ⟨hs₁, hj₁, hsome⟩ := hb.of_ok
    obtain ⟨hs₂, hj₂, hall⟩ := ih hs₁ hplan
    refine ⟨hs₂, ?_, ?_⟩
    · rw [hj₂, hj₁, List.append_assoc, List.filterMap_cons]
      cases job o b <;> rfl
    · rw [List.map_cons, List.map_cons, hsome, hall]

/-- **A block fails at its turn** with an error: those before it do not fail, and it does. -/
def FailsAt (w : World) (s : Watched) (front : List Block) (b : Block) (e : Error) : Prop :=
  ∃ plan s₁ s', (front.mapM (planBlock (watched w))).outcome s = (.ok plan, s₁) ∧
    (planBlock (watched w) b).outcome s₁ = (.error e, s')

/-! ## 5. What comes of a run -/

variable {doc : List Char} {es : List Event}

/-- **A run fails just if a block fails at its turn**, and with its error. -/
theorem error_iff_failsAt (he : events doc = .ok es) (w : World) (s : Watched) (e : Error) :
    ((colorize (watched w) o doc).outcome s).1 = .error e ↔
      ∃ front b back, blocksOf o.blocks es = front ++ b :: back ∧ FailsAt w s front b e := by
  rw [outcome_colorize_blocks he]
  constructor
  · intro h
    cases hm : ((blocksOf o.blocks es).mapM (planBlock (watched w))).outcome s with
    | mk r s' =>
      rw [hm] at h
      cases r with
      | ok plan => cases h
      | error x =>
        cases h
        obtain ⟨front, b, back, plan, s₁, hsplit, hfront, hb⟩ := Run.mapM_eq_error.mp hm
        exact ⟨front, b, back, hsplit, plan, s₁, s', hfront, hb⟩
  · rintro ⟨front, b, back, hsplit, plan, s₁, s', hfront, hb⟩
    rw [Run.mapM_eq_error.mpr ⟨front, b, back, plan, s₁, hsplit, hfront, hb⟩]

/-- **No block behind the first one that fails is colorized.** -/
theorem jobs_of_failsAt [FixedGrammars] (he : events doc = .ok es) (hs : Steady o path s.registry)
    {front back : List Block} {e : Error} (hsplit : blocksOf o.blocks es = front ++ b :: back)
    (hfail : FailsAt w s front b e) :
    ∃ last, ((colorize (watched w) o doc).outcome s).2.jobs
        = s.jobs ++ front.filterMap (job o) ++ last ∧ (last = [] ∨ last = (job o b).toList) := by
  obtain ⟨plan, s₁, s', hfront, hb⟩ := hfail
  rw [outcome_colorize_blocks he,
    Run.mapM_eq_error.mpr ⟨front, b, back, plan, s₁, hsplit, hfront, hb⟩]
  obtain ⟨hs₁, hj₁, -⟩ := planned_all hs hfront
  have hplanned := planned w b hs₁
  rw [hb] at hplanned
  obtain ⟨last, hj, hlast⟩ := hplanned.of_error
  exact ⟨last, by rw [hj, hj₁], hlast⟩

/-- **A run that does not fail colorizes every block that is resolved.** -/
theorem jobs_of_ok [FixedGrammars] (he : events doc = .ok es) (hs : Steady o path s.registry)
    {c : Colorized} (hc : ((colorize (watched w) o doc).outcome s).1 = .ok c) :
    ((colorize (watched w) o doc).outcome s).2.jobs
        = s.jobs ++ (blocksOf o.blocks es).filterMap (job o) ∧
      c.colorized = ((blocksOf o.blocks es).filterMap (job o)).length := by
  rw [outcome_colorize_blocks he] at hc ⊢
  cases hm : ((blocksOf o.blocks es).mapM (planBlock (watched w))).outcome s with
  | mk r s' =>
    rw [hm] at hc
    cases r with
    | error x => cases hc
    | ok plan =>
      cases hc
      obtain ⟨-, hj, hall⟩ := planned_all hs hm
      refine ⟨hj, ?_⟩
      show plan.length - skippedIn plan = _
      have hcount := congrArg (List.countP id) hall
      rw [List.countP_map, List.countP_map] at hcount
      rw [length_sub_skippedIn, List.length_filterMap_eq_countP]
      exact hcount

/-- **Which runs fail, with what, and what was colorized until then**, for a registry with any past,
grammars that are fixed, and backends that may answer anything.

* A document that cannot be read is rejected before any backend is called.
* A run on another one fails with an error just if some block fails with it at its turn, and then no
  block behind that one is colorized; those before it are colorized once each if they are resolved,
  in their order, and it is colorized at most once.
* A run that does not fail colorizes every block that is resolved, once each and in their order.
* A block whose turn comes fails with an unknown colorizer just if the language that it asks for is
  routed to none, and then no backend is called for it.
* With the backends of a machine this is what the registry itself does. -/
theorem failure_law [Programs] [FixedGrammars] (w : World) (shared : Option SharedStore)
    (o : Options) (made : Option String) (past : List Registry.Event) (doc : List Char) :
    let start : Watched := ⟨(Setting.after shared o made past).registry, []⟩
    let outcome := (colorize (watched w) o doc).outcome start
    (∀ a, events doc = .error a → outcome = (.error (.ambiguous a), start)) ∧
    (∀ es, events doc = .ok es →
      (∀ e, outcome.1 = .error e ↔
        ∃ front b back, blocksOf o.blocks es = front ++ b :: back ∧ FailsAt w start front b e) ∧
      (∀ front b back e, blocksOf o.blocks es = front ++ b :: back → FailsAt w start front b e →
        ∃ last, outcome.2.jobs = front.filterMap (job o) ++ last ∧
          (last = [] ∨ last = (job o b).toList)) ∧
      (∀ c, outcome.1 = .ok c → outcome.2.jobs = (blocksOf o.blocks es).filterMap (job o) ∧
        c.colorized = outcome.2.jobs.length) ∧
      ∀ front b back plan s, blocksOf o.blocks es = front ++ b :: back →
        (front.mapM (planBlock (watched w))).outcome start = (.ok plan, s) →
          ((∃ c l, ((planBlock (watched w) b).outcome s).1 = .error (.unknownColorizer c l)) ↔
            ∃ name, wanted b = some name ∧ isUnrouted o name = true) ∧
          ∀ c l, ((planBlock (watched w) b).outcome s).1 = .error (.unknownColorizer c l) →
            ((planBlock (watched w) b).outcome s).2 = s) ∧
    ∀ host, w = .of host →
      (colorize (Registry.engine host) o doc).outcome start.registry
        = (outcome.1, outcome.2.registry) := by
  intro start outcome
  obtain ⟨path, -, hs⟩ := Setting.steady_after shared o made past
  refine ⟨fun a ha => rejected ha start, fun es he => ⟨fun e => error_iff_failsAt he w start e,
    fun front b back e hsplit hfail => jobs_of_failsAt he hs hsplit hfail, fun c hc => ?_,
    fun front b back plan s hsplit hfront => ?_⟩, fun host hw => ?_⟩
  · obtain ⟨hjobs, hcount⟩ := jobs_of_ok he hs hc
    exact ⟨hjobs, hcount.trans (congrArg List.length hjobs.symm)⟩
  · obtain ⟨hs', -⟩ := planned_all hs hfront
    have hb := planned w b hs'
    exact ⟨hb.unknown_iff, fun c l hr => hb.eq_of_unknown hr⟩
  · subst hw
    obtain ⟨hr, hs'⟩ := colorize_agree (Registry.watched_agree host) o doc start _ rfl
    exact Prod.ext hr.symm hs'.symm

end

/-- Three blocks; the second one has a marker line for a language that is routed to no colorizer. -/
def stray : List Char :=
  ("<pre><code class=\"language-k\">a</code></pre><pre><code>#!zz\nb</code></pre>" ++
    "<pre><code class=\"language-k\">c</code></pre>").toList

/-- The options with that route. -/
def astray : Options :=
  { defaultColorizer := "simon_highlight", colorizers := Dict.empty.insert "zz" "nope" }

theorem failure_law_stray :
    let start : Watched := ⟨(Setting.after none astray (some "tools") []).registry, []⟩
    ∃ es front b back, events stray = .ok es ∧ blocksOf astray.blocks es = front ++ b :: back ∧
      FailsAt (.of Registry.workshop) start front b (.unknownColorizer "nope" "zz") ∧
      ((colorize (watched (.of Registry.workshop)) astray stray).outcome start).2.jobs
        = [(['a'], "k")] ∧
      ((colorize (Registry.engine Registry.workshop) astray stray).outcome start.registry).1
        = .error (.unknownColorizer "nope" "zz") := by
  intro start
  obtain ⟨es, he⟩ : ∃ es, events stray = .ok es := by
    have hok : (events stray).toOption.isSome = true := by decide +kernel
    cases he : events stray with
    | error a => rw [he] at hok; cases hok
    | ok es => exact ⟨es, rfl⟩
  obtain ⟨-, hlaw, hregistry⟩ :=
    failure_law (.of Registry.workshop) none astray (some "tools") [] stray
  have herror : ((colorize (watched (.of Registry.workshop)) astray stray).outcome start).1
      = .error (.unknownColorizer "nope" "zz") := by decide +kernel
  obtain ⟨front, b, back, hsplit, hfail⟩ := ((hlaw es he).1 _).mp herror
  refine ⟨es, front, b, back, he, hsplit, hfail, by decide +kernel, ?_⟩
  rw [hregistry Registry.workshop rfl]
  exact herror

end CodeTint.Document
