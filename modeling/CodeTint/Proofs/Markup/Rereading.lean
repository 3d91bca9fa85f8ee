/-
# Reading a document whose void tags are written anew

Reading is taken apart into front parts that are followed by something (`Reads`).  A text can stand
where such a part was read if it leaves reading where the part left it (`StandsFor`), **whatever
follows**, as long as that begins as before, as far as the last text has to look.  So texts that
stand for parts can be put together.

* Each event is written as it was, or as the dialect writes it (`standsFor_eventIn`).  A void tag
  that is written anew may open its element where the tag did not; the context behind it is the
  same, for that goes by the name.
* If each written tag opens its element just if the tag did (`Keeps`), **the same events are read,
  with the tags as they are written** (`Reads.event`).
-/
import CodeTint.Proofs.Markup.VoidTags

namespace CodeTint.Markup

open CodeTint.Text

/-! ## 1. Reading a front part -/

/-- **Reading from one place to another**: a text in a context and a mode, the events that are read,
and where reading stands behind them. -/
inductive Reads :
    Context → Mode → List Char → List Event → Context → Mode → List Char → Prop where
  | done {ctx : Context} {m : Mode} {s : List Char} : Reads ctx m s [] ctx m s
  | step {ctx ctx₁ ctx₂ : Context} {m m₁ m₂ : Mode} {c : Char} {s r : List Char} {e : Event}
      {es : List Event} : ctx.event (next ctx.isForeign m c s) = .ok (e, ctx₁, m₁) →
      Reads ctx₁ m₁ (next ctx.isForeign m c s).rest es ctx₂ m₂ r →
      Reads ctx m (c :: s) (e :: es) ctx₂ m₂ r

theorem reads_of_eventsFrom {ctx : Context} {m : Mode} {s : List Char} {es : List Event}
    (h : eventsFrom ctx m s = .ok es) : ∃ ctx' m', Reads ctx m s es ctx' m' [] := by
  fun_induction eventsFrom ctx m s generalizing es with
  | case1 =>
    cases h
    exact ⟨_, _, .done⟩
  | case2 => cases h
  | case3 ctx m c s e ctx₁ m₁ he ih =>
    cases hr : eventsFrom ctx₁ m₁ (next ctx.isForeign m c s).rest with
    | error x => rw [hr] at h; cases h
    | ok rest =>
      rw [hr] at h
      cases h
      obtain ⟨ctx', m', hreads⟩ := ih hr
      exact ⟨ctx', m', .step he hreads⟩

/-- The events behind a front part follow those of the part. -/
theorem eventsFrom_of_reads {ctx ctx' : Context} {m m' : Mode} {s r : List Char} {es : List Event}
    (h : Reads ctx m s es ctx' m' r) :
    eventsFrom ctx m s = (eventsFrom ctx' m' r).map (es ++ ·) := by
  induction h with
  | @done ctx m s => cases eventsFrom ctx m s <;> rfl
  | @step ctx ctx₁ ctx₂ m m₁ m₂ c s r e es he _ ih =>
    rw [eventsFrom, he]
    show (eventsFrom _ _ _).map _ = _
    rw [ih]
    cases eventsFrom ctx₂ m₂ r <;> rfl

/-- A document that is read up to its end. -/
theorem events_of_reads {doc : List Char} {es : List Event} {ctx : Context} {m : Mode}
    (h : Reads .start .content doc es ctx m []) : events doc = .ok es := by
  rw [events, eventsFrom_of_reads h, eventsFrom]
  exact congrArg Except.ok (List.append_nil _)

/-- What was read, and what follows it. -/
theorem Reads.raw_append {ctx ctx' : Context} {m m' : Mode} {s r : List Char} {es : List Event}
    (h : Reads ctx m s es ctx' m' r) : es.flatMap Event.raw ++ r = s := by
  induction h with
  | done => rfl
  | step he _ ih =>
    rw [List.flatMap_cons, List.append_assoc, ih, Context.event_raw he]
    exact next_append _ _ _ _

/-- **Behind the same events reading stands in the same place.** -/
theorem Reads.unique {ctx ctx₁ ctx₂ : Context} {m m₁ m₂ : Mode} {s r₁ r₂ : List Char}
    {es : List Event} (h₁ : Reads ctx m s es ctx₁ m₁ r₁) (h₂ : Reads ctx m s es ctx₂ m₂ r₂) :
    ctx₁ = ctx₂ ∧ m₁ = m₂ ∧ r₁ = r₂ := by
  induction h₁ with
  | done =>
    cases h₂
    exact ⟨rfl, rfl, rfl⟩
  | step he _ ih =>
    cases h₂ with
    | step he' hrest =>
      rw [he] at he'
      cases he'
      exact ih hrest

theorem Reads.append {ctx ctx₁ ctx₂ : Context} {m m₁ m₂ : Mode} {s u r : List Char}
    {es es' : List Event} (h : Reads ctx m s es ctx₁ m₁ u) (h' : Reads ctx₁ m₁ u es' ctx₂ m₂ r) :
    Reads ctx m s (es ++ es') ctx₂ m₂ r := by
  induction h with
  | done => exact h'
  | step he _ ih => exact .step he (ih h')

theorem Reads.split {ctx ctx' : Context} {m m' : Mode} {s r : List Char} {es es' : List Event}
    (h : Reads ctx m s (es ++ es') ctx' m' r) :
    ∃ ctx₁ m₁ s₁, Reads ctx m s es ctx₁ m₁ s₁ ∧ Reads ctx₁ m₁ s₁ es' ctx' m' r := by
  induction es generalizing ctx m s with
  | nil => exact ⟨ctx, m, s, .done, h⟩
  | cons e es ih =>
    cases h with
    | step he hrest =>
      obtain ⟨ctx₁, m₁, s₁, hfront, hback⟩ := ih hrest
      exact ⟨ctx₁, m₁, s₁, .step he hfront, hback⟩

/-- **Reading on** for a number of events: these, and where reading stands behind them. -/
def readOn (ctx : Context) (m : Mode) :
    Nat → List Char → Option (List Event × Context × Mode × List Char)
  | 0, s => some ([], ctx, m, s)
  | _ + 1, [] => none
  | n + 1, c :: s =>
    match ctx.event (next ctx.isForeign m c s) with
    | .error _ => none
    | .ok (e, ctx₁, m₁) =>
      (readOn ctx₁ m₁ n (next ctx.isForeign m c s).rest).map fun (es, place) => (e :: es, place)

theorem readOn_eq_some {ctx ctx' : Context} {m m' : Mode} {s r : List Char} {es : List Event} :
    readOn ctx m es.length s = some (es, ctx', m', r) ↔ Reads ctx m s es ctx' m' r := by
  induction es generalizing ctx m s with
  | nil =>
    constructor
    · intro h
      cases h
      exact .done
    · intro h
      cases h
      rfl
  | cons e es ih =>
    constructor
    · intro h
      cases s with
      | nil => cases h
      | cons c s =>
        rw [List.length_cons, readOn] at h
        split at h
        · cases h
        · next e₁ ctx₁ m₁ he =>
          obtain ⟨⟨es₁, place⟩, hrest, heq⟩ := Option.map_eq_some_iff.mp h
          cases heq
          exact .step he (ih.mp hrest)
    · intro h
      cases h with
      | step he hrest =>
        rw [List.length_cons, readOn, he]
        dsimp only
        rw [ih.mpr hrest]
        rfl

/-! ## 2. Context and mode behind an event -/

/-- **The context behind an event.** -/
def Context.behind (ctx : Context) : Event → Context
  | .start t _ =>
    match ctx.onStart t with
    | .ok (ctx', _) => ctx'
    | .error _ => ctx
  | .finish _ key => ctx.onEnd key
  | _ => ctx

/-- The namespace that reading is in behind some events from the start of a document. -/
def namespaceBehind (es : List Event) : Namespace := (es.foldl Context.behind .start).current

theorem Context.event_behind {ctx ctx' : Context} {st : Step} {e : Event} {m : Mode}
    (h : ctx.event st = .ok (e, ctx', m)) : ctx' = ctx.behind e := by
  unfold Context.event at h
  split at h
  case h_2 t ht =>
    split at h
    · cases h
    · next hs =>
      cases h
      rw [behind, hs]
  all_goals
    cases h
    rfl

theorem Reads.context {ctx ctx' : Context} {m m' : Mode} {s r : List Char} {es : List Event}
    (h : Reads ctx m s es ctx' m' r) : ctx' = es.foldl Context.behind ctx := by
  induction h with
  | done => rfl
  | step he _ ih => rw [ih, Context.event_behind he, List.foldl_cons]

theorem modeOf_isLettered (key : List Char) : (modeOf key).IsLettered := by
  have hnames : ∀ n ∈ textElements, n.toList.all Char.isAlpha = true := by decide
  intro key' h
  unfold modeOf at h
  split at h
  · next hk =>
    cases h
    rw [isOneOf, List.any_eq_true] at hk
    obtain ⟨n, hn, he⟩ := hk
    rw [← beq_iff_eq.mp he]
    exact List.all_eq_true.mp (hnames n hn)
  · repeat' split at h
    all_goals cases h

theorem markupStep_mode (b : Bool) (s : List Char) :
    (markupStep b s).mode = .content ∨ (markupStep b s).mode = .cdata := by
  unfold markupStep commentStep declarationStep bogusStep endStep startStep
  repeat' split
  all_goals first | exact .inl rfl | exact .inr rfl

/-- The mode behind a token: that of the text, or one without a key. -/
theorem next_mode (b : Bool) (m : Mode) (c : Char) (s : List Char) :
    (next b m c s).mode = m ∨ (next b m c s).mode = .content ∨ (next b m c s).mode = .cdata := by
  have hend : ∀ s, (endStep s).mode = .content := by
    intro s
    unfold endStep
    split <;> rfl
  unfold next
  split
  · split
    · exact .inr (markupStep_mode b s)
    · exact .inl rfl
  · split
    · exact .inr (.inl (hend _))
    · exact .inl rfl
  · split
    · exact .inr (.inl (hend _))
    · exact .inl rfl
  · exact .inl rfl
  · split
    · exact .inr (.inl rfl)
    · exact .inl rfl

theorem Context.onStart_mode {ctx ctx' : Context} {t : Tag} {m : Mode}
    (h : ctx.onStart t = .ok (ctx', m)) : m = .content ∨ m = modeOf t.key := by
  unfold onStart at h
  split at h
  · cases h
  · dsimp only at h
    split at h
    · cases h
      exact .inl rfl
    · split at h
      · cases h
        exact .inl rfl
      · split at h
        · cases h
          exact .inr rfl
        · cases h
          exact .inl rfl

/-- **The mode stays one whose key is made of letters.** -/
theorem Context.event_isLettered {ctx ctx' : Context} {b : Bool} {m m' : Mode} {c : Char}
    {s : List Char} {e : Event} (hm : m.IsLettered)
    (h : ctx.event (next b m c s) = .ok (e, ctx', m')) : m'.IsLettered := by
  have hcontent : Mode.content.IsLettered := fun key hk => by cases hk
  have hcdata : Mode.cdata.IsLettered := fun key hk => by cases hk
  have hnext : (next b m c s).mode.IsLettered := by
    rcases next_mode b m c s with hmode | hmode | hmode
    · rwa [hmode]
    · rwa [hmode]
    · rwa [hmode]
  unfold Context.event at h
  split at h
  case h_2 t ht =>
    split at h
    · cases h
    · next hs =>
      cases h
      rcases onStart_mode hs with rfl | rfl
      · exact hcontent
      · exact modeOf_isLettered _
  all_goals
    cases h
    exact hnext

/-- **So does a part that is read.** -/
theorem Reads.isLettered {ctx ctx' : Context} {m m' : Mode} {s r : List Char} {es : List Event}
    (h : Reads ctx m s es ctx' m' r) (hm : m.IsLettered) : m'.IsLettered := by
  induction h with
  | done => exact hm
  | step he _ ih => exact ih (Context.event_isLettered hm he)

theorem isLettered_content : Mode.content.IsLettered := fun key hk => by cases hk

/-! ## 3. Texts that stand for what was read -/

/-- A text ends or stops where another one does, as far as a mode looks. -/
def Mode.Resembles (m : Mode) (u r : List Char) : Prop :=
  (u = [] → r = []) ∧ (m.stops u = true → m.stops r = true)

/-- **A text can stand where something was read**, from one place up to another: in front of all
that resembles what follows there, it is read as the given events, and it leaves reading where it
stood. -/
def StandsFor (ctx : Context) (m : Mode) (u s : List Char) (new : List Event) (ctx' : Context)
    (m' : Mode) (u' : List Char) : Prop :=
  ∀ r, m'.Resembles u' r → Reads ctx m (s ++ r) new ctx' m' r ∧ m.Resembles u (s ++ r)

theorem StandsFor.nil {ctx : Context} {m : Mode} {u : List Char} :
    StandsFor ctx m u [] [] ctx m u := fun _ hr => ⟨.done, hr⟩

/-- **One text behind another** stands for both. -/
theorem StandsFor.append {ctx ctx₁ ctx₂ : Context} {m m₁ m₂ : Mode} {u u₁ u₂ s s' : List Char}
    {new new' : List Event} (h : StandsFor ctx m u s new ctx₁ m₁ u₁)
    (h' : StandsFor ctx₁ m₁ u₁ s' new' ctx₂ m₂ u₂) :
    StandsFor ctx m u (s ++ s') (new ++ new') ctx₂ m₂ u₂ := by
  intro r hr
  obtain ⟨hback, hsame⟩ := h' r hr
  obtain ⟨hfront, hall⟩ := h (s' ++ r) hsame
  rw [List.append_assoc]
  exact ⟨hfront.append hback, hall⟩

/-- One event, if its text is read as it where it stands. -/
theorem StandsFor.single {ctx ctx₁ : Context} {m m₁ : Mode} {c : Char} {s u raw : List Char}
    {e : Event} (h : ∀ r, m₁.Resembles u r → ∃ c' s', raw ++ r = c' :: s' ∧
      ctx.event (next ctx.isForeign m c' s') = .ok (e, ctx₁, m₁) ∧
      (next ctx.isForeign m c' s').rest = r ∧
      (m.stops (c :: s) = true → m.stops (c' :: s') = true)) :
    StandsFor ctx m (c :: s) raw [e] ctx₁ m₁ u := by
  intro r hr
  obtain ⟨c', s', hraw, he, hrest, hstops⟩ := h r hr
  rw [hraw]
  refine ⟨.step he ?_, fun hnil => absurd hnil (List.cons_ne_nil _ _), hstops⟩
  rw [hrest]
  exact .done

/-- **The spelling of an event stands for it.** -/
theorem standsFor_raw {ctx ctx₁ : Context} {m m₁ : Mode} {c : Char} {s : List Char} {e : Event}
    (hm : m.IsLettered) (he : ctx.event (next ctx.isForeign m c s) = .ok (e, ctx₁, m₁)) :
    StandsFor ctx m (c :: s) e.raw [e] ctx₁ m₁ (next ctx.isForeign m c s).rest := by
  refine .single fun r hr => ?_
  obtain ⟨hr, hstop⟩ := hr
  rw [Context.event_raw he]
  by_cases hstops : m.stops (c :: s) = true
  · -- markup closes itself
    obtain ⟨s', hraw, hstops', hnext⟩ := next_of_stops hm hstops hr
    refine ⟨c, s', hraw, ?_, by rw [hnext], fun _ => hstops'⟩
    rw [hnext]
    exact he
  · -- a text stops where it did
    have hno : m.stops (c :: s) = false := Bool.eq_false_iff.mpr hstops
    have hnext := next_of_not_stops hno ctx.isForeign
    have hmode : m₁ = m := by
      rw [hnext] at he
      cases he
      rfl
    rw [hmode, hnext] at hstop
    rw [hnext] at hr
    have halike : m.Alike (m.cut c s).2 r := by
      rcases m.cut_stops c s with hnil | hends
      · exact .inl ⟨hnil, hr hnil⟩
      · exact .inr ⟨hends, hstop hends⟩
    have htail := next_text_tail hm hno halike ctx.isForeign
    refine ⟨c, (m.cut c s).1 ++ r, by rw [hnext]; rfl, ?_, by rw [htail],
      fun h => absurd h hstops⟩
    rw [htail]
    exact he

/-- **What was read stands for itself.** -/
theorem Reads.standsFor {ctx ctx' : Context} {m m' : Mode} {s r : List Char} {es : List Event}
    (h : Reads ctx m s es ctx' m' r) (hm : m.IsLettered) :
    StandsFor ctx m s (es.flatMap Event.raw) es ctx' m' r := by
  induction h with
  | done => exact .nil
  | step he _ ih => exact (standsFor_raw hm he).append (ih (Context.event_isLettered hm he))

/-! ## 4. Reading again -/

/-- **Each void tag that the dialect writes opens its element just if the tag did.** -/
def Keeps (d : Dialect) (ctx : Context) (es : List Event) : Prop :=
  ∀ front t isOpen, front ++ [.start t isOpen] <+: es →
    (d.tag t).opens ((front ++ [.start t isOpen]).foldl Context.behind ctx).current = isOpen

theorem Keeps.head {d : Dialect} {ctx : Context} {t : Tag} {isOpen : Bool} {es : List Event}
    (h : Keeps d ctx (.start t isOpen :: es)) :
    (d.tag t).opens (ctx.behind (.start t isOpen)).current = isOpen :=
  h [] t isOpen ⟨es, rfl⟩

theorem Keeps.tail {d : Dialect} {ctx : Context} {e : Event} {es : List Event}
    (h : Keeps d ctx (e :: es)) : Keeps d (ctx.behind e) es :=
  fun front t isOpen hf => h (e :: front) t isOpen (List.cons_prefix_cons.mpr ⟨rfl, hf⟩)

theorem token_of_event_start {ctx ctx' : Context} {st : Step} {t : Tag} {isOpen : Bool} {m : Mode}
    (h : ctx.event st = .ok (.start t isOpen, ctx', m)) : st.token = .start t := by
  unfold Context.event at h
  split at h
  case h_2 u hu =>
    split at h
    · cases h
    · cases h
      exact hu
  all_goals cases h

/-- The context judges a void tag that is written anew as it judged the tag. -/
theorem Context.event_tag {ctx ctx' : Context} {st : Step} {t : Tag} {isOpen : Bool} {m : Mode}
    (h : ctx.event st = .ok (.start t isOpen, ctx', m)) (hv : t.isVoid = true) (d : Dialect)
    (m₀ : Mode) (r : List Char) :
    ctx.event ⟨.start (d.tag t), m₀, r⟩
      = .ok (.start (d.tag t) ((d.tag t).opens ctx'.current), ctx', m) := by
  unfold Context.event at h
  split at h
  case h_2 u hu =>
    split at h
    · cases h
    · next hs =>
      cases h
      simp only [Context.event, onStart_tag hv, hs]
  all_goals cases h

/-- **An event as it is read again** in a namespace: whether the element is open is a matter of the
tag that the dialect has written. -/
def Dialect.eventIn (d : Dialect) (ns : Namespace) : Event → Event
  | .start t _ => .start (d.tag t) ((d.tag t).opens ns)
  | e => e

/-- It is the same event if the tag opens its element just if it did. -/
theorem Dialect.eventIn_eq {d : Dialect} {ns : Namespace} {e : Event}
    (h : ∀ t isOpen, e = .start t isOpen → (d.tag t).opens ns = isOpen) :
    d.eventIn ns e = d.event e := by
  cases e with
  | start t isOpen => rw [eventIn, event, h t isOpen rfl]
  | _ => rfl

/-- What is read then follows the convention. -/
theorem Dialect.conventional_eventIn (d : Dialect) (ns : Namespace) (e : Event) :
    d.Conventional [d.eventIn ns e] := by
  intro t ht hv
  rw [List.flatMap_singleton] at ht
  cases e with
  | start u isOpen =>
    obtain rfl := List.mem_singleton.mp ht
    refine d.follows_tag ?_
    rwa [Tag.isVoid, d.key_tag] at hv
  | _ => cases ht

/-- **What the dialect writes stands for the event**, with the tag as it is written. -/
theorem standsFor_eventIn (d : Dialect) {ctx ctx₁ : Context} {m m₁ : Mode} {c : Char}
    {s : List Char} {e : Event} (hm : m.IsLettered)
    (he : ctx.event (next ctx.isForeign m c s) = .ok (e, ctx₁, m₁)) :
    StandsFor ctx m (c :: s) (d.event e).raw [d.eventIn ctx₁.current e] ctx₁ m₁
      (next ctx.isForeign m c s).rest := by
  by_cases hv : ∃ t isOpen raw, e = .start t isOpen ∧ d.voidTag? t = some raw
  · -- a void tag is read as it is written
    obtain ⟨t, isOpen, raw, rfl, hv⟩ := hv
    refine .single fun r _ => ?_
    obtain ⟨hvoid, -⟩ := Dialect.voidTag?_eq_some hv
    obtain ⟨rfl, rfl, hread⟩ := start_of_next (token_of_event_start he)
    obtain ⟨s', hraw, hstops, hnext⟩ := next_tag hread hv ctx.isForeign r
    have hself : (d.event (.start t isOpen)).raw = raw := by
      rw [Dialect.event, Event.raw, Dialect.raw_tag, hv]
      rfl
    refine ⟨'<', s', by rw [hself]; exact hraw, ?_, by rw [hnext], fun _ => hstops⟩
    rw [hnext]
    exact Context.event_tag he hvoid d _ _
  · -- anything else is left as it is
    have hsame : d.event e = e ∧ d.eventIn ctx₁.current e = e := by
      cases e with
      | start t isOpen =>
        have hnone : d.voidTag? t = none := by
          by_contra hsome
          obtain ⟨raw, hraw⟩ := Option.ne_none_iff_exists'.mp hsome
          exact hv ⟨t, isOpen, raw, rfl, hraw⟩
        rw [Dialect.event, Dialect.eventIn, Dialect.tag_of_none hnone, ← Context.event_start he]
        exact ⟨rfl, rfl⟩
      | _ => exact ⟨rfl, rfl⟩
    rw [hsame.1, hsame.2]
    exact standsFor_raw hm he

/-- **The events of a part are read again**, with the tags as they are written. -/
theorem Reads.event {d : Dialect} {ctx ctx' : Context} {m m' : Mode} {s r : List Char}
    {es : List Event} (h : Reads ctx m s es ctx' m' r) (hm : m.IsLettered)
    (hkeep : Keeps d ctx es) :
    StandsFor ctx m s (es.flatMap fun e => (d.event e).raw) (es.map d.event) ctx' m' r := by
  induction h with
  | done => exact .nil
  | @step ctx ctx₁ ctx₂ m m₁ m₂ c s r e es he _ ih =>
    have hctx := Context.event_behind he
    have hrest := ih (Context.event_isLettered hm he) (hctx ▸ hkeep.tail)
    have hopens : ∀ t isOpen, e = .start t isOpen → (d.tag t).opens ctx₁.current = isOpen := by
      rintro t isOpen rfl
      rw [hctx]
      exact hkeep.head
    have hone := standsFor_eventIn d hm he
    rw [Dialect.eventIn_eq hopens] at hone
    exact hone.append hrest

/-- **A document is read again** with its void tags as the dialect writes them. -/
theorem events_event {d : Dialect} {doc : List Char} {es : List Event} (h : events doc = .ok es)
    (hkeep : Keeps d .start es) :
    events (es.flatMap fun e => (d.event e).raw) = .ok (es.map d.event) := by
  obtain ⟨ctx', m', hreads⟩ := reads_of_eventsFrom h
  obtain ⟨hagain, -⟩ := hreads.event isLettered_content hkeep [] ⟨fun h => h, fun h => h⟩
  rw [List.append_nil] at hagain
  exact events_of_reads hagain

/-! ## 5. Where a tag is read otherwise -/

/-- Where reading stands behind a front part of a document that ends with a start tag. -/
theorem reads_front {doc : List Char} {es front : List Event} {t : Tag} {isOpen : Bool}
    (h : events doc = .ok es) (hf : front ++ [.start t isOpen] <+: es) :
    ∃ ctx s, Reads .start .content doc front ctx .content ('<' :: s) ∧ t.IsRead ∧
      ∃ ctx' m, ctx.event (next ctx.isForeign .content '<' s) = .ok (.start t isOpen, ctx', m) ∧
        ctx'.current = namespaceBehind (front ++ [.start t isOpen]) := by
  obtain ⟨back, rfl⟩ := hf
  obtain ⟨ctx', m', hreads⟩ := reads_of_eventsFrom h
  rw [List.append_assoc] at hreads
  obtain ⟨ctx₁, m₁, s₁, hfront, hback⟩ := hreads.split
  cases hback with
  | step he hrest =>
    obtain ⟨rfl, rfl, hread⟩ := start_of_next (token_of_event_start he)
    refine ⟨ctx₁, _, hfront, hread, _, _, he, ?_⟩
    rw [Context.event_behind he, hfront.context, namespaceBehind, List.foldl_append]
    rfl

/-- The namespace of an element and its tag say whether it is open. -/
theorem opens_namespaceBehind {doc : List Char} {es front : List Event} {t : Tag} {isOpen : Bool}
    (h : events doc = .ok es) (hf : front ++ [.start t isOpen] <+: es) :
    t.opens (namespaceBehind (front ++ [.start t isOpen])) = isOpen := by
  obtain ⟨ctx, s, -, -, ctx', m, he, hns⟩ := reads_front h hf
  rw [← hns, Context.event_start he]

/-- **The first tag that opens otherwise is read so**: if all goes as before in front of a void tag
that the dialect writes, the tag itself is read as it is written. -/
theorem events_of_front {d : Dialect} {doc tail : List Char} {es es' front : List Event} {t : Tag}
    {isOpen : Bool} (h : events doc = .ok es) (hf : front ++ [.start t isOpen] <+: es)
    (hkeep : Keeps d .start front) {raw : List Char} (hv : d.voidTag? t = some raw)
    (h' : events (front.flatMap (fun e => (d.event e).raw) ++ (raw ++ tail)) = .ok es') :
    ∃ back, es' = front.map d.event ++ .start (d.tag t)
      ((d.tag t).opens (namespaceBehind (front ++ [.start t isOpen]))) :: back := by
  obtain ⟨ctx, s, hfront, hread, ctx', m, he, hns⟩ := reads_front h hf
  obtain ⟨s', hraw, hstops, hnext⟩ := next_tag hread hv ctx.isForeign tail
  have hnil : '<' :: s = [] → '<' :: s' = [] := fun hnil => absurd hnil (List.cons_ne_nil _ _)
  obtain ⟨hagain, -⟩ := hfront.event isLettered_content hkeep ('<' :: s') ⟨hnil, fun _ => hstops⟩
  rw [events, hraw, eventsFrom_of_reads hagain, eventsFrom, hnext,
    Context.event_tag he (Dialect.voidTag?_eq_some hv).1, hns] at h'
  dsimp only at h'
  cases hrest : eventsFrom ctx' m tail with
  | error x =>
    rw [hrest] at h'
    cases h'
  | ok back =>
    rw [hrest] at h'
    cases h'
    exact ⟨back, rfl⟩

/-- If not all is kept, there is a first tag that is not. -/
theorem exists_of_not_keeps {d : Dialect} {ctx : Context} {es : List Event} (h : ¬ Keeps d ctx es) :
    ∃ front t isOpen, front ++ [.start t isOpen] <+: es ∧ Keeps d ctx front ∧ (d.tag t).opens
      ((front ++ [Event.start t isOpen]).foldl Context.behind ctx).current ≠ isOpen := by
  induction es using List.reverseRecOn with
  | nil =>
    refine absurd ?_ h
    intro front t isOpen hf
    simp at hf
  | append_singleton es e ih =>
    by_cases hes : Keeps d ctx es
    · -- it is the last event then
      simp only [Keeps, not_forall] at h
      obtain ⟨front, t, isOpen, hf, hne⟩ := h
      rcases List.prefix_concat_iff.mp hf with heq | hf'
      · obtain ⟨rfl, -⟩ := List.append_inj' heq rfl
        exact ⟨front, t, isOpen, hf, hes, hne⟩
      · exact absurd (hes front t isOpen hf') hne
    · obtain ⟨front, t, isOpen, hf, hrest⟩ := ih hes
      exact ⟨front, t, isOpen, hf.trans (List.prefix_append _ _), hrest⟩

end CodeTint.Markup
