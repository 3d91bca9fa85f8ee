/-
# What holds of every event that was read

The events of a document do not come from just anywhere: each is the event of a token that was read
at some place, in some context (`mem_eventsFrom`).  So each is written with at least one character,
and an element is open only if its tag lets it hold content.

This decides **which open elements a dialect touches** (`Dialect.voidTag?_eq_none`).  In HTML no
element of a void name is open.  In foreign content one may be, if its tag has no closing slash; and
of the three dialects only xhtml writes such a tag anew.
-/
import CodeTint.Markup.Dialect
import CodeTint.Proofs.Markup.OpenTags

namespace CodeTint.Markup

/-- **Every event was read as a token**, somewhere. -/
theorem mem_eventsFrom {ctx : Context} {mode : Mode} {s : List Char} {es : List Event}
    (h : eventsFrom ctx mode s = .ok es) {e : Event} (he : e ∈ es) :
    ∃ (ctx₁ ctx₂ : Context) (m₁ m₂ : Mode) (c : Char) (r : List Char),
      ctx₁.event (next ctx₁.isForeign m₁ c r) = .ok (e, ctx₂, m₂) := by
  fun_induction eventsFrom ctx mode s generalizing es with
  | case1 =>
    cases h
    cases he
  | case2 => cases h
  | case3 ctx mode c s e₁ ctx' mode' hev ih =>
    cases hr : eventsFrom ctx' mode' (next ctx.isForeign mode c s).rest with
    | error x => rw [hr] at h; cases h
    | ok rest =>
      rw [hr] at h
      cases h
      rcases List.mem_cons.mp he with rfl | he
      · exact ⟨ctx, ctx', mode, mode', c, s, hev⟩
      · exact ih hr he

/-- No event is written with nothing. -/
theorem raw_ne_nil {doc : List Char} {es : List Event} (h : events doc = .ok es) {e : Event}
    (he : e ∈ es) : e.raw ≠ [] := by
  obtain ⟨ctx, ctx', m, m', c, r, hev⟩ := mem_eventsFrom h he
  rw [Context.event_raw hev]
  exact next_raw_ne_nil _ _ _ _

/-- Whether an element is open is a matter of its tag and its namespace. -/
theorem Context.event_start {ctx ctx' : Context} {step : Step} {t : Tag} {isOpen : Bool} {m : Mode}
    (h : ctx.event step = .ok (.start t isOpen, ctx', m)) : isOpen = t.opens ctx'.current := by
  rw [Context.event] at h
  split at h
  case h_2 u hu =>
    split at h
    · cases h
    · cases h; rfl
  all_goals cases h

/-- A name of a longer list. -/
theorem isOneOf_mono {names names' : List String} (h : names ⊆ names') {key : List Char}
    (hk : isOneOf names key = true) : isOneOf names' key = true := by
  rw [isOneOf, List.any_eq_true] at hk ⊢
  obtain ⟨n, hn, he⟩ := hk
  exact ⟨n, h hn, he⟩

/-- A void tag opens an element in foreign content only, by having no slash. -/
theorem Tag.opens_iff_of_isVoid {t : Tag} (h : t.isVoid = true) {ns : Namespace} :
    t.opens ns = true ↔ ns ≠ .html ∧ t.selfClosing = false := by
  cases ns with
  | html =>
    have hc : isOneOf contentless t.key = true := isOneOf_mono (by decide) h
    simp [Tag.opens, hc]
  | svg | mathml => simp [Tag.opens]

/-- Whether an event begins an open element of a void name. -/
def Event.opensVoid : Event → Bool
  | .start t isOpen => isOpen && t.isVoid
  | _ => false

/-- **An open element of a void name has no closing slash**: in HTML it is never open, and elsewhere
the slash would have closed it. -/
theorem selfClosing_of_isVoid {doc : List Char} {es : List Event} (h : events doc = .ok es)
    {t : Tag} (ht : .start t true ∈ es) (hv : t.isVoid = true) : t.selfClosing = false := by
  obtain ⟨ctx, ctx', m, m', c, r, hev⟩ := mem_eventsFrom h ht
  exact ((Tag.opens_iff_of_isVoid hv).mp (Context.event_start hev).symm).2

/-- **Of the open elements, only xhtml writes the tag anew, and only of a void name.** -/
theorem Dialect.voidTag?_eq_none {doc : List Char} {es : List Event} (h : events doc = .ok es)
    {t : Tag} (ht : .start t true ∈ es) (d : Dialect) :
    d.voidTag? t = none ↔ (d = .xhtml → t.isVoid = false) := by
  rw [voidTag?]
  cases hv : t.isVoid with
  | false => simp
  | true =>
    rw [selfClosing_of_isVoid h ht hv]
    cases d <;> simp [closing?]

/-- The same for all that is open behind a front part of a document. -/
theorem Dialect.forall_voidTag?_eq_none {doc : List Char} {es front : List Event}
    (h : events doc = .ok es) (hf : front <+: es) (d : Dialect) :
    (∀ t ∈ openTags front, d.voidTag? t = none)
      ↔ (d = .xhtml → ∀ t ∈ openTags front, t.isVoid = false) := by
  have hone : ∀ t ∈ openTags front, (d.voidTag? t = none ↔ (d = .xhtml → t.isVoid = false)) :=
    fun t ht => voidTag?_eq_none h (hf.subset (mem_openTags ht)) d
  constructor
  · intro ha hx t ht
    exact (hone t ht).mp (ha t ht) hx
  · intro ha t ht
    exact (hone t ht).mpr fun hx => ha hx t ht

end CodeTint.Markup
