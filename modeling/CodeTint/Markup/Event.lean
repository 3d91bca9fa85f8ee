/-
# A document as a sequence of events

`events` reads a whole document: it takes step after step, follows the context, and says of each
start tag whether its element is open afterwards.  It fails only where the context says that a text
could be read in two ways.

**Reading loses nothing**: the spellings of the events make up the document (`raw_events`).
-/
import CodeTint.Markup.Context

namespace CodeTint.Markup

/-- What happens in a document.  `isOpen` says that the element of a start tag may hold content and
waits for its end tag. -/
inductive Event where
  | text (s : List Char)
  | start (t : Tag) (isOpen : Bool)
  | finish (raw key : List Char)
  | comment (raw : List Char)
  | doctype (raw : List Char)
  | blank (raw : List Char)
  deriving DecidableEq, Repr

/-- The event in the spelling of the document. -/
def Event.raw : Event → List Char
  | .text s => s
  | .start t _ => t.raw
  | .finish r _ => r
  | .comment r => r
  | .doctype r => r
  | .blank r => r

/-- **The event of a token**, with the context and the mode that it leaves. -/
def Context.event (ctx : Context) (step : Step) : Except Ambiguity (Event × Context × Mode) :=
  match step.token with
  | .text s => .ok (.text s, ctx, step.mode)
  | .start t =>
    match ctx.onStart t with
    | .error e => .error e
    | .ok (ctx', mode) => .ok (.start t (t.opens ctx'.current), ctx', mode)
  | .finish raw name =>
    let key := Text.lower name
    .ok (.finish raw key, ctx.onEnd key, step.mode)
  | .comment raw => .ok (.comment raw, ctx, step.mode)
  | .doctype raw => .ok (.doctype raw, ctx, step.mode)
  | .blank raw => .ok (.blank raw, ctx, step.mode)

theorem Context.event_raw {ctx ctx' : Context} {step : Step} {e : Event} {m : Mode}
    (h : ctx.event step = .ok (e, ctx', m)) : e.raw = step.token.raw := by
  unfold Context.event at h
  split at h
  case h_2 t ht =>
    split at h
    · cases h
    · cases h; rw [ht]; rfl
  all_goals
    next ht => cases h; rw [ht]; rfl

/-- The events of a text that is met in the given context and mode. -/
def eventsFrom (ctx : Context) (mode : Mode) : List Char → Except Ambiguity (List Event)
  | [] => .ok []
  | c :: s =>
    match ctx.event (next ctx.isForeign mode c s) with
    | .error e => .error e
    | .ok (e, ctx', mode') =>
      (eventsFrom ctx' mode' (next ctx.isForeign mode c s).rest).map (e :: ·)
termination_by s => s.length
decreasing_by exact next_rest_length _ _ _ _

/-- **The events of a document.** -/
def events (doc : List Char) : Except Ambiguity (List Event) := eventsFrom .start .content doc

theorem raw_eventsFrom {ctx : Context} {mode : Mode} {s : List Char} {es : List Event}
    (h : eventsFrom ctx mode s = .ok es) : es.flatMap Event.raw = s := by
  fun_induction eventsFrom ctx mode s generalizing es with
  | case1 => cases h; rfl
  | case2 => cases h
  | case3 ctx mode c s e ctx' mode' he ih =>
    cases hr : eventsFrom ctx' mode' (next ctx.isForeign mode c s).rest with
    | error x => rw [hr] at h; cases h
    | ok rest =>
      rw [hr] at h
      cases h
      simp only [List.flatMap_cons, ih hr, Context.event_raw he]
      exact next_append _ _ _ _

/-- **Nothing is lost in reading.** -/
theorem raw_events {doc : List Char} {es : List Event} (h : events doc = .ok es) :
    es.flatMap Event.raw = doc :=
  raw_eventsFrom h

end CodeTint.Markup
