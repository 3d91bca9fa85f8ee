/-
# Lists of entries, and what a dictionary made of one answers

Where a key is given more than once, a look-up in a list answers with the first value, and a
dictionary that is filled from the list answers with **the last one** (`Dict.get?_fill`).  Where the
keys are distinct there is no difference, and to be answered is to be in the list.
-/
import CodeTint.Dict

namespace CodeTint

variable {α β : Type}

/-! ## 1. Lists with distinct keys -/

/-- The entries have different keys. -/
def HasKeys (es : List (String × α)) : Prop := (es.map Prod.fst).Nodup

theorem mem_of_lookup {k : String} {v : α} {es : List (String × α)} (h : es.lookup k = some v) :
    (k, v) ∈ es := by
  obtain ⟨front, back, rfl, -⟩ := List.lookup_eq_some_iff.mp h
  simp

/-- A key that is looked up in vain is none of the list's. -/
theorem lookup_eq_none_iff {k : String} {es : List (String × α)} :
    es.lookup k = none ↔ ∀ v, (k, v) ∉ es := by
  rw [List.lookup_eq_none_iff]
  constructor
  · intro h v hv
    simpa using h _ hv
  · rintro h ⟨k', v⟩ hv
    rw [bne_iff_ne]
    rintro rfl
    exact h v hv

/-- **With distinct keys a look-up finds each entry.** -/
theorem HasKeys.lookup_eq_some_iff {es : List (String × α)} (h : HasKeys es) {k : String} {v : α} :
    es.lookup k = some v ↔ (k, v) ∈ es := by
  refine ⟨mem_of_lookup, fun hv => ?_⟩
  induction es with
  | nil => cases hv
  | cons e es ih =>
    obtain ⟨he, hes⟩ := List.nodup_cons.mp h
    rw [lookup_cons_ite]
    rcases List.mem_cons.mp hv with rfl | hv
    · rw [if_pos rfl]
    · have hne : k ≠ e.1 := by
        rintro rfl
        exact he (List.mem_map.mpr ⟨(e.1, v), hv, rfl⟩)
      rw [if_neg hne]
      exact ih hes hv

theorem HasKeys.reverse {es : List (String × α)} (h : HasKeys es) : HasKeys es.reverse := by
  rw [HasKeys, List.map_reverse]
  exact List.pairwise_reverse.mpr (List.Pairwise.imp Ne.symm h)

namespace Dict

/-! ## 2. Dictionaries -/

@[simp] theorem get?_map (f : α → β) (d : Dict α) (k : String) :
    (d.map f).get? k = (d.get? k).map f := by
  obtain ⟨es, h⟩ := d
  simp only [map, get?]
  clear h
  induction es with
  | nil => rfl
  | cons e es ih =>
    rw [List.map_cons, lookup_cons_ite, lookup_cons_ite, ih]
    split <;> rfl

/-- **A dictionary that entries are put into** answers with the last of them, and where there is
none, with what it answered. -/
theorem get?_fill (es : List (String × α)) (d : Dict α) (k : String) :
    (es.foldl (fun d e => d.insert e.1 e.2) d).get? k = (es.reverse.lookup k).or (d.get? k) := by
  induction es generalizing d with
  | nil => rfl
  | cons e es ih =>
    rw [List.foldl_cons, ih, get?_insert, List.reverse_cons, List.lookup_append, lookup_cons_ite]
    cases es.reverse.lookup k with
    | some v => rfl
    | none =>
      rw [Option.none_or, Option.none_or]
      split <;> rfl

theorem get?_ofList (es : List (String × α)) (k : String) :
    (ofList es).get? k = es.reverse.lookup k := by
  rw [ofList, get?_fill, get?_empty, Option.or_none]

/-- **With distinct keys it answers with the entries of the list.** -/
theorem get?_ofList_eq_some_iff {es : List (String × α)} (h : HasKeys es) {k : String} {v : α} :
    (ofList es).get? k = some v ↔ (k, v) ∈ es := by
  rw [get?_ofList, h.reverse.lookup_eq_some_iff, List.mem_reverse]

end Dict

end CodeTint
