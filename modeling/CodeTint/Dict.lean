/-
# Dictionaries in the order of their keys

A `Dict` has at most one entry for a key and lists its entries in the order of the keys, so two
dictionaries that answer alike are equal, and listing one has a fixed outcome whatever the order in
which it was filled.  The order is part of the type.

`get?` is the view: `get?_insert` says what every dictionary answers after an insertion.
-/

namespace CodeTint

variable {α : Type}

/-! ## 1. Lists in the order of their keys -/

/-- The keys ascend strictly. -/
def Ascending (es : List (String × α)) : Prop := es.Pairwise (fun a b => a.1 < b.1)

/-- The entries with a key set to a value. -/
def insertEntry (k : String) (v : α) : List (String × α) → List (String × α)
  | [] => [(k, v)]
  | e :: es =>
    if k < e.1 then (k, v) :: e :: es
    else if k = e.1 then (k, v) :: es
    else e :: insertEntry k v es

theorem mem_insertEntry {k : String} {v : α} {x : String × α} {es : List (String × α)}
    (h : x ∈ insertEntry k v es) : x = (k, v) ∨ x ∈ es := by
  induction es with
  | nil => simpa [insertEntry] using h
  | cons e es ih =>
    unfold insertEntry at h
    split at h
    · simpa using h
    · split at h
      · rcases List.mem_cons.1 h with h | h
        · exact .inl h
        · exact .inr (List.mem_cons_of_mem _ h)
      · rcases List.mem_cons.1 h with h | h
        · exact .inr (h ▸ List.mem_cons_self ..)
        · exact (ih h).imp_right (List.mem_cons_of_mem _)

theorem ascending_insertEntry (k : String) (v : α) {es : List (String × α)} (h : Ascending es) :
    Ascending (insertEntry k v es) := by
  induction es with
  | nil => simp [insertEntry, Ascending]
  | cons e es ih =>
    obtain ⟨he, hes⟩ := List.pairwise_cons.1 h
    unfold insertEntry
    split
    · next hk =>
      refine List.pairwise_cons.2 ⟨fun x hx => ?_, h⟩
      rcases List.mem_cons.1 hx with rfl | hx
      · exact hk
      · exact String.lt_trans hk (he x hx)
    · split
      · next hk =>
        exact List.pairwise_cons.2 ⟨fun x hx => hk ▸ he x hx, hes⟩
      · next h₁ h₂ =>
        have hek : e.1 < k := Std.lt_of_le_of_ne (String.not_lt.1 h₁) (fun hh => h₂ hh.symm)
        refine List.pairwise_cons.2 ⟨fun x hx => ?_, ih hes⟩
        rcases mem_insertEntry hx with rfl | hx
        · exact hek
        · exact he x hx

theorem lookup_cons_ite (k : String) (e : String × α) (es : List (String × α)) :
    (e :: es).lookup k = if k = e.1 then some e.2 else es.lookup k := by
  rw [List.lookup_cons]
  by_cases h : k = e.1
  · simp [h]
  · have hb : (k == e.1) = false := by simpa using h
    simp [hb, h]

/-! ## 2. Dictionaries -/

/-- **A dictionary**: entries with strictly ascending keys. -/
structure Dict (α : Type) where
  entries : List (String × α)
  ascending : Ascending entries

namespace Dict

/-- The dictionary without entries. -/
def empty : Dict α := ⟨[], List.Pairwise.nil⟩

instance : Inhabited (Dict α) := ⟨empty⟩

/-- The dictionary with a key set to a value. -/
def insert (d : Dict α) (k : String) (v : α) : Dict α :=
  ⟨insertEntry k v d.entries, ascending_insertEntry k v d.ascending⟩

/-- The value of a key. -/
def get? (d : Dict α) (k : String) : Option α := d.entries.lookup k

/-- The dictionary of a list of pairs; of two pairs with one key the later counts. -/
def ofList (es : List (String × α)) : Dict α := es.foldl (fun d e => d.insert e.1 e.2) empty

/-- The dictionary with every value changed. -/
def map {β : Type} (f : α → β) (d : Dict α) : Dict β :=
  ⟨d.entries.map fun e => (e.1, f e.2), by
    simpa only [Ascending, List.pairwise_map] using d.ascending⟩

@[simp] theorem get?_empty (k : String) : (empty : Dict α).get? k = none := rfl

/-- **After an insertion** the key has the new value, and all others have what they had. -/
theorem get?_insert (d : Dict α) (k k' : String) (v : α) :
    (d.insert k v).get? k' = if k' = k then some v else d.get? k' := by
  obtain ⟨es, h⟩ := d
  simp only [insert, get?]
  clear h
  induction es with
  | nil => simp [insertEntry, lookup_cons_ite]
  | cons e es ih =>
    unfold insertEntry
    split
    · simp only [lookup_cons_ite]
    · split
      · next hk => by_cases hk' : k' = k <;> simp [lookup_cons_ite, hk', ← hk]
      · next hk =>
        simp only [lookup_cons_ite, ih]
        by_cases hk' : k' = e.1
        · have : k' ≠ k := fun hh => hk (hh ▸ hk')
          simp [hk', Ne.symm hk]
        · simp [hk']

end Dict

end CodeTint
