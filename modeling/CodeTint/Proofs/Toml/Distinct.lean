/-
# A table has one entry for each key

While a document is read, a key is only set where it is not there yet, or where the table that it
names is changed.  So **the keys of a draft stay distinct**, at every depth, whatever is done at the
end of a chain of keys as long as it keeps them so (`KeepsKeys.changeAt`).

Inline tables and arrays are read by the same means, and the values of a document are made of drafts.
So in the table of a document (`distinct_of_parse?`) to have an entry is to have its key say so.
-/
import CodeTint.Proofs.Dict
import CodeTint.Toml.Reader

namespace CodeTint.Toml

/-! ## 1. Distinct keys -/

/-- **All tables in a value have distinct keys.** -/
inductive Value.IsDistinct : Value → Prop where
  | string (s : String) : IsDistinct (.string s)
  | integer (n : Int) : IsDistinct (.integer n)
  | float (x : Decimal.Binary64) : IsDistinct (.float x)
  | boolean (b : Bool) : IsDistinct (.boolean b)
  | datetime (d : Datetime) : IsDistinct (.datetime d)
  | array {vs : List Value} : (∀ v ∈ vs, IsDistinct v) → IsDistinct (.array vs)
  | table {es : Table} : HasKeys es → (∀ e ∈ es, IsDistinct e.2) → IsDistinct (.table es)

/-- The same for a draft. -/
inductive Draft.IsDistinct : Draft → Prop where
  | value {v : Value} : v.IsDistinct → IsDistinct (.value v)
  | table {o : Origin} {es : DraftEntries} : HasKeys es → (∀ e ∈ es, IsDistinct e.2) →
      IsDistinct (.table o es)
  | tables {latest : DraftEntries} {earlier : List Value} : HasKeys latest →
      (∀ e ∈ latest, IsDistinct e.2) → (∀ v ∈ earlier, v.IsDistinct) →
      IsDistinct (.tables latest earlier)

/-- A draft table with distinct keys at every depth. -/
structure AreDistinct (es : DraftEntries) : Prop where
  keys : HasKeys es
  all : ∀ e ∈ es, e.2.IsDistinct

theorem areDistinct_nil : AreDistinct [] := ⟨List.nodup_nil, fun _ h => nomatch h⟩

theorem AreDistinct.lookup {k : String} {d : Draft} {es : DraftEntries} (h : AreDistinct es)
    (hd : es.lookup k = some d) : d.IsDistinct := h.all _ (mem_of_lookup hd)

/-- **Setting a key keeps the keys distinct.** -/
theorem AreDistinct.setKey {k : String} {d : Draft} {es : DraftEntries} (h : AreDistinct es)
    (hd : d.IsDistinct) : AreDistinct (setKey k d es) := by
  unfold Toml.setKey
  split
  · have hkeys : (es.map fun e => if e.1 == k then (k, d) else e).map Prod.fst = es.map Prod.fst := by
      rw [List.map_map]
      refine List.map_congr_left fun e _ => ?_
      by_cases he : e.1 = k <;> simp [he]
    refine ⟨by rw [HasKeys, hkeys]; exact h.keys, fun e he => ?_⟩
    obtain ⟨e', he', rfl⟩ := List.mem_map.mp he
    split
    · exact hd
    · exact h.all e' he'
  · next hno =>
    have hk : k ∉ es.map Prod.fst := by
      intro hmem
      obtain ⟨e, he, rfl⟩ := List.mem_map.mp hmem
      exact hno (List.any_eq_true.mpr ⟨e, he, beq_self_eq_true e.1⟩)
    refine ⟨?_, fun e he => ?_⟩
    · rw [HasKeys, List.map_append, List.nodup_append]
      refine ⟨h.keys, by simp, ?_⟩
      rintro a ha b hb rfl
      rw [List.map_singleton, List.mem_singleton] at hb
      rw [hb] at ha
      exact hk ha
    · rcases List.mem_append.mp he with he | he
      · exact h.all e he
      · rw [List.mem_singleton.mp he]
        exact hd

/-! ## 2. Changes -/

/-- **A change keeps the keys distinct.** -/
def KeepsKeys (f : Origin → DraftEntries → Option DraftEntries) : Prop :=
  ∀ o es es', AreDistinct es → f o es = some es' → AreDistinct es'

/-- **So does the change at the end of a chain of keys.** -/
theorem KeepsKeys.changeAt {f : Origin → DraftEntries → Option DraftEntries} (hf : KeepsKeys f)
    {dotted : Bool} {o : Origin} {es es' : DraftEntries} {ks : List String} (h : AreDistinct es)
    (hc : changeAt dotted f o es ks = some es') : AreDistinct es' := by
  induction ks generalizing o es es' with
  | nil => exact hf o es es' h hc
  | cons k ks ih =>
    rw [Toml.changeAt] at hc
    cases hl : es.lookup k with
    | none =>
      rw [hl] at hc
      obtain ⟨sub, hsub, rfl⟩ := Option.map_eq_some_iff.mp hc
      have hsub := ih areDistinct_nil hsub
      exact h.setKey (.table hsub.keys hsub.all)
    | some d =>
      have hd := h.lookup hl
      rw [hl] at hc
      cases hd with
      | value => cases hc
      | @table o' sub hkeys hall =>
        dsimp only at hc
        split at hc
        · cases hc
        · obtain ⟨sub', hsub, rfl⟩ := Option.map_eq_some_iff.mp hc
          have hsub := ih ⟨hkeys, hall⟩ hsub
          exact h.setKey (.table hsub.keys hsub.all)
      | tables hkeys hall hearlier =>
        obtain ⟨sub', hsub, rfl⟩ := Option.map_eq_some_iff.mp hc
        have hsub := ih ⟨hkeys, hall⟩ hsub
        exact h.setKey (.tables hsub.keys hsub.all hearlier)

theorem keepsKeys_putNew {v : Value} (hv : v.IsDistinct) (chained : Bool) (k : String) :
    KeepsKeys (putNew chained k v) := by
  intro o es es' h hp
  unfold putNew at hp
  split at hp
  · split at hp
    · cases hp
      exact h.setKey (.value hv)
    · cases hp
  · cases hp

theorem AreDistinct.putDotted {ks : List String} {v : Value} {es es' : DraftEntries}
    (h : AreDistinct es) (hv : v.IsDistinct) (hp : putDotted ks v es = some es') :
    AreDistinct es' := by
  unfold Toml.putDotted at hp
  split at hp
  · cases hp
  · exact (keepsKeys_putNew hv _ _).changeAt h hp

/-- The value of a draft. -/
theorem Draft.IsDistinct.toValue {d : Draft} (h : d.IsDistinct) : d.toValue.IsDistinct := by
  have htable : ∀ es, tableOf es = es.map fun e => (e.1, e.2.toValue) := by
    intro es
    induction es with
    | nil => rfl
    | cons e es ih => rw [tableOf, ih, List.map_cons]
  have hentries : ∀ es, HasKeys es → (∀ e ∈ es, e.2.toValue.IsDistinct) →
      (Value.table (tableOf es)).IsDistinct := by
    intro es hkeys hall
    rw [htable]
    refine .table ?_ fun e he => ?_
    · rw [HasKeys, List.map_map]
      exact hkeys
    · obtain ⟨e', he', rfl⟩ := List.mem_map.mp he
      exact hall e' he'
  induction h with
  | value hv => exact hv
  | table hkeys _ ih => exact hentries _ hkeys ih
  | tables hkeys _ hearlier ih =>
    refine .array fun v hv => ?_
    rcases List.mem_append.mp hv with hv | hv
    · exact hearlier v (List.mem_reverse.mp hv)
    · rw [List.mem_singleton.mp hv]
      exact hentries _ hkeys ih

theorem AreDistinct.tableOf {es : DraftEntries} (h : AreDistinct es) :
    (Value.table (tableOf es)).IsDistinct :=
  Draft.IsDistinct.toValue (.table (o := .header) h.keys h.all)

theorem keepsKeys_openTable (k : String) : KeepsKeys (openTable k) := by
  intro o es es' h hp
  unfold openTable at hp
  split at hp
  · cases hp
    exact h.setKey (.table areDistinct_nil.keys areDistinct_nil.all)
  · next sub hl =>
    cases hp
    cases h.lookup hl with
    | table hkeys hall => exact h.setKey (.table hkeys hall)
  · cases hp

theorem keepsKeys_openTables (k : String) : KeepsKeys (openTables k) := by
  intro o es es' h hp
  unfold openTables at hp
  split at hp
  · cases hp
    exact h.setKey (.tables areDistinct_nil.keys areDistinct_nil.all fun _ h => nomatch h)
  · next latest earlier hl =>
    cases hp
    cases h.lookup hl with
    | tables hkeys hall hearlier =>
      refine h.setKey (.tables areDistinct_nil.keys areDistinct_nil.all fun v hv => ?_)
      rcases List.mem_cons.mp hv with rfl | hv
      · exact AreDistinct.tableOf ⟨hkeys, hall⟩
      · exact hearlier v hv
  · cases hp

theorem AreDistinct.openHeader {listed : Bool} {ks : List String} {es es' : DraftEntries}
    (h : AreDistinct es) (hp : openHeader listed ks es = some es') : AreDistinct es' := by
  unfold Toml.openHeader at hp
  split at hp
  · cases hp
  · refine KeepsKeys.changeAt ?_ h hp
    cases listed
    · exact keepsKeys_openTable _
    · exact keepsKeys_openTables _

/-! ## 3. Reading -/

theorem isDistinct_of_integer? {n : Int} {v : Value} (h : integer? n = some v) : v.IsDistinct := by
  unfold integer? at h
  split at h
  · cases h
    exact .integer n
  · cases h

theorem isDistinct_of_float? {x : Decimal.Binary64} {v : Value} (h : float? x = some v) :
    v.IsDistinct := by
  unfold float? at h
  split at h
  · cases h
  · cases h
    exact .float x

theorem isDistinct_of_based? {base : Nat} {digits : Char → Bool} {s r : List Char} {v : Value}
    (h : based? base digits s = some (v, r)) : v.IsDistinct := by
  unfold based? at h
  split at h
  · cases h
  · obtain ⟨n, hn, he⟩ := Option.map_eq_some_iff.mp h
    cases he
    exact isDistinct_of_integer? hn

theorem isDistinct_of_decimal? {negative : Bool} {s r : List Char} {v : Value}
    (h : decimal? negative s = some (v, r)) : v.IsDistinct := by
  unfold decimal? at h
  split at h
  · cases h
  · dsimp only at h
    split at h
    · cases h
    · split at h
      · obtain ⟨n, hn, he⟩ := Option.map_eq_some_iff.mp h
        cases he
        exact isDistinct_of_integer? hn
      · obtain ⟨x, hx, he⟩ := Option.map_eq_some_iff.mp h
        cases he
        exact isDistinct_of_float? hx

theorem isDistinct_of_number? {s r : List Char} {v : Value} (h : number? s = some (v, r)) :
    v.IsDistinct := by
  unfold number? at h
  split at h
  · exact isDistinct_of_based? h
  · exact isDistinct_of_based? h
  · exact isDistinct_of_based? h
  · dsimp only at h
    split at h
    · cases h
      exact .float _
    · cases h
      exact .float _
    · exact isDistinct_of_decimal? h

/-- **The values that are read have distinct keys**, and inline tables keep them distinct. -/
theorem isDistinct_of_fuel (fuel : Nat) :
    (∀ s v r, value? fuel s = some (v, r) → v.IsDistinct) ∧
      (∀ s vs r, values? fuel s = some (vs, r) → ∀ v ∈ vs, v.IsDistinct) ∧
      (∀ es s es' r, AreDistinct es → pairs? fuel es s = some (es', r) → AreDistinct es') := by
  induction fuel with
  | zero =>
    refine ⟨fun s v r h => ?_, fun s vs r h => ?_, fun es s es' r _ h => ?_⟩
    · rw [value?] at h
      cases h
    · rw [values?] at h
      cases h
    · rw [pairs?] at h
      cases h
  | succ fuel ih =>
    obtain ⟨hvalue, hvalues, hpairs⟩ := ih
    refine ⟨fun s v r h => ?_, fun s vs r h => ?_, fun es s es' r hes h => ?_⟩
    · unfold value? at h
      split at h
      case h_1 | h_2 =>
        obtain ⟨t, -, he⟩ := Option.map_eq_some_iff.mp h
        cases he
        exact .string _
      case h_3 | h_4 =>
        cases h
        exact .boolean _
      case h_5 =>
        obtain ⟨⟨vs, r'⟩, hvs, he⟩ := Option.map_eq_some_iff.mp h
        cases he
        exact .array (hvalues _ _ _ hvs)
      case h_6 =>
        split at h
        · cases h
          exact .table List.nodup_nil fun _ he => nomatch he
        · obtain ⟨⟨es, r'⟩, hes, he⟩ := Option.map_eq_some_iff.mp h
          cases he
          exact (hpairs _ _ _ _ areDistinct_nil hes).tableOf
      case h_7 =>
        split at h
        · obtain ⟨d, -, he⟩ := Option.map_eq_some_iff.mp h
          cases he
          exact .datetime _
        · exact isDistinct_of_number? h
    · unfold values? at h
      obtain ⟨r₁, -, h⟩ := Option.bind_eq_some_iff.mp h
      split at h
      · cases h
        exact fun _ hv => nomatch hv
      · obtain ⟨⟨v, r₂⟩, hv, h⟩ := Option.bind_eq_some_iff.mp h
        obtain ⟨r₃, -, h⟩ := Option.bind_eq_some_iff.mp h
        have hfirst := hvalue _ _ _ hv
        split at h
        · obtain ⟨⟨vs', r₄⟩, hvs, he⟩ := Option.bind_eq_some_iff.mp h
          cases he
          exact List.forall_mem_cons.mpr ⟨hfirst, hvalues _ _ _ hvs⟩
        · cases h
          exact List.forall_mem_singleton.mpr hfirst
        · cases h
    · unfold pairs? at h
      obtain ⟨⟨ks, r₁⟩, -, h⟩ := Option.bind_eq_some_iff.mp h
      dsimp only at h
      split at h
      · obtain ⟨⟨v, r₂⟩, hv, h⟩ := Option.bind_eq_some_iff.mp h
        obtain ⟨es₁, hput, h⟩ := Option.bind_eq_some_iff.mp h
        have hes₁ := hes.putDotted (hvalue _ _ _ hv) hput
        dsimp only at h
        split at h
        · exact hpairs _ _ _ _ hes₁ h
        · cases h
          exact hes₁
        · cases h
      · cases h

/-- **A line keeps the keys distinct.** -/
theorem areDistinct_of_line? {w w' : Reading} {s r : List Char} (hw : AreDistinct w.root)
    (h : line? w s = some (w', r)) : AreDistinct w'.root := by
  have hheader : ∀ listed s, header? listed w s = some (w', r) → AreDistinct w'.root := by
    intro listed s h
    unfold header? at h
    obtain ⟨⟨ks, r₁⟩, -, h⟩ := Option.bind_eq_some_iff.mp h
    dsimp only at h
    split at h
    all_goals
      obtain ⟨r₂, -, h⟩ := Option.bind_eq_some_iff.mp h
      obtain ⟨root, hroot, he⟩ := Option.bind_eq_some_iff.mp h
      cases he
      exact hw.openHeader hroot
  have hpair : pair? w s = some (w', r) → AreDistinct w'.root := by
    intro h
    unfold pair? at h
    obtain ⟨⟨ks, r₁⟩, -, h⟩ := Option.bind_eq_some_iff.mp h
    dsimp only at h
    split at h
    · obtain ⟨⟨v, r₂⟩, hv, h⟩ := Option.bind_eq_some_iff.mp h
      obtain ⟨root, hroot, he⟩ := Option.bind_eq_some_iff.mp h
      cases he
      have hv := (isDistinct_of_fuel _).1 _ _ _ hv
      exact KeepsKeys.changeAt (fun _ _ _ hes hput => hes.putDotted hv hput) hw hroot
    · cases h
  unfold line? at h
  split at h
  · exact hheader _ _ h
  · exact hheader _ _ h
  all_goals first | exact hpair h | (cases h; exact hw)

theorem areDistinct_of_lines? {fuel : Nat} {w w' : Reading} {s : List Char}
    (hw : AreDistinct w.root) (h : lines? fuel w s = some w') : AreDistinct w'.root := by
  induction fuel generalizing w s with
  | zero =>
    rw [lines?] at h
    cases h
    exact hw
  | succ fuel ih =>
    cases s with
    | nil =>
      rw [lines?] at h
      cases h
      exact hw
    | cons c s =>
      rw [lines?] at h
      · obtain ⟨⟨w₁, r⟩, hline, h⟩ := Option.bind_eq_some_iff.mp h
        obtain ⟨r', -, h⟩ := Option.bind_eq_some_iff.mp h
        exact ih (areDistinct_of_line? hw hline) h
      · exact List.cons_ne_nil _ _

/-- **The table of a document has distinct keys**, with all tables in it. -/
theorem isDistinct_of_parse? {source : List Char} {t : Table} (h : parse? source = some t) :
    (Value.table t).IsDistinct := by
  unfold parse? at h
  obtain ⟨w, hw, rfl⟩ := Option.map_eq_some_iff.mp h
  exact (areDistinct_of_lines? areDistinct_nil hw).tableOf

end CodeTint.Toml
