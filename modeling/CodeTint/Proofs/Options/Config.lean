/-
# How a configuration file becomes options

A table is read entry by entry, and each entry sets one field of a configuration (`Config.Puts`).  As
the keys of a table are distinct, the fields are what is found under their keys (`Config.said`), and
**a table is read just if all its entries can be put** (`Config.ofTable_eq_ok_iff`).

A configuration gives options (`Config.Gives`) unless it names a dialect that is none or a timeout of
zero.
-/
import CodeTint.Options.Config
import CodeTint.Proofs.Toml.Distinct

namespace CodeTint

open Toml (Value Table)

/-! ## 1. Entries that are read -/

namespace Config

section

variable {α : Type} {f : Value → Option α} {es : Table} {rs : List (String × α)}

theorem exists_mapM_iff : (∃ rs, es.mapM (fun (k, v) => (f v).map (k, ·)) = some rs) ↔
    ∀ e ∈ es, ∃ a, f e.2 = some a := by
  induction es with
  | nil => simp
  | cons e es ih =>
    rw [List.forall_mem_cons, ← ih]
    simp only [List.mapM_cons, Option.bind_eq_bind, Option.bind_eq_some_iff, Option.map_eq_some_iff]
    constructor
    · rintro ⟨rs, r, ⟨a, ha, -⟩, rs', hrs', -⟩
      exact ⟨⟨a, ha⟩, rs', hrs'⟩
    · rintro ⟨⟨a, ha⟩, rs', hrs'⟩
      exact ⟨_, _, ⟨a, ha, rfl⟩, rs', hrs', rfl⟩

/-- **The entries keep their keys**, and each value is read. -/
theorem mapM_spec (h : es.mapM (fun (k, v) => (f v).map (k, ·)) = some rs) :
    rs.map Prod.fst = es.map Prod.fst ∧
      ∀ k a, (k, a) ∈ rs ↔ ∃ v, (k, v) ∈ es ∧ f v = some a := by
  induction es generalizing rs with
  | nil =>
    cases h
    simp
  | cons e es ih =>
    simp only [List.mapM_cons, Option.bind_eq_bind, Option.bind_eq_some_iff,
      Option.map_eq_some_iff] at h
    obtain ⟨r, ⟨a, ha, rfl⟩, rs', hrs', hrs⟩ := h
    cases hrs
    obtain ⟨hkeys, hmem⟩ := ih hrs'
    refine ⟨by rw [List.map_cons, List.map_cons, hkeys], fun k b => ?_⟩
    rw [List.mem_cons, hmem]
    constructor
    · rintro (heq | ⟨v, hv, hb⟩)
      · cases heq
        exact ⟨e.2, List.mem_cons_self .., ha⟩
      · exact ⟨v, List.mem_cons_of_mem _ hv, hb⟩
    · rintro ⟨v, hv, hb⟩
      rcases List.mem_cons.mp hv with rfl | hv
      · rw [ha, Option.some.injEq] at hb
        exact .inl (by rw [hb])
      · exact .inr ⟨v, hv, hb⟩

/-- What `entries?` reads. -/
theorem entries?_spec {v : Value} (h : entries? f v = some rs) : ∃ es, table? v = some es ∧
    rs.map Prod.fst = es.map Prod.fst ∧ ∀ k a, (k, a) ∈ rs ↔ ∃ v, (k, v) ∈ es ∧ f v = some a := by
  obtain ⟨es, hes, h⟩ := Option.bind_eq_some_iff.mp h
  exact ⟨es, hes, mapM_spec h⟩

theorem exists_entries?_iff {v : Value} : (∃ rs, entries? f v = some rs) ↔
    ∃ es, table? v = some es ∧ ∀ e ∈ es, ∃ a, f e.2 = some a := by
  simp only [entries?, Option.bind_eq_bind, Option.bind_eq_some_iff, exists_comm (α := List _),
    exists_and_left, exists_mapM_iff]

end

/-! ## 2. What a table says -/

/-- **One entry is put into a configuration.** -/
inductive Puts (c : Config) : String → Value → Config → Prop where
  | dialect (s : String) : Puts c "syntax" (.string s) { c with dialect := some s }
  | defaultColorizer (s : String) :
      Puts c "default_colorizer" (.string s) { c with defaultColorizer := some s }
  | outsidePre (b : Bool) : Puts c "outside_pre" (.boolean b) { c with outsidePre := some b }
  | timeout {n : Int} : 0 ≤ n →
      Puts c "timeout_ms" (.integer n) { c with timeoutMs := some n.toNat }
  | searchPath (s : String) : Puts c "search_path" (.string s) { c with searchPath := some s }
  | colorizers {v : Value} {es : List (String × String)} : entries? string? v = some es →
      Puts c "colorizers" v { c with colorizers := es }
  | params {v : Value} {es : List (String × List (String × String))} :
      entries? (entries? scalar?) v = some es → Puts c "params" v { c with params := es }

theorem string?_eq_some {v : Value} {s : String} : string? v = some s ↔ v = .string s := by
  cases v <;> simp [string?]

theorem boolean?_eq_some {v : Value} {b : Bool} : boolean? v = some b ↔ v = .boolean b := by
  cases v <;> simp [boolean?]

theorem natural?_eq_some {v : Value} {n : Nat} : natural? v = some n ↔ v = .integer n := by
  cases v with
  | integer m =>
    by_cases hm : 0 ≤ m
    · simp only [natural?, if_pos hm, Option.some.injEq, Value.integer.injEq]
      omega
    · simp only [natural?, if_neg hm, Value.integer.injEq]
      constructor
      · intro h
        cases h
      · rintro rfl
        exact absurd (Int.natCast_nonneg n) hm
  | _ => simp [natural?]

theorem put?_eq_some_iff {c c' : Config} {k : String} {v : Value} :
    c.put? k v = some c' ↔ Puts c k v c' := by
  constructor
  · intro h
    unfold put? at h
    split at h
    · obtain ⟨s, hs, rfl⟩ := Option.map_eq_some_iff.mp h
      rw [string?_eq_some.mp hs]
      exact .dialect s
    · obtain ⟨s, hs, rfl⟩ := Option.map_eq_some_iff.mp h
      rw [string?_eq_some.mp hs]
      exact .defaultColorizer s
    · obtain ⟨b, hb, rfl⟩ := Option.map_eq_some_iff.mp h
      rw [boolean?_eq_some.mp hb]
      exact .outsidePre b
    · obtain ⟨n, hn, rfl⟩ := Option.map_eq_some_iff.mp h
      rw [natural?_eq_some.mp hn]
      exact .timeout (Int.natCast_nonneg n)
    · obtain ⟨s, hs, rfl⟩ := Option.map_eq_some_iff.mp h
      rw [string?_eq_some.mp hs]
      exact .searchPath s
    · obtain ⟨es, hes, rfl⟩ := Option.map_eq_some_iff.mp h
      exact .colorizers hes
    · obtain ⟨es, hes, rfl⟩ := Option.map_eq_some_iff.mp h
      exact .params hes
    · cases h
  · intro h
    cases h with
    | dialect s => rfl
    | defaultColorizer s => rfl
    | outsidePre b => rfl
    | timeout hn => simp [put?, natural?, hn]
    | searchPath s => rfl
    | colorizers hv => simp [put?, hv]
    | params hv => simp [put?, hv]

/-- **What a table says**, key by key. -/
def said (t : Table) : Config where
  dialect := (t.lookup "syntax").bind string?
  defaultColorizer := (t.lookup "default_colorizer").bind string?
  outsidePre := (t.lookup "outside_pre").bind boolean?
  timeoutMs := (t.lookup "timeout_ms").bind natural?
  searchPath := (t.lookup "search_path").bind string?
  colorizers := ((t.lookup "colorizers").bind (entries? string?)).getD []
  params := ((t.lookup "params").bind (entries? (entries? scalar?))).getD []

/-- **One entry more**, under a key that is new. -/
theorem Puts.said {t : Table} {k : String} {v : Value} {c : Config} (h : Puts (said t) k v c)
    (hk : t.lookup k = none) : c = said (t ++ [(k, v)]) := by
  cases h with
  | dialect s => simp [Config.said, List.lookup_append, hk, lookup_cons_ite, string?]
  | defaultColorizer s => simp [Config.said, List.lookup_append, hk, lookup_cons_ite, string?]
  | outsidePre b => simp [Config.said, List.lookup_append, hk, lookup_cons_ite, boolean?]
  | timeout hn => simp [Config.said, List.lookup_append, hk, lookup_cons_ite, natural?, hn]
  | searchPath s => simp [Config.said, List.lookup_append, hk, lookup_cons_ite, string?]
  | colorizers hv => simp [Config.said, List.lookup_append, hk, lookup_cons_ite, hv]
  | params hv => simp [Config.said, List.lookup_append, hk, lookup_cons_ite, hv]

/-- Whether an entry can be put does not depend on what is there. -/
theorem Puts.anywhere {c c' : Config} {k : String} {v : Value} (h : Puts c k v c') (d : Config) :
    ∃ d', Puts d k v d' := by
  cases h with
  | dialect s => exact ⟨_, .dialect s⟩
  | defaultColorizer s => exact ⟨_, .defaultColorizer s⟩
  | outsidePre b => exact ⟨_, .outsidePre b⟩
  | timeout hn => exact ⟨_, .timeout hn⟩
  | searchPath s => exact ⟨_, .searchPath s⟩
  | colorizers hv => exact ⟨_, .colorizers hv⟩
  | params hv => exact ⟨_, .params hv⟩

/-- An entry can be put into a configuration. -/
def Fits (e : String × Value) : Prop := ∃ c c', Puts c e.1 e.2 c'

theorem put_eq_ok_iff {c c' : Config} {e : String × Value} : c.put e = .ok c' ↔ Puts c e.1 e.2 c' := by
  rw [← put?_eq_some_iff, put]
  cases c.put? e.1 e.2 <;> simp

/-- **The entries of a table are put one after another** behind those that are there. -/
theorem foldlM_put_iff {front back : Table} (h : HasKeys (front ++ back)) {c : Config} :
    back.foldlM put (said front) = .ok c ↔ (∀ e ∈ back, Fits e) ∧ c = said (front ++ back) := by
  induction back generalizing front with
  | nil =>
    rw [List.append_nil]
    constructor
    · intro hc
      cases hc
      exact ⟨fun _ he => absurd he List.not_mem_nil, rfl⟩
    · rintro ⟨-, rfl⟩
      rfl
  | cons e back ih =>
    have hnew : front.lookup e.1 = none := by
      rw [lookup_eq_none_iff]
      intro v hv
      rw [HasKeys, List.map_append, List.nodup_append] at h
      exact h.2.2 _ (List.mem_map_of_mem hv) _ (List.mem_map_of_mem (List.mem_cons_self ..)) rfl
    have hmove : front ++ e :: back = (front ++ [e]) ++ back := by simp
    rw [List.foldlM_cons, List.forall_mem_cons, hmove]
    cases hput : (said front).put e with
    | error fault =>
      refine iff_of_false ?_ ?_
      · intro hc
        cases hc
      · rintro ⟨⟨⟨d, d', hfits⟩, -⟩, -⟩
        obtain ⟨c', hc'⟩ := hfits.anywhere (said front)
        rw [put_eq_ok_iff.mpr hc'] at hput
        cases hput
    | ok c' =>
      have hputs := put_eq_ok_iff.mp hput
      rw [hputs.said hnew]
      refine (ih (hmove ▸ h)).trans (and_congr_left fun _ => ?_)
      exact ⟨fun hall => ⟨⟨_, _, hputs⟩, hall⟩, And.right⟩

/-- **A table is read if all its entries fit**, and then it says what its entries say. -/
theorem ofTable_eq_ok_iff {t : Table} (h : HasKeys t) {c : Config} :
    ofTable t = .ok c ↔ (∀ e ∈ t, Fits e) ∧ c = said t :=
  @foldlM_put_iff [] t h c

/-! ## 3. Options -/

/-- **The options that a configuration gives.** -/
structure Gives (c : Config) (o : Options) : Prop where
  dialect : c.dialect = none ∧ o.dialect = .html ∨
    ∃ s, c.dialect = some s ∧ Markup.Dialect.ofName? s = some o.dialect
  defaultColorizer : o.defaultColorizer = c.defaultColorizer.getD Colorizer.builtin.name
  colorizers : o.colorizers = Dict.ofList c.colorizers
  params : o.params = (Dict.ofList c.params).map Dict.ofList
  outsidePre : o.outsidePre = c.outsidePre.getD false
  searchPath : o.searchPath = c.searchPath
  timeout : c.timeoutMs = none ∧ o.timeout = none ∨
    ∃ ms, c.timeoutMs = some ms ∧ ms ≠ 0 ∧ o.timeout = some (.ofMillis ms)

/-- A name of a dialect, whatever its case. -/
theorem ofName?_eq_some_iff {s : String} {d : Markup.Dialect} :
    Markup.Dialect.ofName? s = some d ↔ Text.lower s.toList = d.name.toList := by
  unfold Markup.Dialect.ofName?
  constructor
  · intro h
    have hd := List.find?_some h
    exact (beq_iff_eq.mp hd).symm
  · intro h
    rw [h]
    cases d <;> decide

theorem dialectOf_eq_ok_iff {name : String} {d : Markup.Dialect} :
    dialectOf name = .ok d ↔ Markup.Dialect.ofName? name = some d := by
  unfold dialectOf
  cases Markup.Dialect.ofName? name <;> simp

theorem timeoutOf_eq_ok_iff {ms : Nat} {t : Duration} :
    timeoutOf ms = .ok t ↔ ms ≠ 0 ∧ t = .ofMillis ms := by
  unfold timeoutOf
  by_cases h : ms = 0 <;> simp [h, eq_comm]

/-- What may be there is read if it is there. -/
theorem mapM_eq_ok_iff {α β : Type} {f : α → Except Error β} {x : Option α} {y : Option β} :
    x.mapM f = .ok y ↔ x = none ∧ y = none ∨ ∃ a b, x = some a ∧ f a = .ok b ∧ y = some b := by
  cases x with
  | none =>
    show Except.ok none = Except.ok y ↔ _
    simp [eq_comm]
  | some a =>
    have hmap : (some a).mapM f = (f a).map some := by
      show some <$> f a = _
      cases f a <;> rfl
    rw [hmap]
    cases hf : f a <;> simp [Except.map, hf, eq_comm]

theorem options_eq (c : Config) : c.options = c.dialect.mapM dialectOf >>= fun dialect =>
    c.timeoutMs.mapM timeoutOf >>= fun timeout => .ok
      { dialect := dialect.getD .html
        defaultColorizer := c.defaultColorizer.getD Colorizer.builtin.name
        colorizers := Dict.ofList c.colorizers
        params := (Dict.ofList c.params).map Dict.ofList
        outsidePre := c.outsidePre.getD false
        searchPath := c.searchPath
        timeout } := rfl

theorem options_eq_ok_iff {c : Config} {o : Options} : c.options = .ok o ↔ c.Gives o := by
  rw [options_eq]
  constructor
  · intro h
    cases hd : c.dialect.mapM dialectOf with
    | error e =>
      rw [hd] at h
      cases h
    | ok d =>
      cases ht : c.timeoutMs.mapM timeoutOf with
      | error e =>
        rw [hd, ht] at h
        cases h
      | ok t =>
        rw [hd, ht] at h
        cases h
        refine ⟨?_, rfl, rfl, rfl, rfl, rfl, ?_⟩
        · rcases mapM_eq_ok_iff.mp hd with ⟨hnone, rfl⟩ | ⟨s, x, hs, hx, rfl⟩
          · exact .inl ⟨hnone, rfl⟩
          · exact .inr ⟨s, hs, dialectOf_eq_ok_iff.mp hx⟩
        · rcases mapM_eq_ok_iff.mp ht with ⟨hnone, rfl⟩ | ⟨ms, x, hms, hx, rfl⟩
          · exact .inl ⟨hnone, rfl⟩
          · obtain ⟨hne, rfl⟩ := timeoutOf_eq_ok_iff.mp hx
            exact .inr ⟨ms, hms, hne, rfl⟩
  · rintro ⟨hdialect, hdefault, hcolorizers, hparams, houtside, hpath, htimeout⟩
    have hd : ∃ d, c.dialect.mapM dialectOf = .ok d ∧ d.getD .html = o.dialect := by
      rcases hdialect with ⟨hnone, ho⟩ | ⟨s, hs, ho⟩
      · exact ⟨none, mapM_eq_ok_iff.mpr (.inl ⟨hnone, rfl⟩), ho.symm⟩
      · exact ⟨some o.dialect,
          mapM_eq_ok_iff.mpr (.inr ⟨s, _, hs, dialectOf_eq_ok_iff.mpr ho, rfl⟩), rfl⟩
    have ht : c.timeoutMs.mapM timeoutOf = .ok o.timeout := by
      rcases htimeout with ⟨hnone, ho⟩ | ⟨ms, hms, hne, ho⟩
      · exact mapM_eq_ok_iff.mpr (.inl ⟨hnone, ho⟩)
      · exact mapM_eq_ok_iff.mpr (.inr ⟨ms, _, hms, timeoutOf_eq_ok_iff.mpr ⟨hne, rfl⟩, ho⟩)
    obtain ⟨d, hd, hdo⟩ := hd
    rw [hd, ht]
    show Except.ok _ = Except.ok o
    rw [hdo, ← hdefault, ← hcolorizers, ← hparams, ← houtside, ← hpath]

/-- **What is wrong with a configuration is for its author to mend.** -/
theorem kind_of_options_eq_error {c : Config} {e : Error} (h : c.options = .error e) :
    e.kind = .configuration := by
  have hread : ∀ {α β : Type} {f : α → Except Error β} {x : Option α} {e : Error},
      x.mapM f = .error e → ∃ a, f a = .error e := by
    intro α β f x e h
    cases x with
    | none => cases h
    | some a =>
      refine ⟨a, ?_⟩
      change some <$> f a = _ at h
      cases hf : f a with
      | ok b =>
        rw [hf] at h
        cases h
      | error e' =>
        rw [hf] at h
        cases h
        rfl
  rw [options_eq] at h
  cases hd : c.dialect.mapM dialectOf with
  | error e' =>
    rw [hd] at h
    cases h
    obtain ⟨name, hname⟩ := hread hd
    unfold dialectOf at hname
    split at hname
    · cases hname
    · cases hname
      rfl
  | ok d =>
    cases ht : c.timeoutMs.mapM timeoutOf with
    | ok t =>
      rw [hd, ht] at h
      cases h
    | error e' =>
      rw [hd, ht] at h
      cases h
      obtain ⟨ms, hms⟩ := hread ht
      unfold timeoutOf at hms
      split at hms
      · cases hms
        rfl
      · cases hms

end Config

/-! ## 4. Documents -/

/-- What counts as a table has distinct keys. -/
theorem isDistinct_table? {v : Value} {es : Table} (hv : v.IsDistinct)
    (h : Config.table? v = some es) : HasKeys es ∧ ∀ e ∈ es, e.2.IsDistinct := by
  cases hv with
  | table hkeys hall =>
    cases h
    exact ⟨hkeys, hall⟩
  | datetime d =>
    cases h
    refine ⟨List.pairwise_singleton _ _, fun e he => ?_⟩
    rw [List.mem_singleton.mp he]
    exact .string _
  | _ => cases h

theorem hasKeys_of_entries? {α : Type} {f : Value → Option α} {v : Value} {rs : List (String × α)}
    (hv : v.IsDistinct) (h : Config.entries? f v = some rs) : HasKeys rs := by
  obtain ⟨es, hes, hkeys, -⟩ := Config.entries?_spec h
  rw [HasKeys, hkeys]
  exact (isDistinct_table? hv hes).1

/-- **What a document says**: its table, all of whose entries fit. -/
theorem Config.ofSource_eq_ok_iff {source : List Char} {c : Config} :
    Config.ofSource source = .ok c ↔
      ∃ t, Toml.parse? source = some t ∧ (∀ e ∈ t, Config.Fits e) ∧ c = Config.said t := by
  unfold Config.ofSource
  cases hparse : Toml.parse? source with
  | none => simp
  | some t =>
    have hkeys := (isDistinct_table? (Toml.isDistinct_of_parse? hparse) rfl).1
    simp only [Option.some.injEq, exists_eq_left']
    exact Config.ofTable_eq_ok_iff hkeys

/-- **The options of a document**: what it says, and what that gives. -/
theorem ofToml_eq_ok_iff {source : List Char} {o : Options} : Options.ofToml source = .ok o ↔
    ∃ c, Config.ofSource source = .ok c ∧ c.Gives o := by
  unfold Options.ofToml
  cases Config.ofSource source with
  | error fault => simp
  | ok c =>
    simp only [Except.ok.injEq, exists_eq_left']
    exact Config.options_eq_ok_iff

theorem kind_of_ofToml_eq_error {source : List Char} {e : Error}
    (h : Options.ofToml source = .error e) : e.kind = .configuration := by
  unfold Options.ofToml at h
  split at h
  · cases h
    rfl
  · exact Config.kind_of_options_eq_error h

end CodeTint
