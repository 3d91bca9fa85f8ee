/-
# What a configuration file may say

The schema of a configuration file says of each entry of a table whether it may stand there
(`IsEntry`).  It goes by what is taken for a table: tables only, as one would think, or dates and
times as well, as the reader has it (`Config.table?`).

**A document gives options just if all its entries are of the schema as the reader has it**, and what
the options are is what the entries say (`Says`), or as always.  The two schemas differ where a date
or a time stands in for a table of strings or of parameters (`HasStandIn`), and **nowhere else**: the
reader takes such a table for one with a single entry.
-/
import CodeTint.Proofs.Options.Config

namespace CodeTint

open Toml (Value Table Datetime)

/-! ## 1. The schema -/

/-- Only tables are tables. -/
def onlyTable? : Value → Option Table
  | .table es => some es
  | _ => none

/-- The value of a parameter. -/
inductive IsScalar : Value → Prop where
  | string (s : String) : IsScalar (.string s)
  | boolean (b : Bool) : IsScalar (.boolean b)
  | integer (n : Int) : IsScalar (.integer n)
  | float (x : Decimal.Binary64) : IsScalar (.float x)

/-- **The entries that a configuration file may have**, by what is taken for a table. -/
inductive IsEntry (asTable : Value → Option Table) : String × Value → Prop where
  | dialect {s : String} {d : Markup.Dialect} : Text.lower s.toList = d.name.toList →
      IsEntry asTable ("syntax", .string s)
  | defaultColorizer (s : String) : IsEntry asTable ("default_colorizer", .string s)
  | outsidePre (b : Bool) : IsEntry asTable ("outside_pre", .boolean b)
  | timeout {n : Int} : 1 ≤ n → IsEntry asTable ("timeout_ms", .integer n)
  | searchPath (s : String) : IsEntry asTable ("search_path", .string s)
  | colorizers {v : Value} {es : Table} : asTable v = some es →
      (∀ e ∈ es, ∃ s, e.2 = .string s) → IsEntry asTable ("colorizers", v)
  | params {v : Value} {es : Table} : asTable v = some es →
      (∀ e ∈ es, ∃ ps, asTable e.2 = some ps ∧ ∀ p ∈ ps, IsScalar p.2) →
      IsEntry asTable ("params", v)

section

variable {asTable : Value → Option Table} {v : Value}

/-- The entries by their keys. -/
theorem isEntry_iff {key : String} : IsEntry asTable (key, v) ↔
    (key = "syntax" ∧ ∃ s, v = .string s ∧ ∃ d : Markup.Dialect, Text.lower s.toList = d.name.toList) ∨
    (key = "default_colorizer" ∧ ∃ s, v = .string s) ∨
    (key = "outside_pre" ∧ ∃ b, v = .boolean b) ∨
    (key = "timeout_ms" ∧ ∃ n, v = .integer n ∧ 1 ≤ n) ∨
    (key = "search_path" ∧ ∃ s, v = .string s) ∨
    (key = "colorizers" ∧ ∃ es, asTable v = some es ∧ ∀ e ∈ es, ∃ s, e.2 = .string s) ∨
    (key = "params" ∧ ∃ es, asTable v = some es ∧
      ∀ e ∈ es, ∃ ps, asTable e.2 = some ps ∧ ∀ p ∈ ps, IsScalar p.2) := by
  constructor
  · intro h
    cases h with
    | @dialect s d hd => exact .inl ⟨rfl, s, rfl, d, hd⟩
    | defaultColorizer s => exact .inr (.inl ⟨rfl, s, rfl⟩)
    | outsidePre b => exact .inr (.inr (.inl ⟨rfl, b, rfl⟩))
    | timeout hn => exact .inr (.inr (.inr (.inl ⟨rfl, _, rfl, hn⟩)))
    | searchPath s => exact .inr (.inr (.inr (.inr (.inl ⟨rfl, s, rfl⟩))))
    | colorizers hv hall => exact .inr (.inr (.inr (.inr (.inr (.inl ⟨rfl, _, hv, hall⟩)))))
    | params hv hall => exact .inr (.inr (.inr (.inr (.inr (.inr ⟨rfl, _, hv, hall⟩)))))
  · rintro (⟨rfl, s, rfl, d, hd⟩ | ⟨rfl, s, rfl⟩ | ⟨rfl, b, rfl⟩ | ⟨rfl, n, rfl, hn⟩ |
      ⟨rfl, s, rfl⟩ | ⟨rfl, es, hv, hall⟩ | ⟨rfl, es, hv, hall⟩)
    · exact .dialect hd
    · exact .defaultColorizer s
    · exact .outsidePre b
    · exact .timeout hn
    · exact .searchPath s
    · exact .colorizers hv hall
    · exact .params hv hall

theorem isEntry_syntax_iff {s : String} : IsEntry asTable ("syntax", .string s) ↔
    ∃ d : Markup.Dialect, Text.lower s.toList = d.name.toList := by
  simp [isEntry_iff]

theorem isEntry_timeout_iff {n : Int} : IsEntry asTable ("timeout_ms", .integer n) ↔ 1 ≤ n := by
  simp [isEntry_iff]

theorem isEntry_colorizers_iff : IsEntry asTable ("colorizers", v) ↔
    ∃ es, asTable v = some es ∧ ∀ e ∈ es, ∃ s, e.2 = .string s := by
  simp [isEntry_iff]

theorem isEntry_params_iff : IsEntry asTable ("params", v) ↔
    ∃ es, asTable v = some es ∧
      ∀ e ∈ es, ∃ ps, asTable e.2 = some ps ∧ ∀ p ∈ ps, IsScalar p.2 := by
  simp [isEntry_iff]

/-- What is taken for a table matters under two keys only. -/
theorem IsEntry.change {asTable' : Value → Option Table} {key : String}
    (h : IsEntry asTable (key, v)) (hcolorizers : key = "colorizers" → IsEntry asTable' (key, v))
    (hparams : key = "params" → IsEntry asTable' (key, v)) : IsEntry asTable' (key, v) := by
  cases h with
  | dialect hd => exact .dialect hd
  | defaultColorizer s => exact .defaultColorizer s
  | outsidePre b => exact .outsidePre b
  | timeout hn => exact .timeout hn
  | searchPath s => exact .searchPath s
  | colorizers => exact hcolorizers rfl
  | params => exact hparams rfl

end

/-- **A table is a configuration.** -/
def IsConfig (asTable : Value → Option Table) (t : Table) : Prop := ∀ e ∈ t, IsEntry asTable e

/-- A date or a time stands in for a table. -/
def HasStandIn (t : Table) : Prop :=
  ∃ d, ("colorizers", .datetime d) ∈ t ∨
    ∃ es name, ("params", .table es) ∈ t ∧ (name, .datetime d) ∈ es

/-- Whether a value is a date or a time. -/
def isDatetime : Value → Bool
  | .datetime _ => true
  | _ => false

/-- Whether an entry has a date or a time in place of a table. -/
def standsIn : String × Value → Bool
  | (key, .table es) => key == "params" && es.any (isDatetime ·.2)
  | (key, v) => key == "colorizers" && isDatetime v

theorem isDatetime_iff {v : Value} : isDatetime v = true ↔ ∃ d, v = .datetime d := by
  cases v <;> simp [isDatetime]

theorem hasStandIn_iff {t : Table} : HasStandIn t ↔ t.any standsIn = true := by
  rw [List.any_eq_true]
  constructor
  · rintro ⟨d, hd | ⟨es, name, hes, hname⟩⟩
    · exact ⟨_, hd, rfl⟩
    · refine ⟨_, hes, ?_⟩
      rw [standsIn, beq_self_eq_true, Bool.true_and, List.any_eq_true]
      exact ⟨_, hname, rfl⟩
  · rintro ⟨⟨key, v⟩, hv, hstands⟩
    cases v with
    | table es =>
      rw [standsIn, Bool.and_eq_true, beq_iff_eq, List.any_eq_true] at hstands
      obtain ⟨rfl, ⟨name, w⟩, hw, hdate⟩ := hstands
      obtain ⟨d, rfl⟩ := isDatetime_iff.mp hdate
      exact ⟨d, .inr ⟨es, name, hv, hw⟩⟩
    | datetime d =>
      rw [standsIn, Bool.and_eq_true, beq_iff_eq] at hstands
      · obtain ⟨rfl, -⟩ := hstands
        exact ⟨d, .inl hv⟩
      · exact fun es h => nomatch h
    | _ => simp [standsIn, isDatetime] at hstands

instance (t : Table) : Decidable (HasStandIn t) := decidable_of_iff _ hasStandIn_iff.symm

theorem onlyTable?_eq_some {v : Value} {es : Table} : onlyTable? v = some es ↔ v = .table es := by
  cases v <;> simp [onlyTable?]

/-- **The two schemas differ in stand-ins only.** -/
theorem isConfig_onlyTable_iff {t : Table} :
    IsConfig onlyTable? t ↔ IsConfig Config.table? t ∧ ¬ HasStandIn t := by
  constructor
  · intro h
    refine ⟨?_, ?_⟩
    · rintro ⟨key, v⟩ he
      refine (h _ he).change ?_ ?_
      · rintro rfl
        obtain ⟨es, hv, hall⟩ := isEntry_colorizers_iff.mp (h _ he)
        rw [onlyTable?_eq_some.mp hv]
        exact .colorizers rfl hall
      · rintro rfl
        obtain ⟨es, hv, hall⟩ := isEntry_params_iff.mp (h _ he)
        rw [onlyTable?_eq_some.mp hv]
        refine .params rfl fun e he' => ?_
        obtain ⟨ps, hps, hscalar⟩ := hall e he'
        exact ⟨ps, by rw [onlyTable?_eq_some.mp hps]; rfl, hscalar⟩
    · rintro ⟨d, hd | ⟨es, name, hes, hname⟩⟩
      · obtain ⟨es, hv, -⟩ := isEntry_colorizers_iff.mp (h _ hd)
        cases hv
      · obtain ⟨es', hv, hall⟩ := isEntry_params_iff.mp (h _ hes)
        cases hv
        obtain ⟨ps, hps, -⟩ := hall _ hname
        cases hps
  · rintro ⟨h, hno⟩ ⟨key, v⟩ he
    refine (h _ he).change ?_ ?_
    · rintro rfl
      obtain ⟨es, hv, hall⟩ := isEntry_colorizers_iff.mp (h _ he)
      cases v with
      | table => exact .colorizers hv hall
      | datetime d => exact absurd ⟨d, .inl he⟩ hno
      | _ => cases hv
    · rintro rfl
      obtain ⟨es, hv, hall⟩ := isEntry_params_iff.mp (h _ he)
      cases v with
      | table =>
        cases hv
        refine .params rfl ?_
        rintro ⟨name, w⟩ hw
        obtain ⟨ps, hps, hscalar⟩ := hall _ hw
        cases w with
        | table => exact ⟨ps, hps, hscalar⟩
        | datetime d => exact absurd ⟨d, .inr ⟨_, name, he, hw⟩⟩ hno
        | _ => cases hps
      | datetime d =>
        -- the one entry of a date is a string, and that is no table
        cases hv
        obtain ⟨ps, hps, -⟩ := hall _ (List.mem_singleton_self _)
        cases hps
      | _ => cases hv

/-! ## 2. What the options say -/

/-- A parameter's value has a text just if it is a scalar. -/
theorem isScalar_iff {v : Value} : IsScalar v ↔ ∃ text, Config.scalar? v = some text := by
  constructor
  · intro h
    cases h <;> exact ⟨_, rfl⟩
  · rintro ⟨text, h⟩
    cases v with
    | string s => exact .string s
    | boolean b => exact .boolean b
    | integer n => exact .integer n
    | float x => exact .float x
    | _ => cases h

/-- **What is said under a key**: what holds of the value that stands there, and what holds if there
is none. -/
def GivenBy (t : Table) (key : String) (given : Value → Prop) (usual : Prop) : Prop :=
  (∀ v, (key, v) ∈ t → given v) ∧ ((∀ v, (key, v) ∉ t) → usual)

/-- **A dictionary has the entries of a table**, each with what is read from its value. -/
def HasEntries (d : Dict String) (v : Value) (reads : Value → String → Prop) : Prop :=
  ∃ es, Config.table? v = some es ∧
    ∀ key text, d.get? key = some text ↔ ∃ v, (key, v) ∈ es ∧ reads v text

/-- The parameters that a table of them has under a name: the entries there as text, or none. -/
def ParamsSaid (v : Value) (name : String) (params : Option (Dict String)) : Prop :=
  ∃ es, Config.table? v = some es ∧ GivenBy es name
    (fun v => ∃ d, params = some d ∧ HasEntries d v fun v text => Config.scalar? v = some text)
    (params = none)

/-- **The options say what a table says**, and where it says nothing they are as always. -/
structure Says (t : Table) (o : Options) : Prop where
  dialect : GivenBy t "syntax"
    (fun v => ∃ s, v = .string s ∧ Text.lower s.toList = o.dialect.name.toList) (o.dialect = .html)
  defaultColorizer : GivenBy t "default_colorizer" (· = .string o.defaultColorizer)
    (o.defaultColorizer = "arborium")
  outsidePre : GivenBy t "outside_pre" (· = .boolean o.outsidePre) (o.outsidePre = false)
  timeout : GivenBy t "timeout_ms"
    (fun v => ∃ ms : Nat, v = .integer ms ∧ o.timeout = some (.ofMillis ms)) (o.timeout = none)
  searchPath : GivenBy t "search_path" (fun v => ∃ s, v = .string s ∧ o.searchPath = some s)
    (o.searchPath = none)
  colorizers : GivenBy t "colorizers"
    (fun v => HasEntries o.colorizers v fun v name => v = .string name) (o.colorizers = .empty)
  params : ∀ name, GivenBy t "params" (fun v => ParamsSaid v name (o.params.get? name))
    (o.params.get? name = none)
  paramsFor : ∀ c, GivenBy t "params" (fun v => ParamsSaid v c.name (o.paramsFor c))
    (o.paramsFor c = none)

section

variable {t : Table} {o : Options}

/-- **What is read under a key** says what is given by it. -/
theorem givenBy_of_read {α : Type} {key : String} {f : Value → Option α} {given : Value → Prop}
    {usual : Prop} (hkeys : HasKeys t) (hread : ∀ v, (key, v) ∈ t → ∃ a, f v = some a)
    (hsome : ∀ v a, (key, v) ∈ t → f v = some a → (t.lookup key).bind f = some a → given v)
    (hnone : (t.lookup key).bind f = none → usual) : GivenBy t key given usual := by
  refine ⟨fun v hv => ?_, fun hno => hnone ?_⟩
  · obtain ⟨a, ha⟩ := hread v hv
    refine hsome v a hv ha ?_
    rw [hkeys.lookup_eq_some_iff.mpr hv, Option.bind_some, ha]
  · rw [lookup_eq_none_iff.mpr hno, Option.bind_none]

/-- **The dictionary of the entries that are read** has the entries of the table. -/
theorem hasEntries_ofList {f : Value → Option String} {v : Value} {rs : List (String × String)}
    (hv : v.IsDistinct) (h : Config.entries? f v = some rs) :
    HasEntries (Dict.ofList rs) v fun v text => f v = some text := by
  obtain ⟨es, hes, -, hmem⟩ := Config.entries?_spec h
  refine ⟨es, hes, fun key text => ?_⟩
  rw [Dict.get?_ofList_eq_some_iff (hasKeys_of_entries? hv h), hmem]

theorem paramsSaid_ofList {v : Value} {rs : List (String × List (String × String))}
    (hv : v.IsDistinct) (h : Config.entries? (Config.entries? Config.scalar?) v = some rs)
    (name : String) : ParamsSaid v name (((Dict.ofList rs).map Dict.ofList).get? name) := by
  obtain ⟨es, hes, -, hmem⟩ := Config.entries?_spec h
  obtain ⟨hkeys, hall⟩ := isDistinct_table? hv hes
  have hget : ∀ ps, (Dict.ofList rs).get? name = some ps ↔
      ∃ v, (name, v) ∈ es ∧ Config.entries? Config.scalar? v = some ps := by
    intro ps
    rw [Dict.get?_ofList_eq_some_iff (hasKeys_of_entries? hv h), hmem]
  rw [Dict.get?_map]
  refine ⟨es, hes, fun v' hv' => ?_, fun hno => ?_⟩
  · have hread : ∃ ps, Config.entries? Config.scalar? v' = some ps := by
      obtain ⟨es', hes', hreads⟩ := Config.exists_entries?_iff.mp ⟨rs, h⟩
      rw [hes, Option.some.injEq] at hes'
      exact hreads (name, v') (hes' ▸ hv')
    obtain ⟨ps, hps⟩ := hread
    refine ⟨Dict.ofList ps, ?_, hasEntries_ofList (hall _ hv') hps⟩
    rw [(hget ps).mpr ⟨v', hv', hps⟩, Option.map_some]
  · have hnone : (Dict.ofList rs).get? name = none := by
      rw [Option.eq_none_iff_forall_ne_some]
      intro ps hps
      obtain ⟨v', hv', -⟩ := (hget ps).mp hps
      exact hno v' hv'
    rw [hnone, Option.map_none]

/-- **Options that come from a table say what it says.** -/
theorem says_of_gives (ht : (Value.table t).IsDistinct) (hfits : ∀ e ∈ t, Config.Fits e)
    (hgives : (Config.said t).Gives o) : Says t o := by
  obtain ⟨hdialect, hdefault, hcolorizers, hparams, houtside, hpath, htimeout⟩ := hgives
  obtain ⟨hkeys, hall⟩ := isDistinct_table? ht rfl
  have hput : ∀ {key v}, (key, v) ∈ t → ∃ c, ({} : Config).put? key v = some c := by
    intro key v hv
    obtain ⟨c, c', hputs⟩ := hfits _ hv
    obtain ⟨d, hd⟩ := hputs.anywhere {}
    exact ⟨d, Config.put?_eq_some_iff.mpr hd⟩
  have hread : ∀ {α : Type} {x : Option α} {g : α → Config} {c : Config}, x.map g = some c →
      ∃ a, x = some a := fun h => (Option.map_eq_some_iff.mp h).imp fun _ ha => ha.1
  have hparamsOf : ∀ name, GivenBy t "params" (fun v => ParamsSaid v name (o.params.get? name))
      (o.params.get? name = none) := by
    intro name
    refine givenBy_of_read hkeys (fun v hv => hread (hput hv).choose_spec)
      (fun v rs hv hrs hl => ?_) fun hl => ?_
    · rw [hparams, Config.said, hl]
      exact paramsSaid_ofList (hall _ hv) hrs name
    · rw [hparams, Config.said, hl]
      rfl
  constructor
  case params => exact hparamsOf
  case paramsFor => exact fun c => hparamsOf c.name
  case dialect =>
    refine givenBy_of_read hkeys (fun v hv => hread (hput hv).choose_spec)
      (fun v s _ hs hl => ?_) fun hl => ?_
    · rcases hdialect with ⟨hnone, -⟩ | ⟨s', hs', ho⟩
      · cases hl.symm.trans hnone
      · cases hl.symm.trans hs'
        exact ⟨s, Config.string?_eq_some.mp hs, Config.ofName?_eq_some_iff.mp ho⟩
    · rcases hdialect with ⟨-, ho⟩ | ⟨s, hs, -⟩
      · exact ho
      · cases hl.symm.trans hs
  case defaultColorizer =>
    refine givenBy_of_read hkeys (fun v hv => hread (hput hv).choose_spec)
      (fun v s _ hs hl => ?_) fun hl => ?_
    · rw [hdefault, Config.said, hl]
      exact Config.string?_eq_some.mp hs
    · rw [hdefault, Config.said, hl]
      rfl
  case outsidePre =>
    refine givenBy_of_read hkeys (fun v hv => hread (hput hv).choose_spec)
      (fun v b _ hb hl => ?_) fun hl => ?_
    · rw [houtside, Config.said, hl]
      exact Config.boolean?_eq_some.mp hb
    · rw [houtside, Config.said, hl]
      rfl
  case timeout =>
    refine givenBy_of_read hkeys (fun v hv => hread (hput hv).choose_spec)
      (fun v n _ hn hl => ?_) fun hl => ?_
    · rcases htimeout with ⟨hnone, -⟩ | ⟨ms, hms, -, ho⟩
      · cases hl.symm.trans hnone
      · cases hl.symm.trans hms
        exact ⟨n, Config.natural?_eq_some.mp hn, ho⟩
    · rcases htimeout with ⟨-, ho⟩ | ⟨ms, hms, -⟩
      · exact ho
      · cases hl.symm.trans hms
  case searchPath =>
    refine givenBy_of_read hkeys (fun v hv => hread (hput hv).choose_spec)
      (fun v s _ hs hl => ?_) fun hl => ?_
    · exact ⟨s, Config.string?_eq_some.mp hs, hpath.trans hl⟩
    · exact hpath.trans hl
  case colorizers =>
    refine givenBy_of_read hkeys (fun v hv => hread (hput hv).choose_spec)
      (fun v rs hv hrs hl => ?_) fun hl => ?_
    · obtain ⟨es, hes, hget⟩ := hasEntries_ofList (hall _ hv) hrs
      rw [hcolorizers, Config.said, hl]
      refine ⟨es, hes, fun key name => (hget key name).trans ?_⟩
      simp only [Config.string?_eq_some]
    · rw [hcolorizers, Config.said, hl]
      rfl

end

/-! ## 3. What is accepted -/

section

variable {t : Table} {o : Options}

/-- An entry of the schema can be put into a configuration. -/
theorem fits_of_isEntry {e : String × Value} (h : IsEntry Config.table? e) : Config.Fits e := by
  cases h with
  | dialect => exact ⟨{}, _, .dialect _⟩
  | defaultColorizer s => exact ⟨{}, _, .defaultColorizer s⟩
  | outsidePre b => exact ⟨{}, _, .outsidePre b⟩
  | timeout hn => exact ⟨{}, _, .timeout (by omega)⟩
  | searchPath s => exact ⟨{}, _, .searchPath s⟩
  | @colorizers v es hv hall =>
    have hread : ∃ rs, Config.entries? Config.string? v = some rs := by
      simp only [Config.exists_entries?_iff, Config.string?_eq_some]
      exact ⟨es, hv, hall⟩
    obtain ⟨rs, hrs⟩ := hread
    exact ⟨{}, _, .colorizers hrs⟩
  | @params v es hv hall =>
    have hread : ∃ rs, Config.entries? (Config.entries? Config.scalar?) v = some rs := by
      simp only [Config.exists_entries?_iff, ← isScalar_iff]
      exact ⟨es, hv, hall⟩
    obtain ⟨rs, hrs⟩ := hread
    exact ⟨{}, _, .params hrs⟩

/-- **What a configuration says gives options.** -/
theorem exists_gives_of_isConfig (hkeys : HasKeys t) (h : IsConfig Config.table? t) :
    ∃ o, (Config.said t).Gives o := by
  have hdialect : ∃ d, (Config.said t).dialect = none ∧ d = .html ∨
      ∃ s, (Config.said t).dialect = some s ∧ Markup.Dialect.ofName? s = some d := by
    cases hs : (Config.said t).dialect with
    | none => exact ⟨_, .inl ⟨rfl, rfl⟩⟩
    | some s =>
      obtain ⟨v, hv, hvs⟩ := Option.bind_eq_some_iff.mp hs
      rw [Config.string?_eq_some.mp hvs] at hv
      have hentry := h _ (hkeys.lookup_eq_some_iff.mp hv)
      obtain ⟨d, hd⟩ := isEntry_syntax_iff.mp hentry
      exact ⟨d, .inr ⟨s, rfl, Config.ofName?_eq_some_iff.mpr hd⟩⟩
  have htimeout : ∃ x : Option Duration, (Config.said t).timeoutMs = none ∧ x = none ∨
      ∃ ms, (Config.said t).timeoutMs = some ms ∧ ms ≠ 0 ∧ x = some (.ofMillis ms) := by
    cases hms : (Config.said t).timeoutMs with
    | none => exact ⟨_, .inl ⟨rfl, rfl⟩⟩
    | some ms =>
      obtain ⟨v, hv, hvs⟩ := Option.bind_eq_some_iff.mp hms
      rw [Config.natural?_eq_some.mp hvs] at hv
      have hentry := h _ (hkeys.lookup_eq_some_iff.mp hv)
      have hpos := isEntry_timeout_iff.mp hentry
      exact ⟨_, .inr ⟨ms, rfl, by omega, rfl⟩⟩
  obtain ⟨d, hd⟩ := hdialect
  obtain ⟨x, hx⟩ := htimeout
  let o : Options :=
    { dialect := d
      defaultColorizer := (Config.said t).defaultColorizer.getD Colorizer.builtin.name
      colorizers := Dict.ofList (Config.said t).colorizers
      params := (Dict.ofList (Config.said t).params).map Dict.ofList
      outsidePre := (Config.said t).outsidePre.getD false
      searchPath := (Config.said t).searchPath
      timeout := x }
  exact ⟨o, hd, rfl, rfl, rfl, rfl, rfl, hx⟩

/-- **An entry that can be put is of the schema**, if the table gives options: that says of the dialect
and the timeout what putting them leaves open. -/
theorem isEntry_of_gives (hkeys : HasKeys t) (hgives : (Config.said t).Gives o) {key : String}
    {v : Value} (hv : (key, v) ∈ t) (hfits : Config.Fits (key, v)) :
    IsEntry Config.table? (key, v) := by
  have hl := hkeys.lookup_eq_some_iff.mpr hv
  obtain ⟨c, c', hputs⟩ := hfits
  dsimp only at hputs
  cases hputs with
  | dialect s =>
    have hs : (Config.said t).dialect = some s := Option.bind_eq_some_iff.mpr ⟨_, hl, rfl⟩
    rcases hgives.dialect with ⟨hnone, -⟩ | ⟨s', hs', ho⟩
    · cases hs.symm.trans hnone
    · cases hs.symm.trans hs'
      exact .dialect (Config.ofName?_eq_some_iff.mp ho)
  | defaultColorizer s => exact .defaultColorizer s
  | outsidePre b => exact .outsidePre b
  | @timeout n hn =>
    have hms : (Config.said t).timeoutMs = some n.toNat :=
      Option.bind_eq_some_iff.mpr ⟨_, hl, if_pos hn⟩
    rcases hgives.timeout with ⟨hnone, -⟩ | ⟨ms, hms', hne, -⟩
    · cases hms.symm.trans hnone
    · cases hms.symm.trans hms'
      exact .timeout (by omega)
  | searchPath s => exact .searchPath s
  | colorizers hread =>
    obtain ⟨es, hes, hall⟩ := Config.exists_entries?_iff.mp ⟨_, hread⟩
    simp only [Config.string?_eq_some] at hall
    exact .colorizers hes hall
  | params hread =>
    obtain ⟨es, hes, hall⟩ := Config.exists_entries?_iff.mp ⟨_, hread⟩
    simp only [Config.exists_entries?_iff, ← isScalar_iff] at hall
    exact .params hes hall

/-- **A table is a configuration just if its entries can be put** and what they say gives options. -/
theorem isConfig_iff_gives (hkeys : HasKeys t) : IsConfig Config.table? t ↔
    (∀ e ∈ t, Config.Fits e) ∧ ∃ o, (Config.said t).Gives o := by
  constructor
  · intro h
    exact ⟨fun e he => fits_of_isEntry (h e he), exists_gives_of_isConfig hkeys h⟩
  · rintro ⟨hfits, o, hgives⟩ ⟨key, v⟩ hv
    exact isEntry_of_gives hkeys hgives hv (hfits _ hv)

end

/-- **What a configuration file is, and what it gives.**  A document gives options just if it has a
table, and all entries of that are of the schema as the reader has it.  That is the schema that takes
only tables for tables, unless the table is accepted with a date or a time that stands in for one.

The options say what the table says, and are as always where it says nothing.  Whatever is wrong with
a document is a fault of the configuration. -/
theorem ofToml_accepts_schema (source : List Char) :
    ((∃ o, Options.ofToml source = .ok o) ↔
        ∃ t, Toml.parse? source = some t ∧ IsConfig Config.table? t) ∧
      (∀ t, Toml.parse? source = some t →
        (((∃ o, Options.ofToml source = .ok o) ↔ IsConfig onlyTable? t) ↔
          ¬ (IsConfig Config.table? t ∧ HasStandIn t))) ∧
      (∀ o, Options.ofToml source = .ok o → ∃ t, Toml.parse? source = some t ∧ Says t o) ∧
      ∀ e, Options.ofToml source = .error e → e.kind = .configuration := by
  have hdistinct : ∀ {t}, Toml.parse? source = some t → (Value.table t).IsDistinct :=
    Toml.isDistinct_of_parse?
  have haccepts : (∃ o, Options.ofToml source = .ok o) ↔
      ∃ t, Toml.parse? source = some t ∧ IsConfig Config.table? t := by
    constructor
    · rintro ⟨o, ho⟩
      obtain ⟨c, hc, hgives⟩ := ofToml_eq_ok_iff.mp ho
      obtain ⟨t, ht, hfits, rfl⟩ := Config.ofSource_eq_ok_iff.mp hc
      have hkeys := (isDistinct_table? (hdistinct ht) rfl).1
      exact ⟨t, ht, (isConfig_iff_gives hkeys).mpr ⟨hfits, o, hgives⟩⟩
    · rintro ⟨t, ht, hconfig⟩
      have hkeys := (isDistinct_table? (hdistinct ht) rfl).1
      obtain ⟨hfits, o, hgives⟩ := (isConfig_iff_gives hkeys).mp hconfig
      exact ⟨o, ofToml_eq_ok_iff.mpr ⟨_, Config.ofSource_eq_ok_iff.mpr ⟨t, ht, hfits, rfl⟩, hgives⟩⟩
  refine ⟨haccepts, fun t ht => ?_, fun o ho => ?_, fun e he => kind_of_ofToml_eq_error he⟩
  · rw [haccepts, isConfig_onlyTable_iff]
    simp only [ht, Option.some.injEq, exists_eq_left']
    by_cases h : IsConfig Config.table? t <;> simp [h]
  · obtain ⟨c, hc, hgives⟩ := ofToml_eq_ok_iff.mp ho
    obtain ⟨t, ht, hfits, rfl⟩ := Config.ofSource_eq_ok_iff.mp hc
    exact ⟨t, ht, says_of_gives (hdistinct ht) hfits hgives⟩

/-- A document with a date where a table of strings belongs. -/
def dated : List Char := "colorizers = 1979-05-27".toList

/-- It has a table in which the date stands in for another. -/
theorem parse?_dated : ∃ t, Toml.parse? dated = some t ∧ HasStandIn t := by
  have hstands : ((Toml.parse? dated).map (·.any standsIn)) = some true := by decide +kernel
  obtain ⟨t, ht, hany⟩ := Option.map_eq_some_iff.mp hstands
  exact ⟨t, ht, hasStandIn_iff.mpr hany⟩

/-- The document is accepted, though its table is not of the schema that takes only tables for
tables. -/
theorem ofToml_accepts_schema_dated : ∃ t, Toml.parse? dated = some t ∧ IsConfig Config.table? t ∧
    ¬ ((∃ o, Options.ofToml dated = .ok o) ↔ IsConfig onlyTable? t) := by
  have hok : (Options.ofToml dated).isOk = true := by decide +kernel
  obtain ⟨t, ht, hstands⟩ := parse?_dated
  obtain ⟨haccepts, hdiffer, -⟩ := ofToml_accepts_schema dated
  have hsome : ∃ o, Options.ofToml dated = .ok o := by
    cases ho : Options.ofToml dated with
    | ok o => exact ⟨o, rfl⟩
    | error e =>
      rw [ho] at hok
      cases hok
  obtain ⟨t', ht', hconfig⟩ := haccepts.mp hsome
  rw [ht, Option.some.injEq] at ht'
  subst ht'
  exact ⟨t, ht, hconfig, fun h => (hdiffer t ht).mp h ⟨hconfig, hstands⟩⟩

/-- **A date is taken for a table**: the document gives options, in which a language that is called
after the reader's own key for dates goes to a colorizer that is called like the date. -/
theorem date_taken_for_table : ∃ t, Toml.parse? dated = some t ∧ ¬ IsConfig onlyTable? t ∧
    ∃ o, Options.ofToml dated = .ok o ∧
      o.colorizers.get? "$__toml_private_datetime" = some "1979-05-27" := by
  obtain ⟨t, ht, hstands⟩ := parse?_dated
  refine ⟨t, ht, fun h => (isConfig_onlyTable_iff.mp h).2 hstands, ?_⟩
  have hget : ((Options.ofToml dated).toOption.bind fun o =>
      o.colorizers.get? "$__toml_private_datetime") = some "1979-05-27" := by decide +kernel
  cases ho : Options.ofToml dated with
  | ok o =>
    rw [ho] at hget
    exact ⟨o, rfl, hget⟩
  | error e =>
    rw [ho] at hget
    cases hget

end CodeTint
