/-
# Flags over a file over what is usual

The options of a command come in layers: what its flags say, what its configuration file says, and
what is usual.  This file says of each option which layer it comes from (`options_layered`).

A **language** goes by five layers (`RoutesTo`), for a flag and the file may each name a colorizer for
it, and each may name one for languages without.  The override of a file wins over a default of the
flags.  So a flag that does not name a language moves it only by the default, and only if the file has
no override for it.

All other options are taken whole, from the first layer that has them; what is outside a `pre` is
colorized if any layer says so, and parameters and the search path have no flag.
-/
import CodeTint.Proofs.CommandLine
import CodeTint.Proofs.Options.Config
import CodeTint.Proofs.Text.Cut

namespace CodeTint.CommandLine

open CodeTint.Text

/-! ## 1. Layers -/

/-- **What the configuration file of a command says**; without a file it says nothing. -/
def Flags.Loads (f : Flags) (h : Host) (c : Config) : Prop :=
  match f.config with
  | none => c = {}
  | some p => ∃ bytes source, h.read? ⟨p⟩ = some bytes ∧ Utf8.decode? bytes = some source ∧
    Config.ofSource source = .ok c

/-- **Pieces of a list spell routes**: blank pieces do not count, and any other has a language in
front of its first equals sign and a colorizer behind it. -/
inductive SpellsRoutes : List (List Char) → List (String × String) → Prop where
  | nil : SpellsRoutes [] []
  | blank {piece : List Char} {pieces : List (List Char)} {routes : List (String × String)} :
      trim piece = [] → SpellsRoutes pieces routes → SpellsRoutes (piece :: pieces) routes
  | pair {piece left right : List Char} {pieces : List (List Char)}
      {routes : List (String × String)} : trim piece = left ++ '=' :: right → '=' ∉ left →
      trim left ≠ [] → SpellsRoutes pieces routes → SpellsRoutes (piece :: pieces)
        ((String.ofList (trim left), String.ofList (trim right)) :: routes)

/-- The routes that the flags add. -/
def Flags.Adds (f : Flags) (routes : List (String × String)) : Prop :=
  match f.colorizers with
  | none => routes = []
  | some list => SpellsRoutes (list.toList.splitOn ',') routes

/-- No route is for a language. -/
def Unnamed (routes : List (String × String)) (language : String) : Prop :=
  ∀ name, (language, name) ∉ routes

/-- **Where a language goes**, by the first layer that says it. -/
inductive RoutesTo (routes : List (String × String)) (flag : Option String) (c : Config)
    (language : String) : String → Prop where
  | route {front back : List (String × String)} {name : String} :
      routes = front ++ (language, name) :: back → Unnamed back language →
      RoutesTo routes flag c language name
  | override {name : String} : Unnamed routes language → (language, name) ∈ c.colorizers →
      RoutesTo routes flag c language name
  | defaultOfFlags {name : String} : Unnamed routes language → Unnamed c.colorizers language →
      flag = some name → RoutesTo routes flag c language name
  | defaultOfFile {name : String} : Unnamed routes language → Unnamed c.colorizers language →
      flag = none → c.defaultColorizer = some name → RoutesTo routes flag c language name
  | usual : Unnamed routes language → Unnamed c.colorizers language →
      flag = none → c.defaultColorizer = none → RoutesTo routes flag c language "arborium"

/-- **Options in layers**: the flags with their routes over what a file says, with the options `base`
of the file alone. -/
structure Layered (f : Flags) (routes : List (String × String)) (c : Config) (base o : Options) :
    Prop where
  routing : ∀ language, RoutesTo routes f.defaultColorizer c language (o.colorizerFor language)
  /-- The file has one override for a language at most. -/
  keys : HasKeys c.colorizers
  dialect : ∀ name, f.dialect.or c.dialect = some name →
    lower name.toList = o.dialect.name.toList
  usualDialect : f.dialect.or c.dialect = none → o.dialect = .html
  timeout : o.timeout = (f.timeoutMs.or c.timeoutMs).map .ofMillis
  outsidePre : o.outsidePre = true ↔ f.outsidePre = true ∨ c.outsidePre = some true
  params : o.params = base.params
  searchPath : o.searchPath = base.searchPath
  /-- A language with an override that no route is for is left where it was. -/
  untouched : ∀ language, Unnamed routes language → (∃ name, (language, name) ∈ c.colorizers) →
    o.colorizerFor language = base.colorizerFor language
  /-- One without an override is moved by the default of the flags only. -/
  moved : ∀ language, Unnamed routes language → Unnamed c.colorizers language →
    o.colorizerFor language = f.defaultColorizer.getD (base.colorizerFor language)

/-! ## 2. What is loaded and added -/

section

variable {f : Flags} {h : Host}

/-- A configuration that says nothing gives the usual options. -/
theorem gives_usual : ({} : Config).Gives {} :=
  ⟨.inl ⟨rfl, rfl⟩, rfl, rfl, rfl, rfl, rfl, .inl ⟨rfl, rfl⟩⟩

theorem exists_loads_of_configured {base : Options} (hbase : f.configured h = .ok base) :
    ∃ c, f.Loads h c ∧ c.Gives base := by
  unfold Flags.configured at hbase
  unfold Flags.Loads
  cases hconfig : f.config with
  | none =>
    rw [hconfig] at hbase
    cases hbase
    exact ⟨{}, rfl, gives_usual⟩
  | some p =>
    rw [hconfig] at hbase
    dsimp only at hbase
    split at hbase
    · cases hbase
    · next source hsource =>
      obtain ⟨bytes, hbytes, hdecode⟩ := Option.bind_eq_some_iff.mp hsource
      split at hbase
      · cases hbase
      · next o ho =>
        cases hbase
        obtain ⟨c, hc, hgives⟩ := ofToml_eq_ok_iff.mp ho
        exact ⟨c, ⟨bytes, source, hbytes, hdecode, hc⟩, hgives⟩

/-- **A file has one override for a language at most.** -/
theorem hasKeys_of_loads {c : Config} (hc : f.Loads h c) : HasKeys c.colorizers := by
  unfold Flags.Loads at hc
  split at hc
  · rw [hc]
    exact List.nodup_nil
  · obtain ⟨bytes, source, -, -, hc⟩ := hc
    obtain ⟨t, ht, -, rfl⟩ := Config.ofSource_eq_ok_iff.mp hc
    obtain ⟨hkeys, hall⟩ := isDistinct_table? (Toml.isDistinct_of_parse? ht) rfl
    cases hread : (t.lookup "colorizers").bind (Config.entries? Config.string?) with
    | none =>
      rw [Config.said, hread]
      exact List.nodup_nil
    | some rs =>
      obtain ⟨v, hv, hrs⟩ := Option.bind_eq_some_iff.mp hread
      rw [Config.said, hread]
      exact hasKeys_of_entries? (hall _ (mem_of_lookup hv)) hrs

/-- **A pair is cut at its first equals sign.** -/
theorem route?_eq_some_iff {pair : List Char} {r : String × String} : route? pair = some r ↔
    ∃ left right, pair = left ++ '=' :: right ∧ '=' ∉ left ∧ trim left ≠ [] ∧
      r = (String.ofList (trim left), String.ofList (trim right)) := by
  constructor
  · intro hr
    unfold route? at hr
    dsimp only at hr
    split at hr
    · next right hright =>
      -- a pair without a language is none
      split at hr
      · cases hr
      · next hne =>
        cases hr
        exact ⟨_, right, (eq_of_dropWhile hright).2, notMem_takeWhile _ _, hne, rfl⟩
    · cases hr
  · rintro ⟨left, right, rfl, hleft, hne, rfl⟩
    obtain ⟨hfront, hback⟩ := cut_append hleft right
    rw [route?, hfront, hback]
    exact if_neg hne

theorem spellsRoutes_of_mapM {pieces : List (List Char)} {routes : List (String × String)}
    (hroutes : ((pieces.map trim).filter fun pair => !pair.isEmpty).mapM route = .ok routes) :
    SpellsRoutes pieces routes := by
  induction pieces generalizing routes with
  | nil =>
    cases hroutes
    exact .nil
  | cons piece pieces ih =>
    rw [List.map_cons] at hroutes
    by_cases hblank : trim piece = []
    · rw [hblank, List.filter_cons_of_neg (by simp)] at hroutes
      exact .blank hblank (ih hroutes)
    · rw [List.filter_cons_of_pos (by simpa using hblank), List.mapM_cons, bind_eq_ok] at hroutes
      obtain ⟨r, hr, hroutes⟩ := hroutes
      obtain ⟨rs, hrs, hroutes⟩ := bind_eq_ok.mp hroutes
      cases hroutes
      obtain ⟨left, right, hpair, hleft, hne, rfl⟩ := route?_eq_some_iff.mp (route_eq_ok_iff.mp hr)
      exact .pair hpair hleft hne (ih hrs)

theorem adds_of_routes {routes : List (String × String)} (hroutes : f.routes = .ok routes) :
    f.Adds routes := by
  unfold Flags.routes at hroutes
  unfold Flags.Adds
  cases hlist : f.colorizers with
  | none =>
    rw [hlist] at hroutes
    cases hroutes
    rfl
  | some list =>
    rw [hlist] at hroutes
    exact spellsRoutes_of_mapM hroutes

end

/-! ## 3. Where a language goes -/

section

variable {routes : List (String × String)} {c : Config} {o : Options} {language : String}

/-- The last of the routes for a language, if there is one. -/
theorem lookup_reverse_cases (routes : List (String × String)) (language : String) :
    (∃ front name back, routes = front ++ (language, name) :: back ∧ Unnamed back language ∧
        routes.reverse.lookup language = some name) ∨
      Unnamed routes language ∧ routes.reverse.lookup language = none := by
  cases hl : routes.reverse.lookup language with
  | none =>
    refine .inr ⟨fun name hname => ?_, rfl⟩
    exact lookup_eq_none_iff.mp hl name (List.mem_reverse.mpr hname)
  | some name =>
    obtain ⟨back, front, hsplit, hback⟩ := List.lookup_eq_some_iff.mp hl
    refine .inl ⟨front.reverse, name, back.reverse, ?_, fun name' hname' => ?_, rfl⟩
    · rw [← List.reverse_reverse routes, hsplit]
      simp
    · simpa using hback _ (List.mem_reverse.mp hname')

/-- **The layers of a language.** -/
theorem routesTo_colorizerFor {flag : Option String} (hkeys : HasKeys c.colorizers)
    (hcolorizers : o.colorizers
      = routes.foldl (fun d r => d.insert r.1 r.2) (Dict.ofList c.colorizers))
    (hdefault : o.defaultColorizer
      = flag.getD (c.defaultColorizer.getD Colorizer.builtin.name)) (language : String) :
    RoutesTo routes flag c language (o.colorizerFor language) := by
  -- the routes are put in one after another, so the last one for a language is found first
  rw [Options.colorizerFor, hcolorizers, Dict.get?_fill, hdefault]
  rcases lookup_reverse_cases routes language with
    ⟨front, name, back, hroutes, hback, hl⟩ | ⟨hunnamed, hl⟩
  · rw [hl]
    exact .route hroutes hback
  · rw [hl, Option.none_or]
    cases hget : (Dict.ofList c.colorizers).get? language with
    | some name =>
      exact .override hunnamed ((Dict.get?_ofList_eq_some_iff hkeys).mp hget)
    | none =>
      have hno : Unnamed c.colorizers language := by
        intro name hname
        rw [(Dict.get?_ofList_eq_some_iff hkeys).mpr hname] at hget
        cases hget
      cases flag with
      | some name => exact .defaultOfFlags hunnamed hno rfl
      | none =>
        cases hc : c.defaultColorizer with
        | some name => exact .defaultOfFile hunnamed hno rfl hc
        | none => exact .usual hunnamed hno rfl hc

/-- A language that no route is for goes by what was there, or by the default. -/
theorem colorizerFor_of_unnamed {d : Dict String} (hunnamed : Unnamed routes language)
    (hcolorizers : o.colorizers = routes.foldl (fun d r => d.insert r.1 r.2) d) :
    o.colorizerFor language = (d.get? language).getD o.defaultColorizer := by
  have hl : routes.reverse.lookup language = none := by
    rw [lookup_eq_none_iff]
    exact fun name hname => hunnamed name (List.mem_reverse.mp hname)
  rw [Options.colorizerFor, hcolorizers, Dict.get?_fill, hl, Option.none_or]

end

/-! ## 4. All options -/

section

variable {f : Flags} {c : Config} {base : Options}

theorem dialectOver_layers {d : Markup.Dialect} (hgives : c.Gives base)
    (hd : f.dialectOver base = .ok d) :
    (∀ name, f.dialect.or c.dialect = some name → lower name.toList = d.name.toList) ∧
      (f.dialect.or c.dialect = none → d = .html) := by
  unfold Flags.dialectOver at hd
  cases hflag : f.dialect with
  | some name =>
    rw [hflag] at hd
    dsimp only at hd
    cases hname : Config.dialectOf name with
    | error e =>
      rw [hname] at hd
      cases hd
    | ok d' =>
      rw [hname] at hd
      cases hd
      refine ⟨fun name' hname' => ?_, fun hnone => nomatch hnone⟩
      cases hname'
      exact Config.ofName?_eq_some_iff.mp (Config.dialectOf_eq_ok_iff.mp hname)
  | none =>
    rw [hflag] at hd
    cases hd
    rw [Option.none_or]
    rcases hgives.dialect with ⟨hnone, hbase⟩ | ⟨s, hs, hbase⟩
    · rw [hnone]
      exact ⟨fun _ h => (nomatch h), fun _ => hbase⟩
    · rw [hs]
      refine ⟨fun name hname => ?_, fun hnone => nomatch hnone⟩
      cases hname
      exact Config.ofName?_eq_some_iff.mp hbase

theorem timeoutOver_layers {t : Option Duration} (hgives : c.Gives base)
    (ht : f.timeoutOver base = .ok t) : t = (f.timeoutMs.or c.timeoutMs).map .ofMillis := by
  unfold Flags.timeoutOver at ht
  rcases hflag : f.timeoutMs with _ | _ | ms
  · rw [hflag] at ht
    cases ht
    rw [Option.none_or]
    rcases hgives.timeout with ⟨hnone, hbase⟩ | ⟨ms, hms, -, hbase⟩
    · rw [hnone, hbase]
      rfl
    · rw [hms, hbase]
      rfl
  · rw [hflag] at ht
    cases ht
  · rw [hflag] at ht
    cases ht
    rfl

end

/-- **The layers of the options.**  Let the flags be good, with the configuration file that they name.
Then there are options, and a language goes by the last pair of the list for it, else by the override of
the file, else by the default of the flags, else by that of the file, else to `arborium`.

Dialect and timeout are those of the flags, else those of the file, else as always; what is outside a
`pre` is colorized just if the flags or the file say so; parameters and search path are the file's.  A
language that the list does not name is only moved by the default of the flags, and only if it has no
override. -/
theorem options_layered {f : Flags} {h : Host} (hgood : f.IsGood h) : ∃ c routes base o,
    f.Loads h c ∧ f.Adds routes ∧ f.configured h = .ok base ∧ f.options h = .ok o ∧
      Layered f routes c base o := by
  obtain ⟨o, ho⟩ := exists_options_iff.mpr hgood
  obtain ⟨base, dialect, routes, timeout, hbase, hdialect, hroutes, htimeout, hparts⟩ :=
    options_eq_ok.mp ho
  obtain ⟨c, hc, hgives⟩ := exists_loads_of_configured hbase
  have hkeys := hasKeys_of_loads hc
  have hcolorizers : o.colorizers
      = routes.foldl (fun d r => d.insert r.1 r.2) base.colorizers := by rw [← hparts]
  have hdefault : o.defaultColorizer = f.defaultColorizer.getD base.defaultColorizer := by
    rw [← hparts]
  refine ⟨c, routes, base, o, hc, adds_of_routes hroutes, hbase, ho, ?_⟩
  constructor
  case routing =>
    rw [hgives.colorizers] at hcolorizers
    rw [hgives.defaultColorizer] at hdefault
    exact routesTo_colorizerFor hkeys hcolorizers hdefault
  case keys => exact hkeys
  case dialect =>
    rw [← hparts]
    exact (dialectOver_layers hgives hdialect).1
  case usualDialect =>
    rw [← hparts]
    exact (dialectOver_layers hgives hdialect).2
  case timeout =>
    rw [← hparts]
    exact timeoutOver_layers hgives htimeout
  case outsidePre =>
    rw [← hparts, hgives.outsidePre]
    cases c.outsidePre <;> simp [or_comm]
  case params => rw [← hparts]
  case searchPath => rw [← hparts]
  case untouched =>
    rintro language hunnamed ⟨name, hname⟩
    rw [← Dict.get?_ofList_eq_some_iff hkeys, ← hgives.colorizers] at hname
    rw [colorizerFor_of_unnamed hunnamed hcolorizers, Options.colorizerFor, hname]
    rfl
  case moved =>
    intro language hunnamed hno
    have hget : base.colorizers.get? language = none := by
      rw [hgives.colorizers, Option.eq_none_iff_forall_ne_some]
      exact fun name hname => hno name ((Dict.get?_ofList_eq_some_iff hkeys).mp hname)
    rw [colorizerFor_of_unnamed hunnamed hcolorizers, Options.colorizerFor, hget, hdefault]
    rfl

/-- A machine with a configuration file. -/
def office : Host :=
  ⟨.dir [("conf.toml", .file (Utf8.encode ("default_colorizer = 'vim'\ntimeout_ms = 9\n" ++
    "[colorizers]\nlua = 'pygmentize'\nperl = 'vim'").toList) false)], [], none⟩

/-- Flags with a route for a language that is named twice. -/
def pressed : Flags where
  config := some "conf.toml"
  dialect := some "XML"
  defaultColorizer := some "highlight"
  colorizers := some "perl=vim, ,perl = arborium"

/-- The route that comes last wins, an override wins over the default of the flags, and that wins over
the default of the file. -/
theorem options_layered_office : pressed.IsGood office ∧ ∃ c routes base o,
    pressed.Loads office c ∧ pressed.Adds routes ∧ pressed.configured office = .ok base ∧
      Layered pressed routes c base o ∧ o.colorizerFor "perl" = "arborium" ∧
      o.colorizerFor "lua" = "pygmentize" ∧ o.colorizerFor "ruby" = "highlight" ∧
      base.colorizerFor "ruby" = "vim" ∧ o.dialect = .xml ∧ o.timeout = some (.ofMillis 9) := by
  have hgood : pressed.IsGood office := by
    rw [← exists_options_iff]
    cases ho : pressed.options office with
    | ok o => exact ⟨o, rfl⟩
    | error e =>
      have hok : (pressed.options office).isOk = true := by decide +kernel
      rw [ho] at hok
      cases hok
  obtain ⟨c, routes, base, o, hc, hroutes, hbase, ho, hlayers⟩ := options_layered hgood
  have hsays : (pressed.options office).toOption.map (fun o => (o.colorizerFor "perl",
      o.colorizerFor "lua", o.colorizerFor "ruby", o.dialect, o.timeout))
        = some ("arborium", "pygmentize", "highlight", .xml, some (.ofMillis 9)) := by
    decide +kernel
  have hfile : (pressed.configured office).toOption.map (·.colorizerFor "ruby") = some "vim" := by
    decide +kernel
  rw [ho] at hsays
  rw [hbase] at hfile
  obtain ⟨hperl, hlua, hruby, hdialect, htimeout⟩ := by simpa [Except.toOption] using hsays
  exact ⟨hgood, c, routes, base, o, hc, hroutes, hbase, hlayers, hperl, hlua, hruby,
    Option.some.inj hfile, hdialect, htimeout⟩

end CodeTint.CommandLine
