/-
# What the exit code of a command tells

A command can go wrong in many places: a configuration file that cannot be read, a flag that is no
good, a text that is not well-formed, a tool that fails, a path that leads nowhere.  This file proves
that **the exit code is zero just if none of that happened**, with one exception, and what a command
that went wrong leaves (`exit_code_tells`).

* A command that reads its input writes at one point only, after all that can go wrong but the
  writing itself (`carryOut_of_colorizes`).  So it delivers the whole document, or it leaves the machine
  as it was.  The exception is a last line that the output does not take when the program has ended
  (`lost_line_unnoticed`).
* A command with a path writes as it goes.  Its exit code is about all documents at once
  (`Batch.run_success_iff`), but each of them goes well or not by itself (`Batch.noneFails_iff`).
  It touches nothing if its options are no good or its input is missing.
-/
import CodeTint.CommandLine
import CodeTint.Proofs.Batch.Success
import CodeTint.Proofs.Host.Outlet

namespace CodeTint.CommandLine

open CodeTint.Text

/-! ## 1. Options -/

/-- **The flags are good**, with the configuration file that they name as it is on a machine. -/
structure Flags.IsGood (f : Flags) (h : Host) : Prop where
  /-- The configuration file can be read, is a text, and gives options. -/
  config : ∀ p, f.config = some p → ∃ bytes source o, h.read? ⟨p⟩ = some bytes ∧
    Utf8.decode? bytes = some source ∧ Options.ofToml source = .ok o
  /-- The dialect is one that there is. -/
  dialect : ∀ name, f.dialect = some name → ∃ d, Markup.Dialect.ofName? name = some d
  /-- Every pair of the list that is not blank names a language and a colorizer. -/
  colorizers : ∀ list, f.colorizers = some list → ∀ pair ∈ list.toList.splitOn ',',
    trim pair ≠ [] → ∃ r, route? (trim pair) = some r
  /-- The timeout is not zero. -/
  timeout : f.timeoutMs ≠ some 0

/-- The dialect that a command writes, with options `o` from its file. -/
def Flags.dialectOver (f : Flags) (o : Options) : Except Refusal Markup.Dialect :=
  match f.dialect with
  | none => .ok o.dialect
  | some name => (Config.dialectOf name).mapError Refusal.ofError

/-- The routes that a command adds. -/
def Flags.routes (f : Flags) : Except Refusal (List (String × String)) :=
  match f.colorizers with
  | none => .ok []
  | some list => parseRoutes list.toList

/-- The timeout that a command sets, with options `o` from its file. -/
def Flags.timeoutOver (f : Flags) (o : Options) : Except Refusal (Option Duration) :=
  match f.timeoutMs with
  | none => .ok o.timeout
  | some 0 => .error ⟨"--timeout-ms must be positive", none⟩
  | some ms => .ok (some (.ofMillis ms))

theorem bind_eq_ok {ε α β : Type} {x : Except ε α} {k : α → Except ε β} {b : β} :
    (x >>= k) = .ok b ↔ ∃ a, x = .ok a ∧ k a = .ok b := by
  constructor
  · intro h
    cases x with
    | error e => cases h
    | ok a => exact ⟨a, rfl, h⟩
  · rintro ⟨a, rfl, h⟩
    exact h

/-- **The options of a command, part by part**: a flag wins over the file. -/
theorem options_eq_ok {f : Flags} {h : Host} {o : Options} : f.options h = .ok o ↔
    ∃ base dialect routes timeout, f.configured h = .ok base ∧ f.dialectOver base = .ok dialect ∧
      f.routes = .ok routes ∧ f.timeoutOver base = .ok timeout ∧
      { base with
        dialect
        defaultColorizer := f.defaultColorizer.getD base.defaultColorizer
        colorizers := routes.foldl (fun d r => d.insert r.1 r.2) base.colorizers
        outsidePre := base.outsidePre || f.outsidePre
        timeout } = o := by
  have hparts : f.options h = f.configured h >>= fun base => f.dialectOver base >>= fun dialect =>
      f.routes >>= fun routes => f.timeoutOver base >>= fun timeout => .ok
        { base with
          dialect
          defaultColorizer := f.defaultColorizer.getD base.defaultColorizer
          colorizers := routes.foldl (fun d r => d.insert r.1 r.2) base.colorizers
          outsidePre := base.outsidePre || f.outsidePre
          timeout } := by
    unfold Flags.options Flags.dialectOver Flags.routes Flags.timeoutOver
    cases f.dialect <;> cases f.colorizers <;> rcases f.timeoutMs with _ | _ | n <;> rfl
  rw [hparts]
  simp only [bind_eq_ok, Except.ok.injEq, exists_and_left]

theorem exists_configured_iff {f : Flags} {h : Host} : (∃ o, f.configured h = .ok o) ↔
    ∀ p, f.config = some p → ∃ bytes source o, h.read? ⟨p⟩ = some bytes ∧
      Utf8.decode? bytes = some source ∧ Options.ofToml source = .ok o := by
  unfold Flags.configured
  cases f.config with
  | none => simp
  | some p =>
    simp only [Option.some.injEq, forall_eq']
    constructor
    · rintro ⟨o, ho⟩
      split at ho
      · cases ho
      · next source hsource =>
        obtain ⟨bytes, hr, hd⟩ := Option.bind_eq_some_iff.mp hsource
        split at ho
        · cases ho
        · next o' ho' => exact ⟨bytes, source, o', hr, hd, ho'⟩
    · rintro ⟨bytes, source, o, hr, hd, ho⟩
      exact ⟨o, by simp only [hr, Option.bind_some, hd, ho]⟩

theorem exists_dialectOver_iff {f : Flags} {o : Options} : (∃ d, f.dialectOver o = .ok d) ↔
    ∀ name, f.dialect = some name → ∃ d, Markup.Dialect.ofName? name = some d := by
  unfold Flags.dialectOver
  cases f.dialect with
  | none => simp
  | some name =>
    unfold Config.dialectOf
    cases hname : Markup.Dialect.ofName? name <;> simp [Except.mapError, hname]

theorem route_eq_ok_iff {pair : List Char} {r : String × String} :
    route pair = .ok r ↔ route? pair = some r := by
  unfold route
  cases route? pair <;> simp

/-- A list of pairs is good if each pair is. -/
theorem exists_mapM_route_iff {pairs : List (List Char)} :
    (∃ rs, pairs.mapM route = .ok rs) ↔ ∀ pair ∈ pairs, ∃ r, route? pair = some r := by
  induction pairs with
  | nil => exact ⟨fun _ _ h => absurd h List.not_mem_nil, fun _ => ⟨[], rfl⟩⟩
  | cons pair pairs ih =>
    rw [List.forall_mem_cons]
    simp only [List.mapM_cons, bind_eq_ok, route_eq_ok_iff]
    constructor
    · rintro ⟨rs, r, hr, rs', hrs, -⟩
      exact ⟨⟨r, hr⟩, ih.mp ⟨rs', hrs⟩⟩
    · rintro ⟨⟨r, hr⟩, hpairs⟩
      obtain ⟨rs, hrs⟩ := ih.mpr hpairs
      exact ⟨r :: rs, r, hr, rs, hrs, rfl⟩

theorem exists_routes_iff {f : Flags} : (∃ rs, f.routes = .ok rs) ↔
    ∀ list, f.colorizers = some list → ∀ pair ∈ list.toList.splitOn ',',
      trim pair ≠ [] → ∃ r, route? (trim pair) = some r := by
  unfold Flags.routes
  cases f.colorizers with
  | none => simp
  | some list =>
    simp only [Option.some.injEq, forall_eq']
    unfold parseRoutes
    rw [exists_mapM_route_iff]
    simp only [List.mem_filter, List.mem_map, Bool.not_eq_true', List.isEmpty_eq_false_iff]
    constructor
    · intro hall pair hp hne
      exact hall _ ⟨⟨pair, hp, rfl⟩, hne⟩
    · rintro hall - ⟨⟨pair, hp, rfl⟩, hne⟩
      exact hall pair hp hne

theorem exists_timeoutOver_iff {f : Flags} {o : Options} :
    (∃ t, f.timeoutOver o = .ok t) ↔ f.timeoutMs ≠ some 0 := by
  unfold Flags.timeoutOver
  rcases f.timeoutMs with _ | _ | ms <;> simp

/-- **A command has options just if its flags are good.** -/
theorem exists_options_iff {f : Flags} {h : Host} : (∃ o, f.options h = .ok o) ↔ f.IsGood h := by
  simp only [options_eq_ok]
  constructor
  · rintro ⟨o, base, dialect, routes, timeout, hbase, hdialect, hroutes, htimeout, -⟩
    exact ⟨exists_configured_iff.mp ⟨base, hbase⟩, exists_dialectOver_iff.mp ⟨dialect, hdialect⟩,
      exists_routes_iff.mp ⟨routes, hroutes⟩, exists_timeoutOver_iff.mp ⟨timeout, htimeout⟩⟩
  · intro hgood
    obtain ⟨base, hbase⟩ := exists_configured_iff.mpr hgood.config
    obtain ⟨dialect, hdialect⟩ := (exists_dialectOver_iff (o := base)).mpr hgood.dialect
    obtain ⟨routes, hroutes⟩ := exists_routes_iff.mpr hgood.colorizers
    obtain ⟨timeout, htimeout⟩ := (exists_timeoutOver_iff (o := base)).mpr hgood.timeout
    exact ⟨_, base, dialect, routes, timeout, hbase, hdialect, hroutes, htimeout, rfl⟩

/-! ## 2. Where a document goes -/

/-- **The bytes can be written** where a command is to write them: all of them get out, or it is a file
that can be written. -/
def CanWrite (outlet : Outlet) (h : Host) (output : Option String) (bytes : List UInt8) : Prop :=
  match output with
  | none => (outlet.print bytes).1 = bytes
  | some p => if isOutput ⟨p⟩ then (outlet.write [] bytes).1 = bytes else h.IsWritable ⟨p⟩

/-- **The last line is lost** of what a command prints. -/
def LosesLine (outlet : Outlet) (output : Option String) (bytes : List UInt8) : Prop :=
  output = none ∧ outlet.LosesLastLine bytes

/-- **A document is delivered**: to the output, or to a file, and then there is no output, and nothing
but that file changes. -/
def Outcome.Delivers (out : Outcome) (h : Host) (output : Option String)
    (c : Document.Colorized) : Prop :=
  match output with
  | none => out = ⟨0, Utf8.encode c.html, h⟩
  | some p =>
    if isOutput ⟨p⟩ then out = ⟨0, Utf8.encode c.html, h⟩
    else ∃ h' u, out = ⟨0, [], h'⟩ ∧ h'.read? ⟨p⟩ = some (Utf8.encode c.html) ∧
      h.place? ⟨p⟩ = some u ∧ h.SameBut (· = u) h'

section

variable {outlet : Outlet} {h : Host} {output : Option String} {bytes : List UInt8}
  {c : Document.Colorized}

theorem Outcome.Delivers.code {out : Outcome} (hd : out.Delivers h output c) : out.code = 0 := by
  unfold Delivers at hd
  split at hd
  · rw [hd]
  · split at hd
    · rw [hd]
    · obtain ⟨h', u, rfl, -⟩ := hd
      rfl

/-- What can be written does not lose its last line. -/
theorem LosesLine.not_canWrite (hl : LosesLine outlet output bytes) :
    ¬ CanWrite outlet h output bytes := by
  obtain ⟨rfl, hlost⟩ := hl
  exact hlost.print_ne

/-- **What can be written is delivered.** -/
theorem deliver_of_canWrite (hw : CanWrite outlet h output (Utf8.encode c.html)) :
    (deliver outlet h output (Utf8.encode c.html)).Delivers h output c := by
  unfold CanWrite at hw
  unfold deliver Outcome.Delivers
  split at hw
  · have htold := Outlet.print_snd_iff.mpr (.inl hw)
    dsimp only
    rw [Outcome.put, hw, htold]
    rfl
  · next p =>
    dsimp only
    split at hw
    · next hout =>
      have htold := Outlet.write_snd_iff.mpr hw
      rw [if_pos hout, if_pos hout, Outcome.put, hw, htold]
      rfl
    · next hfile =>
      rw [if_neg hfile, if_neg hfile]
      obtain ⟨h', hw⟩ := Host.exists_write?_iff.mpr hw
      obtain ⟨u, hu, -⟩ := Host.write?_setsFile hw
      rw [hw]
      exact ⟨h', u, rfl, (Host.write?_spec hw).1, hu, .of_write? hu rfl hw⟩

/-- **If the last line is lost**, nobody is told: the exit code is zero. -/
theorem deliver_of_losesLine (hl : LosesLine outlet output bytes) :
    let out := deliver outlet h output bytes
    out.code = 0 ∧ out.host = h ∧ out.written <+: bytes ∧ out.written ≠ bytes := by
  obtain ⟨rfl, hlost⟩ := hl
  have htold := Outlet.print_snd_iff.mpr (.inr hlost)
  refine ⟨?_, rfl, Outlet.fst_print_isPrefix outlet bytes, hlost.print_ne⟩
  show (if (outlet.print bytes).2 = true then 0 else 1) = 0
  rw [if_pos htold]

/-- **What cannot be written** and is not lost makes a command fail, and the machine stays as it
was. -/
theorem deliver_of_not (hw : ¬ CanWrite outlet h output bytes)
    (hl : ¬ LosesLine outlet output bytes) :
    let out := deliver outlet h output bytes
    out.code = 1 ∧ out.host = h ∧ out.written <+: bytes ∧
      (out.written = [] ∨ ∀ p, output = some p → isOutput ⟨p⟩ = true) := by
  unfold CanWrite at hw
  unfold deliver
  split at hw
  · have htold : ¬ (outlet.print bytes).2 = true :=
      fun htold => (Outlet.print_snd_iff.mp htold).elim hw fun hlost => hl ⟨rfl, hlost⟩
    dsimp only
    refine ⟨?_, rfl, Outlet.fst_print_isPrefix outlet bytes, .inr fun p hp => by cases hp⟩
    rw [Outcome.put, if_neg htold]
  · next p =>
    dsimp only
    split at hw
    · next hout =>
      have htold : ¬ (outlet.write [] bytes).2 = true :=
        fun htold => hw (Outlet.write_snd_iff.mp htold)
      rw [if_pos hout]
      refine ⟨?_, rfl, Outlet.fst_write_isPrefix outlet [] bytes, .inr fun q hq => ?_⟩
      · rw [Outcome.put, if_neg htold]
      · cases hq
        exact hout
    · next hfile =>
      rw [if_neg hfile]
      split
      · next h' hw' => exact absurd (Host.exists_write?_iff.mp ⟨h', hw'⟩) hw
      · exact ⟨rfl, rfl, List.nil_prefix, .inl rfl⟩

/-- **The exit code is zero** just if all can be written or the last line is lost. -/
theorem deliver_code_iff : (deliver outlet h output (Utf8.encode c.html)).code = 0 ↔
    CanWrite outlet h output (Utf8.encode c.html) ∨
      LosesLine outlet output (Utf8.encode c.html) := by
  constructor
  · intro hcode
    by_contra hno
    obtain ⟨hw, hl⟩ := not_or.mp hno
    cases hcode.symm.trans (deliver_of_not hw hl).1
  · rintro (hw | hl)
    · exact (deliver_of_canWrite hw).code
    · exact (deliver_of_losesLine hl).1

end

/-! ## 3. Commands that read their input -/

section

variable [Highlight.Library] [Programs]

/-- **The document on the input is colorized** to `c`. -/
def Flags.Colorizes (f : Flags) (h : Host) (stdin : List UInt8) (c : Document.Colorized) : Prop :=
  ∃ o doc, f.options h = .ok o ∧ Utf8.decode? stdin = some doc ∧ colorizeOnce h o doc = .ok c

/-- **What a command does that reads its input.** -/
structure Filters (outlet : Outlet) (f : Flags) (h : Host) (stdin : List UInt8) (out : Outcome) :
    Prop where
  /-- The exit code is zero just if the flags are good, the input is a text that can be colorized, and
  what comes of it can be written or its last line is lost. -/
  code : out.code = 0 ↔ ∃ c, f.Colorizes h stdin c ∧
    (CanWrite outlet h f.output (Utf8.encode c.html) ∨
      LosesLine outlet f.output (Utf8.encode c.html))
  /-- So it tells whether all went well just if no last line is lost. -/
  tells : (out.code = 0 ↔
      ∃ c, f.Colorizes h stdin c ∧ CanWrite outlet h f.output (Utf8.encode c.html)) ↔
    ∀ c, f.Colorizes h stdin c → ¬ LosesLine outlet f.output (Utf8.encode c.html)
  /-- What can be written is delivered. -/
  delivers : ∀ c, f.Colorizes h stdin c → CanWrite outlet h f.output (Utf8.encode c.html) →
    out.Delivers h f.output c
  /-- If the last line is lost, not all gets out. -/
  loses : ∀ c, f.Colorizes h stdin c → LosesLine outlet f.output (Utf8.encode c.html) →
    out.host = h ∧ out.written <+: Utf8.encode c.html ∧ out.written ≠ Utf8.encode c.html
  /-- A command that fails before it writes puts out nothing and changes nothing. -/
  stops : (∀ c, ¬ f.Colorizes h stdin c) → out = .failed h
  /-- One that fails in writing changes no file, and puts out something only if it is to. -/
  fails : out.code ≠ 0 → out.code = 1 ∧ out.host = h ∧
    (out.written = [] ∨ ∀ p, f.output = some p → isOutput ⟨p⟩ = true)

section

variable {outlet : Outlet} {f : Flags} {h : Host} {stdin : List UInt8} {o : Options}

/-- There is one outcome at most. -/
theorem Flags.Colorizes.eq {c c' : Document.Colorized} (hc : f.Colorizes h stdin c)
    (hc' : f.Colorizes h stdin c') : c = c' := by
  obtain ⟨o, doc, ho, hd, hc⟩ := hc
  obtain ⟨o', doc', ho', hd', hc'⟩ := hc'
  cases ho.symm.trans ho'
  cases hd.symm.trans hd'
  exact Except.ok.inj (hc.symm.trans hc')

theorem carryOut_of_error {e : Refusal} (ho : f.options h = .error e) :
    carryOut outlet h f stdin = .failed h := by
  simp only [carryOut, ho]

theorem carryOut_of_input (ho : f.options h = .ok o)
    (hinput : f.input = none ∨ f.input = some "-") :
    carryOut outlet h f stdin = filter outlet h o f.output stdin := by
  rcases hinput with hinput | hinput <;> simp only [carryOut, ho, hinput]

/-- **A command that reads its input writes at one point only**, after all that can go wrong but the
writing itself. -/
theorem carryOut_of_colorizes {c : Document.Colorized} (hc : f.Colorizes h stdin c)
    (hinput : f.input = none ∨ f.input = some "-") :
    carryOut outlet h f stdin = deliver outlet h f.output (Utf8.encode c.html) := by
  obtain ⟨o, doc, ho, hd, hc⟩ := hc
  rw [carryOut_of_input ho hinput]
  simp only [filter, hd, hc]

theorem carryOut_of_not (hno : ∀ c, ¬ f.Colorizes h stdin c)
    (hinput : f.input = none ∨ f.input = some "-") : carryOut outlet h f stdin = .failed h := by
  cases ho : f.options h with
  | error e => exact carryOut_of_error ho
  | ok o =>
    rw [carryOut_of_input ho hinput, filter]
    split
    · rfl
    · next doc hd =>
      split
      · rfl
      · next c hc => exact absurd ⟨o, doc, ho, hd, hc⟩ (hno c)

theorem filters_carryOut (outlet : Outlet) (stdin : List UInt8)
    (hinput : f.input = none ∨ f.input = some "-") :
    Filters outlet f h stdin (carryOut outlet h f stdin) := by
  by_cases hcolor : ∃ c, f.Colorizes h stdin c
  · obtain ⟨c, hc⟩ := hcolor
    -- there is no other outcome, so all is about this one
    have hone : ∀ {P : Document.Colorized → Prop}, (∃ c', f.Colorizes h stdin c' ∧ P c') ↔ P c :=
      ⟨fun ⟨c', hc', hp⟩ => hc.eq hc' ▸ hp, fun hp => ⟨c, hc, hp⟩⟩
    have hall : ∀ {P : Document.Colorized → Prop}, (∀ c', f.Colorizes h stdin c' → P c') ↔ P c :=
      ⟨fun hp => hp c hc, fun hp c' hc' => hc.eq hc' ▸ hp⟩
    have hcode : (deliver outlet h f.output (Utf8.encode c.html)).code = 0 ↔ _ := deliver_code_iff
    rw [carryOut_of_colorizes hc hinput]
    exact
      { code := by rw [hone, hcode]
        tells := by
          rw [hone, hall, hcode, or_iff_left_iff_imp]
          exact ⟨fun himp hl => hl.not_canWrite (himp hl), fun hno hl => absurd hl hno⟩
        delivers := hall.mpr deliver_of_canWrite
        loses := hall.mpr fun hl => (deliver_of_losesLine hl).2
        stops := fun hno => absurd hc (hno c)
        fails := fun hfail => by
          obtain ⟨hw, hl⟩ := not_or.mp (mt hcode.mpr hfail)
          obtain ⟨hexit, hhost, -, hout⟩ := deliver_of_not hw hl
          exact ⟨hexit, hhost, hout⟩ }
  · have hno : ∀ c, ¬ f.Colorizes h stdin c := fun c hc => hcolor ⟨c, hc⟩
    rw [carryOut_of_not hno hinput]
    have hfail : ∀ {P : Document.Colorized → Prop},
        (Outcome.failed h).code = 0 ↔ ∃ c, f.Colorizes h stdin c ∧ P c :=
      iff_of_false Nat.one_ne_zero fun ⟨c, hc, _⟩ => hno c hc
    exact ⟨hfail, iff_of_true hfail fun c hc => absurd hc (hno c),
      fun c hc => absurd hc (hno c), fun c hc => absurd hc (hno c), fun _ => rfl,
      fun _ => ⟨rfl, rfl, .inl rfl⟩⟩

end

/-! ## 4. Commands with a path -/

/-- The job of a command. -/
def Flags.job (f : Flags) (input : String) (o : Options) : Batch.Job :=
  ⟨⟨input⟩, f.output.map Path.mk, o⟩

/-- **What a command does that has a path.** -/
structure Processes (f : Flags) (h : Host) (input : String) (out : Outcome) : Prop where
  /-- The exit code is zero just if the flags are good, the input is there, the preparation goes
  well, and of the documents that are prepared none fails. -/
  code : out.code = 0 ↔ h.exists? ⟨input⟩ = true ∧ ∃ o h₁ files,
    f.options h = .ok o ∧ (f.job input o).prepare h = (h₁, .ok files) ∧ Batch.NoneFails h₁ o files
  /-- That none fails says that each goes well by itself, as it was prepared, if the library is
  lawful. -/
  each : LawfulLibrary → h.files.IsTree → ∀ o h₁ files, (f.job input o).prepare h = (h₁, .ok files) →
    (Batch.NoneFails h₁ o files ↔ ∀ p ∈ files, Batch.GoesWell h₁ o p)
  fails : out.code ≠ 0 → out.code = 1
  /-- Nothing is put out. -/
  written : out.written = []
  /-- If the flags are no good or the input is missing, nothing has changed. -/
  untouched : (¬ f.IsGood h ∨ h.exists? ⟨input⟩ = false) → out.host = h

theorem process_spec {f : Flags} {h : Host} {o : Options} {input : String} :
    (process h o input f.output).written = [] ∧
      (process h o input f.output).host = ((f.job input o).run h).1 ∧
      ((process h o input f.output).code ≠ 0 → (process h o input f.output).code = 1) ∧
      ((process h o input f.output).code = 0 ↔
        ∃ h' st, (f.job input o).run h = (h', .ok st) ∧ st.success = true) := by
  unfold process Flags.job
  split
  · next h' e hrun => simp [hrun, Outcome.failed]
  · next h' st hrun => simp [hrun]

/-! ## 5. The whole command -/

theorem carryOut_of_path {outlet : Outlet} {f : Flags} {h : Host} {stdin : List UInt8} {o : Options}
    {input : String} (ho : f.options h = .ok o) (hinput : f.input = some input)
    (hpath : input ≠ "-") : carryOut outlet h f stdin = process h o input f.output := by
  simp only [carryOut, ho, hinput]

theorem processes_carryOut {f : Flags} {h : Host} (outlet : Outlet) (stdin : List UInt8)
    {input : String} (hinput : f.input = some input) (hpath : input ≠ "-") :
    Processes f h input (carryOut outlet h f stdin) := by
  have heach : LawfulLibrary → h.files.IsTree → ∀ o h₁ files,
      (f.job input o).prepare h = (h₁, .ok files) →
      (Batch.NoneFails h₁ o files ↔ ∀ p ∈ files, Batch.GoesWell h₁ o p) :=
    fun _ htree o _ _ hp => Batch.noneFails_iff htree hp o
  cases ho : f.options h with
  | error e =>
    rw [carryOut_of_error ho]
    refine ⟨iff_of_false Nat.one_ne_zero ?_, heach, fun _ => rfl, rfl, fun _ => rfl⟩
    rintro ⟨-, o, h₁, files, ho', -⟩
    rw [ho] at ho'
    cases ho'
  | ok o =>
    rw [carryOut_of_path ho hinput hpath]
    obtain ⟨hwritten, hhost, hfails, hcode⟩ := @process_spec _ _ f h o input
    refine ⟨?_, heach, hfails, hwritten, ?_⟩
    · rw [hcode, Batch.run_success_iff]
      simp only [ho, Except.ok.injEq, exists_and_left, exists_eq_left']
      rfl
    · rintro (hbad | hmissing)
      · exact absurd (exists_options_iff.mp ⟨o, ho⟩) hbad
      · have hinput : h.exists? (f.job input o).input = false := hmissing
        rw [hhost, Batch.Job.run, hinput]
        rfl

/-- **What the exit code of a command tells**, with any flags, any library and any programs, and
whatever the output takes.  If a command reads its input, the exit code is zero just if the flags are
good, the input is a text that is colorized, and what comes of it can be written, **or the last line of
it is lost**.  What can be written is the outcome, on the output or in the file that is asked for.  A
command that fails changes no file, and if it fails before it writes there is no output.

If it has a path, the exit code is zero just if the flags are good, the input is there, the preparation
goes well, and no document fails, each going well by itself.  Nothing is put out, and if the flags are
no good or the input is missing, the machine stays as it was. -/
theorem exit_code_tells (outlet : Outlet) (h : Host) (f : Flags) (stdin : List UInt8) :
    ((∃ o, f.options h = .ok o) ↔ f.IsGood h) ∧
      (f.input = none ∨ f.input = some "-" →
        Filters outlet f h stdin (carryOut outlet h f stdin)) ∧
      ∀ input, f.input = some input → input ≠ "-" →
        Processes f h input (carryOut outlet h f stdin) :=
  ⟨exists_options_iff, filters_carryOut outlet stdin, fun _ => processes_carryOut outlet stdin⟩

end

/-- A machine with a configuration file, a document, and one that is not well-formed. -/
def study : Host :=
  ⟨.dir [("conf.toml", .file (Utf8.encode "outside_pre = true".toList) false),
    ("f.html", .file (Utf8.encode Batch.letter) false), ("bad.htm", .file [60, 255] false)], [], none⟩

/-- A document is written to a new file; a command whose input is missing touches nothing; and one
document that is not well-formed makes a command fail that has others. -/
theorem exit_code_tells_study :
    let written := run study ["-c", "conf.toml", "-", "-o", "new.html"] (Utf8.encode Batch.letter)
    let missing := run study ["nowhere", "-v"] []
    let failing := run study ["./", "--timeout-ms=9"] []
    ((∃ c, written.Delivers study (some "new.html") c) ∧
        written.host.read? ⟨"new.html"⟩ = some (Utf8.encode "<p>a<br>b</p>".toList)) ∧
      (missing.code = 1 ∧ missing.host = study) ∧ failing.code = 1 ∧ failing.written = [] := by
  intro written missing failing
  let f : Flags := { input := some "-", output := some "new.html", config := some "conf.toml" }
  have hwritten : Filters .boundless f study (Utf8.encode Batch.letter) written :=
    (exit_code_tells .boundless study f _).2.1 (.inr rfl)
  have hmissing : Processes { input := some "nowhere", verbose := true } study "nowhere" missing :=
    (exit_code_tells .boundless study _ []).2.2 _ rfl (by decide)
  have hfailing : Processes { input := some "./", timeoutMs := some 9 } study "./" failing :=
    (exit_code_tells .boundless study _ []).2.2 _ rfl (by decide)
  refine ⟨⟨?_, by decide +kernel⟩, ⟨hmissing.fails ?_, hmissing.untouched (.inr ?_)⟩,
    hfailing.fails fun hcode => ?_, hfailing.written⟩
  · obtain ⟨c, hc, hw | hl⟩ := hwritten.code.mp (by decide +kernel)
    · exact ⟨c, hwritten.delivers c hc hw⟩
    · cases hl.1
  · decide +kernel
  · decide +kernel
  · have htree : study.files.IsTree := ⟨by decide +kernel, by decide +kernel⟩
    obtain ⟨-, o, h₁, files, -, hprep, hnone⟩ := hfailing.code.mp hcode
    have hwell := (hfailing.each inferInstance htree o h₁ files hprep).mp hnone
    have hdir : study.isDir ⟨"./"⟩ = true := by decide +kernel
    have hbytes : study.read? ⟨"./bad.htm"⟩ = some [60, 255] := by decide +kernel
    have hbad : Utf8.decode? [60, 255] = none := by decide +kernel
    have hlisted : ⟨"./bad.htm"⟩ ∈ Batch.documentsBelow study ⟨"./"⟩ := by
      rw [Batch.documentsBelow, List.mem_mergeSort]
      decide +kernel
    rw [Batch.Job.prepare] at hprep
    split at hprep
    case isFalse hno => exact absurd hdir hno
    cases hprep
    obtain ⟨bytes, doc, c, hread, hdoc, -⟩ := hwell _ hlisted
    rw [hbytes, Option.some.injEq] at hread
    rw [← hread, hbad] at hdoc
    cases hdoc

/-- **A last line that is lost is not noticed.**  A document is colorized and nothing of it gets out, but
the exit code is zero.  Written to by its path, the same output makes the command fail. -/
theorem lost_line_unnoticed :
    let doc := "<p>a</p>".toList
    let out := carryOut .full study {} (Utf8.encode doc)
    (colorizeOnce study {} doc).toOption.map Document.Colorized.html = some doc ∧
      ¬ CanWrite .full study none (Utf8.encode doc) ∧ out.code = 0 ∧ out.written = [] ∧
      (carryOut .full study { output := some "/dev/stdout" } (Utf8.encode doc)).code = 1 := by
  intro doc out
  refine ⟨by decide +kernel, fun hw => ?_, by decide +kernel, by decide +kernel, by decide +kernel⟩
  have hwritten : (Outlet.full.print (Utf8.encode doc)).1 = Utf8.encode doc := hw
  revert hwritten
  decide +kernel

end CodeTint.CommandLine
