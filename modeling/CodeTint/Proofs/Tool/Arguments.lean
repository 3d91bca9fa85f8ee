/-
# What a tool reads from its arguments

The arguments of a call carry a language and some parameters.  This file says what a tool reads from
them (`Tool.reads`), and when that is what was meant (`parameters_carried_iff`).

`highlight` gets each parameter as an argument of its own, so any value goes through.  `pygmentize`
gets one list, in which a comma ends a parameter wherever it stands.  So **it reads back what was meant
just if no value has a comma in it**.

Nor do the arguments tell what was meant.  Two parameters in a row are spelled like one whose value has
a comma in it, so a list can be of one kind only: no parameter at all, or a single one in whose value no
further one can be read (`IsLone`).
-/
import CodeTint.Proofs.Text.Cut
import CodeTint.Tool.Arguments

namespace CodeTint

/-! ## 1. Reading -/

/-- A text cut at its first equals sign, which goes. -/
def cutPair (s : List Char) : String × String :=
  (String.ofList (s.takeWhile (· != '=')), String.ofList ((s.dropWhile (· != '=')).drop 1))

/-- **The parameters in a list with commas between.** -/
def readPairs (list : String) : List (String × String) := (list.toList.splitOn ',').map cutPair

/-- The parameter in an argument of its own, behind two dashes.  Without an equals sign its value is
`true`. -/
def readFlag (arg : String) : String × String :=
  if '=' ∈ arg.toList then cutPair (arg.toList.drop 2) else (String.ofList (arg.toList.drop 2), "true")

/-- **What a tool reads from its arguments**: the language and the parameters. -/
def Tool.reads (t : Tool) (args : List String) : Option (String × List (String × String)) :=
  match t, args with
  | .pygmentize, ["-l", language, "-f", "html"] => some (language, [])
  | .pygmentize, ["-l", language, "-f", "html", "-O", list] => some (language, readPairs list)
  | .highlight, "--syntax" :: language :: "--out-format" :: "html" :: "--fragment" :: flags =>
    some (language, flags.map readFlag)
  | _, _ => none

/-- A key that can be told from what stands around it. -/
def IsPlainKey (key : String) : Prop := '=' ∉ key.toList ∧ ',' ∉ key.toList

instance (key : String) : Decidable (IsPlainKey key) :=
  inferInstanceAs (Decidable ('=' ∉ key.toList ∧ ',' ∉ key.toList))

/-- Parameters whose keys are plain; their values are any text. -/
def HasPlainKeys (params : Option (Dict String)) : Prop :=
  ∀ e ∈ paramEntries params, IsPlainKey e.1

instance (params : Option (Dict String)) : Decidable (HasPlainKeys params) :=
  inferInstanceAs (Decidable (∀ e ∈ paramEntries params, IsPlainKey e.1))

theorem toList_pairText (e : String × String) :
    (pairText e).toList = e.1.toList ++ '=' :: e.2.toList := by
  simp [pairText]

/-- **A parameter is read back**, whatever its value. -/
theorem cutPair_append {key : List Char} (h : '=' ∉ key) (value : List Char) :
    cutPair (key ++ '=' :: value) = (String.ofList key, String.ofList value) := by
  obtain ⟨hkey, hvalue⟩ := Text.cut_append h value
  rw [cutPair, hkey, hvalue]
  rfl

theorem cutPair_pairText {e : String × String} (h : '=' ∉ e.1.toList) :
    cutPair (pairText e).toList = e := by
  rw [toList_pairText, cutPair_append h, String.ofList_toList, String.ofList_toList]

theorem readFlag_flagText {e : String × String} (h : '=' ∉ e.1.toList) :
    readFlag (flagText e) = e := by
  obtain ⟨key, value⟩ := e
  by_cases hv : value = "true"
  · subst hv
    simp [flagText, readFlag, h]
  · have harg : (flagText (key, value)).toList = '-' :: '-' :: (pairText (key, value)).toList := by
      simp [flagText, hv]
    have hmem : '=' ∈ (flagText (key, value)).toList := by
      simp [harg, toList_pairText]
    rw [readFlag, if_pos hmem, harg]
    exact cutPair_pairText h

/-! ## 2. A list with commas -/

/-- What is read from a piece without a comma has none. -/
theorem comma_notMem_cutPair {s : List Char} (h : ',' ∉ s) : ',' ∉ (cutPair s).2.toList := by
  intro hc
  rw [cutPair, String.toList_ofList] at hc
  exact h ((List.dropWhile_suffix _).subset (List.mem_of_mem_drop hc))

/-- The list that parameters are written into. -/
def pairList (es : List (String × String)) : List Char := (",".intercalate (es.map pairText)).toList

theorem pairList_singleton (e : String × String) : pairList [e] = (pairText e).toList := by
  simp [pairList]

theorem pairList_cons_cons (e e' : String × String) (es : List (String × String)) :
    pairList (e :: e' :: es) = (pairText e).toList ++ ',' :: pairList (e' :: es) := by
  rw [pairList, pairList, List.map_cons, List.map_cons, String.intercalate_cons_cons]
  simp

/-- **A list is read back just if no value has a comma.** -/
theorem readPairs_iff {es : List (String × String)} (hne : es ≠ [])
    (hkeys : ∀ e ∈ es, IsPlainKey e.1) :
    readPairs (",".intercalate (es.map pairText)) = es ↔ ∀ e ∈ es, ',' ∉ e.2.toList := by
  constructor
  · intro h e he hcomma
    rw [← h, readPairs, List.mem_map] at he
    obtain ⟨piece, hpiece, rfl⟩ := he
    exact comma_notMem_cutPair (Text.notMem_of_mem_splitOn hpiece) hcomma
  · intro h
    have hpieces : ∀ p ∈ (es.map pairText).map String.toList, ',' ∉ p := by
      intro p hp
      obtain ⟨e, he, rfl⟩ := List.mem_map.mp (List.map_map ▸ hp)
      rw [Function.comp, toList_pairText]
      simp [(hkeys e he).2, h e he]
    have hcut := List.splitOn_intercalate ',' hpieces (by simpa using hne)
    rw [readPairs, String.toList_intercalate]
    show ((([','].intercalate _).splitOn ',').map cutPair) = es
    rw [hcut, List.map_map, List.map_map]
    conv => rhs; rw [← List.map_id es]
    refine List.map_congr_left fun e he => ?_
    exact cutPair_pairText (hkeys e he).1

/-! ## 3. Parameters that others are spelled like -/

variable {es es' : List (String × String)}

/-- The list begins with the key of the first parameter and an equals sign. -/
theorem exists_pairList_cons (e : String × String) (es : List (String × String)) :
    ∃ back, pairList (e :: es) = e.1.toList ++ '=' :: back := by
  cases es with
  | nil => exact ⟨_, (pairList_singleton e).trans (toList_pairText e)⟩
  | cons e' es =>
    refine ⟨e.2.toList ++ ',' :: pairList (e' :: es), ?_⟩
    rw [pairList_cons_cons, toList_pairText, List.append_assoc, List.cons_append]

theorem pairList_eq_nil : pairList es = [] ↔ es = [] := by
  cases es with
  | nil => simp [pairList]
  | cons e es =>
    obtain ⟨back, h⟩ := exists_pairList_cons e es
    simp [h]

theorem arguments_pygmentize (language : String) (params : Option (Dict String)) :
    Tool.pygmentize.arguments language params = ["-l", language, "-f", "html"] ++
      if paramEntries params = [] then []
      else ["-O", String.ofList (pairList (paramEntries params))] := by
  rw [pairList, String.ofList_toList, Tool.arguments]
  cases paramEntries params <;> rfl

/-- **Two calls of `pygmentize` are alike just if their languages and their lists are.** -/
theorem arguments_pygmentize_inj {language language' : String}
    {params params' : Option (Dict String)} :
    Tool.pygmentize.arguments language params = Tool.pygmentize.arguments language' params' ↔
      language = language' ∧ pairList (paramEntries params) = pairList (paramEntries params') := by
  rw [arguments_pygmentize, arguments_pygmentize]
  generalize paramEntries params = es
  generalize paramEntries params' = es'
  by_cases h : es = [] <;> by_cases h' : es' = []
  · simp [h, h']
  · have hne : [] ≠ pairList es' := fun heq => h' (pairList_eq_nil.mp heq.symm)
    simp [h, h', pairList_eq_nil.mpr, hne]
  · simp [h, h', pairList_eq_nil.mpr, pairList_eq_nil]
  · simp [h, h', String.ofList_inj]

/-- **No further parameter can be read** in the value of a parameter: behind no comma in it stands a
key, with its equals sign, that comes after the parameter's own. -/
def IsLone (e : String × String) : Prop :=
  ∀ (front : List Char) (key : String) (back : List Char),
    e.2.toList = front ++ ',' :: (key.toList ++ '=' :: back) → IsPlainKey key → ¬ e.1 < key

/-- **Parameters that no others are spelled like**: at most one, and no further one can be read in
it. -/
def AreLone (es : List (String × String)) : Prop := es.length ≤ 1 ∧ ∀ e ∈ es, IsLone e

theorem eq_of_pairList_eq (hlone : AreLone es) (hkeys : ∀ e ∈ es, IsPlainKey e.1)
    (hkeys' : ∀ e ∈ es', IsPlainKey e.1) (hasc : Ascending es') (h : pairList es = pairList es') :
    es = es' := by
  match es, es' with
  | [], es' => exact (pairList_eq_nil.mp h.symm).symm
  | e :: es, [] => exact pairList_eq_nil.mp h
  | [e], [e'] =>
    rw [pairList_singleton, pairList_singleton] at h
    rw [← cutPair_pairText (hkeys e (by simp)).1, h, cutPair_pairText (hkeys' e' (by simp)).1]
  | [e], e₁ :: e₂ :: es' =>
    -- then the second parameter can be read in the value of the one
    obtain ⟨back, hback⟩ := exists_pairList_cons e₂ es'
    have hkey := (hkeys e (by simp)).1
    have hkey₁ := (hkeys' e₁ (by simp)).1
    have hcut : cutPair (pairText e).toList
        = cutPair (e₁.1.toList ++ '=' :: (e₁.2.toList ++ ',' :: (e₂.1.toList ++ '=' :: back))) := by
      rw [← pairList_singleton, h, pairList_cons_cons, hback, toList_pairText, List.append_assoc,
        List.cons_append]
    rw [cutPair_pairText hkey, cutPair_append hkey₁, String.ofList_toList] at hcut
    have hvalue : e.2.toList = e₁.2.toList ++ ',' :: (e₂.1.toList ++ '=' :: back) := by
      rw [hcut, String.toList_ofList]
    have hlt : e₁.1 < e₂.1 := List.rel_of_pairwise_cons hasc (by simp)
    have hno := hlone.2 e (by simp) _ _ _ hvalue (hkeys' e₂ (by simp))
    rw [hcut] at hno
    exact absurd hlt hno
  | e :: e' :: es, _ => exact absurd hlone.1 (by simp)

/-- The dictionary with one entry. -/
def Dict.single (e : String × String) : Dict String := ⟨[e], List.pairwise_singleton _ _⟩

/-- The dictionary with two entries. -/
def Dict.pair (e e' : String × String) (h : e.1 < e'.1) : Dict String :=
  ⟨[e, e'], by simpa [Ascending] using h⟩

/-- **All other parameters are spelled like some others.** -/
theorem exists_pairList_eq (hno : ¬ AreLone es) (hkeys : ∀ e ∈ es, IsPlainKey e.1) :
    ∃ d : Dict String, HasPlainKeys (some d) ∧ pairList es = pairList d.entries ∧
      es ≠ d.entries := by
  match es with
  | [] => exact absurd ⟨Nat.zero_le 1, by simp⟩ hno
  | [e] =>
    -- a further one can be read in the value
    obtain ⟨front, key, back, hvalue, hkey, hlt⟩ : ∃ front key back,
        e.2.toList = front ++ ',' :: (String.toList key ++ '=' :: back) ∧ IsPlainKey key ∧
          e.1 < key := by
      simpa [AreLone, IsLone] using hno
    refine ⟨.pair (e.1, String.ofList front) (key, String.ofList back) hlt, ?_, ?_, ?_⟩
    · intro x hx
      rcases List.mem_cons.mp hx with rfl | hx
      · exact hkeys e (by simp)
      · rw [List.mem_singleton.mp hx]
        exact hkey
    · rw [Dict.pair, pairList_singleton, pairList_cons_cons, pairList_singleton, toList_pairText,
        toList_pairText, toList_pairText, hvalue]
      simp
    · simp [Dict.pair]
  | e :: e' :: es =>
    -- all can be read as one
    refine ⟨.single (e.1, String.ofList (e.2.toList ++ ',' :: pairList (e' :: es))), ?_, ?_, ?_⟩
    · intro x hx
      rw [List.mem_singleton.mp hx]
      exact hkeys e (by simp)
    · rw [Dict.single, pairList_singleton, pairList_cons_cons, toList_pairText, toList_pairText]
      simp
    · simp [Dict.single]

/-! ## 4. What is carried -/

/-- No value has a comma in it. -/
def IsCommaFree (params : Option (Dict String)) : Prop :=
  ∀ e ∈ paramEntries params, ',' ∉ e.2.toList

section

variable {t : Tool} {language language' : String} {params params' : Option (Dict String)}

theorem reads_highlight (hkeys : HasPlainKeys params) :
    Tool.highlight.reads (Tool.highlight.arguments language params)
      = some (language, paramEntries params) := by
  have hflags : ((paramEntries params).map flagText).map readFlag = paramEntries params := by
    rw [List.map_map]
    conv => rhs; rw [← List.map_id (paramEntries params)]
    exact List.map_congr_left fun e he => readFlag_flagText (hkeys e he).1
  show some (language, ((paramEntries params).map flagText).map readFlag) = _
  rw [hflags]

theorem reads_pygmentize (language : String) (params : Option (Dict String)) :
    Tool.pygmentize.reads (Tool.pygmentize.arguments language params) = some (language,
      if paramEntries params = [] then []
      else readPairs (",".intercalate ((paramEntries params).map pairText))) := by
  rw [Tool.arguments]
  cases paramEntries params <;> rfl

/-- **The tool reads what was meant**, but for commas in the list of `pygmentize`. -/
theorem reads_arguments_iff (hkeys : HasPlainKeys params) :
    t.reads (t.arguments language params) = some (language, paramEntries params) ↔
      (t = .pygmentize → IsCommaFree params) := by
  cases t with
  | highlight => simp [reads_highlight hkeys]
  | pygmentize =>
    rw [reads_pygmentize, Option.some.injEq, Prod.mk.injEq, eq_self, true_and, IsCommaFree]
    by_cases h : paramEntries params = []
    · simp [h]
    · rw [if_neg h, readPairs_iff h hkeys]
      simp

/-- The language is told in any case. -/
theorem language_eq_of_arguments_eq
    (h : t.arguments language params = t.arguments language' params') : language = language' := by
  cases t with
  | highlight => exact (List.cons.inj (List.cons.inj h).2).1
  | pygmentize => exact (arguments_pygmentize_inj.mp h).1

theorem tells_apart_iff (hkeys : HasPlainKeys params) :
    (∀ language' params', HasPlainKeys params' →
        t.arguments language params = t.arguments language' params' →
          paramEntries params = paramEntries params') ↔
      (t = .pygmentize → AreLone (paramEntries params)) := by
  cases t with
  | highlight =>
    refine iff_of_true (fun language' params' hkeys' h => ?_) (fun ht => nomatch ht)
    have hread : Tool.highlight.reads (Tool.highlight.arguments language params)
        = some (language, paramEntries params) := reads_highlight hkeys
    rw [h, reads_highlight hkeys'] at hread
    exact (Prod.mk.inj (Option.some.inj hread)).2.symm
  | pygmentize =>
    constructor
    · intro h _
      refine Classical.byContradiction fun hno => ?_
      obtain ⟨d, hplain, hlist, hne⟩ := exists_pairList_eq hno hkeys
      exact hne (h language (some d) hplain (arguments_pygmentize_inj.mpr ⟨rfl, hlist⟩))
    · intro hlone language' params' hkeys' h
      refine eq_of_pairList_eq (hlone rfl) hkeys hkeys' ?_ (arguments_pygmentize_inj.mp h).2
      cases params' with
      | none => exact List.Pairwise.nil
      | some d => exact d.ascending

end

/-- **What a tool reads from its arguments, and what they tell.**  Let the keys of some parameters have
neither an equals sign nor a comma; the values are any text.

The tool reads the language and just these parameters, unless it is `pygmentize` and a value has a
comma.  So without such commas equal arguments have equal languages and parameters.  For any values,
equal arguments have equal languages, and no other parameters have the arguments of these, unless it is
`pygmentize` and these are two or more, or a further one can be read in the value of one. -/
theorem parameters_carried_iff {t : Tool} {language : String} {params : Option (Dict String)}
    (hkeys : HasPlainKeys params) :
    (t.reads (t.arguments language params) = some (language, paramEntries params) ↔
        (t = .pygmentize → IsCommaFree params)) ∧
      (∀ language' params', HasPlainKeys params' →
        t.arguments language params = t.arguments language' params' →
          language = language' ∧ ((t = .pygmentize → IsCommaFree params ∧ IsCommaFree params') →
            paramEntries params = paramEntries params')) ∧
      ((∀ language' params', HasPlainKeys params' →
          t.arguments language params = t.arguments language' params' →
            paramEntries params = paramEntries params') ↔
        (t = .pygmentize → AreLone (paramEntries params))) := by
  refine ⟨reads_arguments_iff hkeys, fun language' params' hkeys' h => ?_, tells_apart_iff hkeys⟩
  refine ⟨language_eq_of_arguments_eq h, fun hfree => ?_⟩
  have hread : t.reads (t.arguments language params) = some (language, paramEntries params) :=
    (reads_arguments_iff hkeys).mpr fun ht => (hfree ht).1
  rw [h, (reads_arguments_iff hkeys').mpr fun ht => (hfree ht).2] at hread
  exact (Prod.mk.inj (Option.some.inj hread)).2.symm

/-- A parameter with a comma in its value. -/
def styled : Dict String := .single ("linenos", "1,style=bw")

/-- `highlight` gets it as it is, `pygmentize` reads something else, and other parameters look alike. -/
theorem parameters_carried_iff_styled : HasPlainKeys (some styled) ∧
    Tool.highlight.reads (Tool.highlight.arguments "ruby" (some styled))
      = some ("ruby", styled.entries) ∧
    Tool.pygmentize.reads (Tool.pygmentize.arguments "ruby" (some styled))
      ≠ some ("ruby", styled.entries) ∧ ¬ AreLone styled.entries := by
  have hkeys : HasPlainKeys (some styled) := by decide
  have hcomma : ¬ IsCommaFree (some styled) := by
    intro h
    exact absurd (h _ (List.mem_singleton_self _)) (by decide)
  refine ⟨hkeys, ?_, ?_, ?_⟩
  · refine (parameters_carried_iff hkeys).1.mpr ?_
    intro ht
    cases ht
  · intro h
    exact hcomma ((parameters_carried_iff hkeys).1.mp h rfl)
  · intro hlone
    have hno := hlone.2 _ (List.mem_singleton_self _) "1".toList "style" "bw".toList (by decide)
    exact absurd (by decide) (hno ⟨by decide, by decide⟩)

/-- The two parameters that are read from it. -/
def relined : Dict String := .pair ("linenos", "1") ("style", "bw") (by decide)

/-- **A comma in a value adds a parameter**: one parameter and two have the same arguments, from which
the tool reads the two. -/
theorem comma_adds_parameter : HasPlainKeys (some styled) ∧ HasPlainKeys (some relined) ∧
    Tool.pygmentize.arguments "ruby" (some styled) = Tool.pygmentize.arguments "ruby" (some relined) ∧
    styled.entries ≠ relined.entries ∧
    Tool.pygmentize.reads (Tool.pygmentize.arguments "ruby" (some styled))
      = some ("ruby", relined.entries) := by
  decide

end CodeTint
