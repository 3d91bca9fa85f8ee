/-
# The grammar of a list of routes

A list of routes is cut at its commas, and what is blank between two of them does not count.  A segment
that does is a route just if something stands in front of its first equals sign (`NamesLanguage`); the
route is what stands on either side, without the blanks around it (`Spells`).

Reading cuts first and trims three times after that, each segment and then both sides of its equals sign.
As an equals sign is not blank, trimming the segment first makes no difference (`route?_trim`), and the
grammar can be said of the text as it stands.  What is read is then the routes of all segments in order,
or the first that has none is named (`routes_grammar`).

The converse is not true of every route: in a language an equals sign would come too early, in either
part a comma would cut it, and blanks at its ends would get lost.  **Without these every list of routes
is read back**, however it is spaced out.
-/
import CodeTint.Proofs.CommandLine.Layers
import CodeTint.Proofs.Text.Blank

namespace CodeTint.CommandLine

open CodeTint.Text

/-! ## 1. Lists that are read one by one -/

section

variable {ε α β : Type} {f : α → Except ε β} {as : List α}

/-- **All are read**, each to what stands in its place. -/
theorem mapM_eq_ok {bs : List β} :
    as.mapM f = .ok bs ↔ List.Forall₂ (fun a b => f a = .ok b) as bs := by
  induction as generalizing bs with
  | nil =>
    rw [List.mapM_nil, List.forall₂_nil_left_iff]
    exact ⟨fun h => (Except.ok.inj h).symm, fun h => h ▸ rfl⟩
  | cons a as ih =>
    rw [List.mapM_cons, bind_eq_ok, List.forall₂_cons_left_iff]
    constructor
    · rintro ⟨b, hb, h⟩
      obtain ⟨bs', hbs', h⟩ := bind_eq_ok.mp h
      cases h
      exact ⟨b, bs', hb, ih.mp hbs', rfl⟩
    · rintro ⟨b, bs', hb, hbs', rfl⟩
      exact ⟨b, hb, bind_eq_ok.mpr ⟨bs', ih.mpr hbs', rfl⟩⟩

theorem mapM_cons_eq_error {a : α} {e : ε} :
    (a :: as).mapM f = .error e ↔ f a = .error e ∨ (∃ b, f a = .ok b) ∧ as.mapM f = .error e := by
  rw [List.mapM_cons]
  cases f a with
  | error e' => simp [bind, Except.bind]
  | ok b => cases as.mapM f <;> simp [bind, Except.bind, pure, Except.pure]

/-- **The first one that cannot be read** says what is wrong. -/
theorem mapM_eq_error {e : ε} : as.mapM f = .error e ↔ ∃ front a back, as = front ++ a :: back ∧
    (∀ x ∈ front, ∃ b, f x = .ok b) ∧ f a = .error e := by
  induction as with
  | nil => simp [pure, Except.pure]
  | cons a as ih =>
    rw [mapM_cons_eq_error, ih]
    constructor
    · rintro (ha | ⟨hb, front, a', back, rfl, hfront, ha'⟩)
      · exact ⟨[], a, as, rfl, by simp, ha⟩
      · exact ⟨a :: front, a', back, rfl, List.forall_mem_cons.mpr ⟨hb, hfront⟩, ha'⟩
    · rintro ⟨_ | ⟨x, front⟩, a', back, heq, hfront, ha'⟩
      · cases heq
        exact .inl ha'
      · cases heq
        obtain ⟨hb, hfront⟩ := List.forall_mem_cons.mp hfront
        exact .inr ⟨hb, front, a', back, rfl, hfront, ha'⟩

end

/-! ## 2. The grammar -/

/-- **The segments that count**: those between the commas that are not blank. -/
def segments (text : List Char) : List (List Char) :=
  (text.splitOn ',').filter (fun segment => !allBlank segment)

/-- Something stands in front of the first equals sign. -/
def NamesLanguage (segment : List Char) : Prop :=
  ∃ left right, segment = left ++ '=' :: right ∧ '=' ∉ left ∧ allBlank left = false

/-- **A segment spells a route**: its language in front of the first equals sign and its colorizer behind
that, each with blanks around it or without. -/
structure Spells (segment : List Char) (r : String × String) : Prop where
  parts : ∃ left right, segment = left ++ '=' :: right ∧ '=' ∉ left ∧
    Pads r.1.toList left ∧ Pads r.2.toList right
  named : r.1 ≠ ""
  language : Tight r.1.toList
  colorizer : Tight r.2.toList

/-- What is said about a segment that spells no route. -/
def complaint (segment : List Char) : Refusal :=
  ⟨"expected language=colorizer, got `" ++ String.ofList segment ++ "`", none⟩

section

variable {segment left right : List Char} {r : String × String}

/-- **Blanks around a pair** make no difference. -/
theorem route?_trim (segment : List Char) : route? (trim segment) = route? segment := by
  by_cases hmem : '=' ∈ segment
  · obtain ⟨left, right, rfl, hleft⟩ := List.eq_append_cons_of_mem hmem
    have hstart : '=' ∉ trimStart left := fun h => hleft ((trimStart_suffix left).subset h)
    rw [trim_append_cons (by decide)]
    unfold route?
    rw [(cut_append hleft right).1, (cut_append hleft right).2,
      (cut_append hstart (trimEnd right)).1, (cut_append hstart (trimEnd right)).2]
    simp only [trim_trimStart, trim_trimEnd]
  · have hnone : ∀ s : List Char, '=' ∉ s → route? s = none := by
      intro s hs
      rw [route?, List.dropWhile_eq_nil_iff.mpr (forall_bne_of_notMem hs)]
    obtain ⟨front, back, -, hs⟩ := trim_append_blanks segment
    have htrim : '=' ∉ trim segment := by
      intro h
      rw [hs] at hmem
      exact hmem (by simp [h])
    rw [hnone _ htrim, hnone _ hmem]

/-- **A pair that is trimmed and cut** is the route that it spells. -/
theorem spells_iff : Spells segment r ↔ route? (trim segment) = some r := by
  rw [route?_trim, route?_eq_some_iff]
  constructor
  · rintro ⟨⟨left, right, rfl, hleft, hl, hr⟩, hne, hlt, hrt⟩
    have hlanguage := trim_eq_iff.mpr ⟨hlt, hl⟩
    have hcolorizer := trim_eq_iff.mpr ⟨hrt, hr⟩
    refine ⟨left, right, rfl, hleft, ?_, ?_⟩
    · rw [hlanguage]
      exact fun h => hne (String.toList_eq_nil_iff.mp h)
    · rw [hlanguage, hcolorizer, String.ofList_toList, String.ofList_toList]
  · rintro ⟨left, right, rfl, hleft, hne, rfl⟩
    obtain ⟨hlt, hl⟩ := trim_eq_iff.mp (rfl : trim left = trim left)
    obtain ⟨hrt, hr⟩ := trim_eq_iff.mp (rfl : trim right = trim right)
    rw [← String.toList_ofList (l := trim left)] at hlt hl hne
    rw [← String.toList_ofList (l := trim right)] at hrt hr
    exact ⟨⟨left, right, rfl, hleft, hl, hr⟩, fun h => hne (String.toList_eq_nil_iff.mpr h), hlt,
      hrt⟩

theorem exists_spells_iff : (∃ r, Spells segment r) ↔ NamesLanguage segment := by
  simp only [spells_iff, route?_trim, route?_eq_some_iff]
  constructor
  · rintro ⟨r, left, right, hsegment, hleft, hne, -⟩
    exact ⟨left, right, hsegment, hleft, Bool.eq_false_iff.mpr (mt trim_eq_nil.mpr hne)⟩
  · rintro ⟨left, right, hsegment, hleft, hne⟩
    refine ⟨_, left, right, hsegment, hleft, ?_, rfl⟩
    rw [ne_eq, trim_eq_nil, hne]
    exact Bool.false_ne_true

/-- A list of routes is read segment by segment. -/
theorem parseRoutes_eq (text : List Char) :
    parseRoutes text = ((segments text).map trim).mapM route := by
  have hfilter : (fun pair : List Char => !pair.isEmpty) ∘ trim = fun s => !allBlank s := by
    funext s
    rw [Function.comp, Bool.not_eq_eq_eq_not, Bool.not_not, Bool.eq_iff_iff, List.isEmpty_iff,
      trim_eq_nil]
  rw [parseRoutes, List.filter_map, hfilter, segments]

/-- **A segment is complained of** just if it names no language. -/
theorem route_trim_eq_error_iff {e : Refusal} : route (trim segment) = .error e ↔
    ¬ NamesLanguage segment ∧ ∃ bare, Tight bare ∧ Pads bare segment ∧ e = complaint bare := by
  simp only [← and_assoc, ← trim_eq_iff, exists_eq_left', ← exists_spells_iff, spells_iff]
  unfold route complaint
  cases route? (trim segment) with
  | none => simp [eq_comm]
  | some r => simp

end

/-! ## 3. Writing -/

/-- **A route that can be written down.** -/
structure IsPlain (r : String × String) : Prop where
  named : r.1 ≠ ""
  equals : '=' ∉ r.1.toList
  commas : ',' ∉ r.1.toList ∧ ',' ∉ r.2.toList
  language : Tight r.1.toList
  colorizer : Tight r.2.toList

/-- **A segment that a route is written into**, with blanks around its parts or without. -/
def Writes (segment : List Char) (r : String × String) : Prop :=
  ∃ left right, segment = left ++ '=' :: right ∧ Pads r.1.toList left ∧ Pads r.2.toList right

section

variable {c : Char} {s padded segment : List Char} {r : String × String}

/-- Blanks add no other character. -/
theorem notMem_of_pads (h : Pads s padded) (hc : isBlank c = false) (hs : c ∉ s) : c ∉ padded := by
  obtain ⟨front, back, hblank, rfl⟩ := h
  rw [allBlank_iff] at hblank
  have hno : c ∉ front ++ back := by
    intro hmem
    rw [hblank c hmem] at hc
    cases hc
  simp only [List.mem_append, not_or] at hno ⊢
  exact ⟨⟨hno.1, hs⟩, hno.2⟩

theorem IsPlain.spells (h : IsPlain r) (hw : Writes segment r) : Spells segment r := by
  obtain ⟨left, right, rfl, hl, hr⟩ := hw
  exact ⟨⟨left, right, rfl, notMem_of_pads hl (by decide) h.equals, hl, hr⟩, h.named, h.language,
    h.colorizer⟩

theorem IsPlain.comma_notMem (h : IsPlain r) (hw : Writes segment r) : ',' ∉ segment := by
  obtain ⟨left, right, rfl, hl, hr⟩ := hw
  have hleft := notMem_of_pads hl (by decide) h.commas.1
  have hright := notMem_of_pads hr (by decide) h.commas.2
  simp [hleft, hright]

/-- What plain routes are written into spells them, and has no comma. -/
theorem spells_of_writes {written : List (List Char)} {routes : List (String × String)}
    (hplain : ∀ r ∈ routes, IsPlain r) (h : List.Forall₂ Writes written routes) :
    List.Forall₂ Spells written routes ∧ ∀ segment ∈ written, ',' ∉ segment := by
  induction h with
  | nil => exact ⟨.nil, by simp⟩
  | cons hw _ ih =>
    rw [List.forall_mem_cons] at hplain
    obtain ⟨hspells, hcommas⟩ := ih hplain.2
    exact ⟨.cons (hplain.1.spells hw) hspells,
      List.forall_mem_cons.mpr ⟨hplain.1.comma_notMem hw, hcommas⟩⟩

/-- Pieces without a comma are what the text is cut into that they are joined to. -/
theorem segments_intercalate {pieces : List (List Char)}
    (h : ∀ segment ∈ pieces.filter (fun segment => !allBlank segment), ',' ∉ segment) :
    segments ([','].intercalate pieces) = pieces.filter (fun segment => !allBlank segment) := by
  have hpieces : ∀ p ∈ pieces, ',' ∉ p := by
    intro p hp hcomma
    cases hblank : allBlank p with
    | true => cases allBlank_iff.mp hblank _ hcomma
    | false => exact h p (List.mem_filter.mpr ⟨hp, by simp [hblank]⟩) hcomma
  by_cases hnil : pieces = []
  · rw [hnil]
    rfl
  · rw [segments, List.splitOn_intercalate ',' hpieces hnil]

end

instance (r : String × String) : Decidable (IsPlain r) :=
  decidable_of_iff
    (r.1 ≠ "" ∧ '=' ∉ r.1.toList ∧ (',' ∉ r.1.toList ∧ ',' ∉ r.2.toList) ∧ Tight r.1.toList ∧
      Tight r.2.toList)
    ⟨fun ⟨h₁, h₂, h₃, h₄, h₅⟩ => ⟨h₁, h₂, h₃, h₄, h₅⟩,
      fun ⟨h₁, h₂, h₃, h₄, h₅⟩ => ⟨h₁, h₂, h₃, h₄, h₅⟩⟩

/-! ## 4. Reading and writing -/

/-- **Reading a list of routes goes by its grammar**, for any text.

* The routes are those that the segments spell, each its own, in their order.
* There are routes just if each segment has something in front of its first equals sign.
* If not, the first segment that has nothing there is named, without the blanks around it.
* Routes are read back from a text that they are written into, if no language is empty or has an equals
  sign, and no part has a comma or blanks at its ends: with blanks around the parts, blank pieces
  anywhere, and equals signs in a colorizer. -/
theorem routes_grammar (text : List Char) :
    (∀ routes, parseRoutes text = .ok routes ↔ List.Forall₂ Spells (segments text) routes) ∧
    ((∃ routes, parseRoutes text = .ok routes) ↔
      ∀ segment ∈ segments text, NamesLanguage segment) ∧
    (∀ e, parseRoutes text = .error e ↔ ∃ front segment back bare,
      segments text = front ++ segment :: back ∧ (∀ s ∈ front, NamesLanguage s) ∧
        ¬ NamesLanguage segment ∧ Tight bare ∧ Pads bare segment ∧ e = complaint bare) ∧
    ∀ pieces routes, text = [','].intercalate pieces → (∀ r ∈ routes, IsPlain r) →
      List.Forall₂ Writes (pieces.filter fun piece => !allBlank piece) routes →
        parseRoutes text = .ok routes := by
  have hread : ∀ routes,
      parseRoutes text = .ok routes ↔ List.Forall₂ Spells (segments text) routes := by
    intro routes
    rw [parseRoutes_eq, List.mapM_map, mapM_eq_ok]
    simp only [Function.comp, route_eq_ok_iff, ← spells_iff]
  refine ⟨hread, ?_, fun e => ?_, ?_⟩
  · simp only [parseRoutes_eq, exists_mapM_route_iff, List.forall_mem_map, ← spells_iff,
      exists_spells_iff]
  · rw [parseRoutes_eq, List.mapM_map, mapM_eq_error]
    simp only [Function.comp, route_eq_ok_iff, ← spells_iff, exists_spells_iff,
      route_trim_eq_error_iff, exists_and_left]
  · rintro pieces routes rfl hplain hwrites
    obtain ⟨hspells, hcommas⟩ := spells_of_writes hplain hwrites
    rw [hread, segments_intercalate hcommas]
    exact hspells

/-- Routes with an equals sign in a colorizer, and without a colorizer. -/
def spaced : List (String × String) := [("perl", "vim"), ("c++", "a=b"), ("lua", "")]

theorem routes_grammar_spaced :
    (∀ r ∈ spaced, IsPlain r) ∧
      parseRoutes " perl =\u00A0vim ,, \t,c++=a=b,lua= ".toList = .ok spaced ∧
      parseRoutes "perl=vim, ,\u3000= a ,lua".toList = .error (complaint "= a".toList) := by
  have hplain : ∀ r ∈ spaced, IsPlain r := by decide
  refine ⟨hplain, ?_, ?_⟩
  · refine (routes_grammar _).2.2.2 [" perl =\u00A0vim ".toList, [], " \t".toList,
      "c++=a=b".toList, "lua= ".toList] spaced (by decide) hplain ?_
    refine .cons ⟨" perl ".toList, "\u00A0vim ".toList, rfl, ?_, ?_⟩ (.cons ?_ (.cons ?_ .nil))
    · exact ⟨" ".toList, " ".toList, by decide, rfl⟩
    · exact ⟨"\u00A0".toList, " ".toList, by decide, rfl⟩
    · exact ⟨"c++".toList, "a=b".toList, rfl, ⟨[], [], rfl, rfl⟩, ⟨[], [], rfl, rfl⟩⟩
    · exact ⟨"lua".toList, " ".toList, rfl, ⟨[], [], rfl, rfl⟩, ⟨[], " ".toList, rfl, rfl⟩⟩
  · refine ((routes_grammar _).2.2.1 _).mpr ⟨["perl=vim".toList], "\u3000= a ".toList,
      ["lua".toList], "= a".toList, by decide, ?_, ?_, by decide, ?_, rfl⟩
    · rw [List.forall_mem_singleton]
      exact ⟨"perl".toList, "vim".toList, rfl, by decide, by decide⟩
    · rw [← exists_spells_iff]
      rintro ⟨r, hr⟩
      have hnone : route? (trim "\u3000= a ".toList) = none := by decide
      rw [spells_iff, hnone] at hr
      cases hr
    · exact ⟨"\u3000".toList, " ".toList, by decide, rfl⟩

end CodeTint.CommandLine
