/-
# Reading the inside of a tag

`rest?` reads what stands between the name of a tag and its `>`: attributes, blanks and slashes.
It answers `none` when the end of the document comes first, for then there is no tag.

* A name runs to a blank, `/`, `>` or `=`; **an equals sign in front belongs to the name**.
* A value in quotes runs to the same quote, one without runs to a blank or `>`; so `a=b/` has the
  value `b/`.
* `a=>` has no value, and the tag ends there.
* A slash counts as the closing one only right in front of `>`.

Each step leaves a back part of its input (`Attr.read?_suffix`, `rest?_suffix`), which gives both
the end of the recursion and the spelling of the tag.
-/
import CodeTint.Markup.Token

namespace CodeTint.Markup

open CodeTint.Text

/-! ## 1. One attribute -/

/-- The characters that end a name in a tag. -/
def isNameEnd (c : Char) : Bool := isSpace c || c == '/' || c == '>'

/-- A character that a name goes on with. -/
def goesOnName (c : Char) : Bool := !(isNameEnd c || c == '=')

/-- A character that a value without quotes goes on with. -/
def goesOnValue (c : Char) : Bool := !(isSpace c || c == '>')

/-- A value that runs to the closing quote `q`, and what follows that quote. -/
def upToQuote? (q : Char) (s : List Char) : Option (List Char × List Char) :=
  match s.dropWhile (· != q) with
  | _ :: r => some (s.takeWhile (· != q), r)
  | [] => none

/-- **The value behind the equals sign**, with its quote, and what follows.  The blanks in front of
it are read already. -/
def valueBehind? : List Char → Option (List Char × List Char × List Char)
  | '"' :: s => (upToQuote? '"' s).map fun (v, r) => (['"'], v, r)
  | '\'' :: s => (upToQuote? '\'' s).map fun (v, r) => (['\''], v, r)
  | s => some ([], s.takeWhile goesOnValue, s.dropWhile goesOnValue)

/-- **The attribute whose name begins with `c`**, and what follows it.  An attribute without an
equals sign has no value, nor has one whose equals sign stands at the end of the tag. -/
def Attr.read? (c : Char) (s : List Char) : Option (Attr × List Char) :=
  let name := c :: s.takeWhile goesOnName
  let lead := (s.dropWhile goesOnName).takeWhile isSpace
  match (s.dropWhile goesOnName).dropWhile isSpace with
  | '=' :: s₂ =>
    match s₂.dropWhile isSpace with
    | '>' :: r => some (Attr.bare name, '>' :: r)
    | s₃ => (valueBehind? s₃).map fun (q, v, r) =>
        (⟨name, lead ++ '=' :: s₂.takeWhile isSpace ++ q, v, q⟩, r)
  | s₁ => some (Attr.bare name, s₁)

theorem upToQuote?_suffix {q : Char} {s v r : List Char} (h : upToQuote? q s = some (v, r)) :
    r <:+ s := by
  unfold upToQuote? at h
  split at h
  · next r' h' =>
    cases h
    exact (List.suffix_cons _ _).trans (h' ▸ List.dropWhile_suffix _)
  · cases h

theorem valueBehind?_suffix {s q v r : List Char} (h : valueBehind? s = some (q, v, r)) :
    r <:+ s := by
  unfold valueBehind? at h
  split at h
  · obtain ⟨⟨v', r'⟩, hv, he⟩ := Option.map_eq_some_iff.1 h
    cases he
    exact (upToQuote?_suffix hv).trans (List.suffix_cons _ _)
  · obtain ⟨⟨v', r'⟩, hv, he⟩ := Option.map_eq_some_iff.1 h
    cases he
    exact (upToQuote?_suffix hv).trans (List.suffix_cons _ _)
  · cases h
    exact List.dropWhile_suffix _

theorem Attr.read?_suffix {c : Char} {s r : List Char} {a : Attr}
    (h : Attr.read? c s = some (a, r)) : r <:+ s := by
  have drop (p : Char → Bool) (l : List Char) : l.dropWhile p <:+ l := List.dropWhile_suffix p
  have e₁ := (drop isSpace (s.dropWhile goesOnName)).trans (drop goesOnName s)
  simp only [Attr.read?] at h
  split at h
  · next s₂ h₁ =>
    have e₂ : s₂ <:+ s := (List.suffix_cons _ _).trans (h₁ ▸ e₁)
    have e₃ := (drop isSpace s₂).trans e₂
    split at h
    · next r' h₂ => cases h; exact h₂ ▸ e₃
    · obtain ⟨⟨q, v, r'⟩, hv, he⟩ := Option.map_eq_some_iff.1 h
      cases he
      exact (valueBehind?_suffix hv).trans e₃
  · cases h; exact e₁

/-! ## 2. The rest of a tag -/

/-- What a tag holds behind its name: its attributes, whether it closes itself, and the text that
follows the tag. -/
structure TagRest where
  attrs : List Attr
  selfClosing : Bool
  after : List Char

/-- **The tag from behind its name to its `>`.** -/
def rest? : List Char → Option TagRest
  | [] => none
  | '>' :: s => some ⟨[], false, s⟩
  | '/' :: '>' :: s => some ⟨[], true, s⟩
  | c :: s =>
    if isSpace c || c == '/' then rest? s
    else
      match _h : Attr.read? c s with
      | none => none
      | some (a, r) => (rest? r).map fun t => { t with attrs := a :: t.attrs }
termination_by s => s.length
decreasing_by
  · exact Nat.lt_succ_self _
  · exact Nat.lt_succ_of_le (Attr.read?_suffix _h).length_le

theorem rest?_suffix {s : List Char} {t : TagRest} (h : rest? s = some t) : t.after <:+ s := by
  fun_induction rest? s generalizing t with
  | case1 => cases h
  | case2 s => cases h; exact List.suffix_cons _ _
  | case3 s => cases h; exact (List.suffix_cons _ _).trans (List.suffix_cons _ _)
  | case4 c s _ _ _ ih => exact (ih h).trans (List.suffix_cons _ _)
  | case5 => cases h
  | case6 c s _ _ _ a r hr ih =>
    obtain ⟨u, hu, rfl⟩ := Option.map_eq_some_iff.1 h
    exact ((ih hu).trans (Attr.read?_suffix hr)).trans (List.suffix_cons _ _)

/-! ## 3. Spelling -/

/-- The front part of `s` that goes before its back part `r`. -/
def consumed (s r : List Char) : List Char := s.take (s.length - r.length)

theorem consumed_append {s r : List Char} (h : r <:+ s) : consumed s r ++ r = s := by
  obtain ⟨p, rfl⟩ := h
  simp [consumed]

end CodeTint.Markup
