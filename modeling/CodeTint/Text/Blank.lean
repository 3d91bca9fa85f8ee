/-
# Blank characters, and the ways text is trimmed and cut at them

Two classes of blank characters are in use, and they are never mixed up.

* `isBlank` is the Unicode property White_Space.  Trimming goes by it, so a no-break space at the
  end of a line is as blank as an ordinary one.
* `isSpace` is the five ASCII characters that separate tokens in markup.  Cutting a `class` value
  into words goes by it, and a no-break space is part of a word there.

Every ASCII separator is blank (`isBlank_of_isSpace`), the converse fails.
-/

namespace CodeTint.Text

/-! ## 1. The two classes -/

/-- **The Unicode property White_Space.** -/
def isBlank (c : Char) : Bool :=
  let n := c.toNat
  (9 ≤ n && n ≤ 13) || n == 0x20 || n == 0x85 || n == 0xA0 || n == 0x1680 ||
    (0x2000 ≤ n && n ≤ 0x200A) || n == 0x2028 || n == 0x2029 || n == 0x202F || n == 0x205F ||
    n == 0x3000

/-- **The separators of markup**: space, tab, line feed, form feed, carriage return. -/
def isSpace (c : Char) : Bool :=
  c == ' ' || c == '\t' || c == '\n' || c == '\x0c' || c == '\r'

theorem isBlank_of_isSpace {c : Char} (h : isSpace c = true) : isBlank c = true := by
  simp only [isSpace, Bool.or_eq_true, beq_iff_eq] at h
  rcases h with (((rfl | rfl) | rfl) | rfl) | rfl <;> rfl

/-! ## 2. Trimming -/

/-- The text without its leading blanks. -/
def trimStart (s : List Char) : List Char := s.dropWhile isBlank

/-- The text without its trailing blanks. -/
def trimEnd (s : List Char) : List Char := (s.reverse.dropWhile isBlank).reverse

/-- The text without the blanks on either side. -/
def trim (s : List Char) : List Char := trimEnd (trimStart s)

/-- Whether the text is blank all through; the empty text is. -/
def allBlank (s : List Char) : Bool := s.all isBlank

@[simp] theorem trimEnd_nil : trimEnd [] = [] := rfl

/-- What `trimEnd` keeps is a front part of the text. -/
theorem trimEnd_prefix (s : List Char) : trimEnd s <+: s := by
  have h := List.dropWhile_suffix isBlank (l := s.reverse)
  simpa [trimEnd] using List.reverse_prefix.2 h

/-- What `trimStart` keeps is a back part of the text. -/
theorem trimStart_suffix (s : List Char) : trimStart s <:+ s :=
  List.dropWhile_suffix isBlank

/-! ## 3. Words -/

/-- **The words of a text**: its longest stretches without a separator, in order. -/
def words (s : List Char) : List (List Char) :=
  (s.splitOnP isSpace).filter (fun w => !w.isEmpty)

/-- The text after `lead`, if it begins with it. -/
def after? (lead s : List Char) : Option (List Char) :=
  if lead.isPrefixOf s then some (s.drop lead.length) else none

theorem after?_append (lead r : List Char) : after? lead (lead ++ r) = some r := by
  rw [after?, if_pos (List.isPrefixOf_iff_prefix.2 (List.prefix_append _ _)), List.drop_left]

theorem after?_eq_some {lead s r : List Char} : after? lead s = some r ↔ s = lead ++ r := by
  constructor
  · intro h
    rw [after?] at h
    split at h
    · next hp =>
      cases h
      exact (List.prefix_iff_eq_append.1 (List.isPrefixOf_iff_prefix.1 hp)).symm
    · cases h
  · rintro rfl
    exact after?_append lead r

/-- A text that begins otherwise has nothing after the lead. -/
theorem after?_cons_of_ne {c d : Char} (h : c ≠ d) (lead s : List Char) :
    after? (d :: lead) (c :: s) = none := by
  rw [after?, List.isPrefixOf, beq_false_of_ne (Ne.symm h)]
  rfl

/-! ## 4. ASCII case -/

/-- The text with the ASCII capitals in lower case and all else as it is. -/
def lower (s : List Char) : List Char := s.map Char.toLower

theorem isLower_iff {c : Char} : c.isLower = true ↔ 'a'.val ≤ c.val ∧ c.val ≤ 'z'.val := by
  change (decide ('a'.val ≤ c.val) && decide (c.val ≤ 'z'.val)) = true ↔ _
  rw [Bool.and_eq_true, decide_eq_true_eq, decide_eq_true_eq]

theorem isAlpha_of_isLower {c : Char} (h : c.isLower = true) : c.isAlpha = true :=
  Bool.or_eq_true_iff.mpr (Or.inr h)

/-- Lower case changes only letters, and makes them small ones. -/
theorem toLower_cases (c : Char) :
    c.toLower = c ∨ c.isAlpha = true ∧ c.toLower.isLower = true := by
  by_cases h : c.val ≥ 'A'.val ∧ c.val ≤ 'Z'.val
  · right
    have hupper : c.isUpper = true := decide_eq_true h
    have hval : c.toLower.val = c.val + ('a'.val - 'A'.val) := congrArg Char.val (dif_pos h)
    refine ⟨Bool.or_eq_true_iff.mpr (Or.inl hupper), isLower_iff.mpr ?_⟩
    rw [hval]
    simp only [ge_iff_le, UInt32.le_iff_toNat_le, UInt32.toNat_add] at h ⊢
    grind
  · exact Or.inl (dif_neg h)

theorem toLower_of_isLower {c : Char} (h : c.isLower = true) : c.toLower = c := by
  refine dif_neg fun hupper => ?_
  obtain ⟨hlow, -⟩ := isLower_iff.mp h
  simp only [ge_iff_le, UInt32.le_iff_toNat_le] at hlow hupper
  grind

@[simp] theorem lower_lower (s : List Char) : lower (lower s) = lower s := by
  rw [lower, lower, List.map_map]
  refine List.map_congr_left fun c _ => ?_
  rcases toLower_cases c with h | ⟨-, h⟩
  · rw [Function.comp, h, h]
  · exact toLower_of_isLower h

end CodeTint.Text
