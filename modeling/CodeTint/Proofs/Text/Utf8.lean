/-
# What was read strictly is written back as it was

The strict reader takes no overlong form and no surrogate, so the character that it reads from some
bytes has these bytes and no others (`encodeChar_of_front`).  Hence a text that was read from a file
takes exactly the bytes of the file (`encode_of_decode?`), and only an empty text takes none.
-/
import CodeTint.Text.Utf8

namespace CodeTint.Text.Utf8

/-! ## 1. One character -/

/-- The bytes of a character by its number. -/
theorem encodeChar_ofNat {v : Nat} (hv : v.isValidChar) :
    String.utf8EncodeChar (Char.ofNat v)
      = if v ≤ 0x7F then [UInt8.ofNat v]
        else if v ≤ 0x7FF then
          [UInt8.ofNat (v / 64 % 32 + 0xC0), UInt8.ofNat (v % 64 + 0x80)]
        else if v ≤ 0xFFFF then
          [UInt8.ofNat (v / 4096 % 16 + 0xE0), UInt8.ofNat (v / 64 % 64 + 0x80),
            UInt8.ofNat (v % 64 + 0x80)]
        else
          [UInt8.ofNat (v / 262144 % 8 + 0xF0), UInt8.ofNat (v / 4096 % 64 + 0x80),
            UInt8.ofNat (v / 64 % 64 + 0x80), UInt8.ofNat (v % 64 + 0x80)] := by
  have h : (Char.ofNat v).val.toNat = v := by
    rw [Char.ofNat, dif_pos hv]
    rfl
  rw [String.utf8EncodeChar, h]

/-- A byte by its number. -/
theorem ofNat_eq {n : Nat} {b : UInt8} (h : n = b.toNat) : UInt8.ofNat n = b := by
  rw [h, UInt8.ofNat_toNat]

theorem isTail_iff {t : UInt8} : isTail t = true ↔ 0x80 ≤ t.toNat ∧ t.toNat ≤ 0xBF := by
  simp [isTail, UInt8.le_iff_toNat_le]

theorem secondOfThree_iff {b t : UInt8} : secondOfThree b t = true ↔
    (if b.toNat = 0xE0 then 0xA0 else 0x80) ≤ t.toNat ∧
      t.toNat ≤ if b.toNat = 0xED then 0x9F else 0xBF := by
  simp only [secondOfThree, beq_iff_eq, ← UInt8.toNat_inj]
  split
  · next h => simp [UInt8.le_iff_toNat_le, h]
  · next h =>
    split <;> simp_all [isTail, UInt8.le_iff_toNat_le]

theorem secondOfFour_iff {b t : UInt8} : secondOfFour b t = true ↔
    (if b.toNat = 0xF0 then 0x90 else 0x80) ≤ t.toNat ∧
      t.toNat ≤ if b.toNat = 0xF4 then 0x8F else 0xBF := by
  simp only [secondOfFour, beq_iff_eq, ← UInt8.toNat_inj]
  split
  · next h => simp [UInt8.le_iff_toNat_le, h]
  · next h =>
    split <;> simp_all [isTail, UInt8.le_iff_toNat_le]

theorem encodeChar_one {b : UInt8} (hb : b.toNat < 0x80) :
    String.utf8EncodeChar (Char.ofNat b.toNat) = [b] := by
  rw [encodeChar_ofNat (Or.inl (by omega)), if_pos (by omega), UInt8.ofNat_toNat]

theorem encodeChar_two {b t : UInt8} (hb : 0xC2 ≤ b.toNat ∧ b.toNat ≤ 0xDF)
    (ht : 0x80 ≤ t.toNat ∧ t.toNat ≤ 0xBF) :
    String.utf8EncodeChar (Char.ofNat (b.toNat % 32 * 64 + tailBits t)) = [b, t] := by
  rw [tailBits]
  generalize hv : b.toNat % 32 * 64 + t.toNat % 64 = v
  rw [encodeChar_ofNat (Or.inl (by omega)), if_neg (by omega), if_pos (by omega),
    ofNat_eq (b := b) (by omega), ofNat_eq (b := t) (by omega)]

theorem encodeChar_three {b t u : UInt8} (hb : 0xE0 ≤ b.toNat ∧ b.toNat ≤ 0xEF)
    (ht : (if b.toNat = 0xE0 then 0xA0 else 0x80) ≤ t.toNat ∧
      t.toNat ≤ if b.toNat = 0xED then 0x9F else 0xBF)
    (hu : 0x80 ≤ u.toNat ∧ u.toNat ≤ 0xBF) :
    String.utf8EncodeChar
        (Char.ofNat ((b.toNat % 16 * 64 + tailBits t) * 64 + tailBits u)) = [b, t, u] := by
  rw [tailBits, tailBits]
  generalize hv : (b.toNat % 16 * 64 + t.toNat % 64) * 64 + u.toNat % 64 = v
  have hvalid : v.isValidChar := by
    rw [Nat.isValidChar]
    split at ht <;> split at ht <;> omega
  have hlow : 0x7FF < v := by split at ht <;> split at ht <;> omega
  rw [encodeChar_ofNat hvalid, if_neg (by omega), if_neg (by omega), if_pos (by omega),
    ofNat_eq (b := b) (by omega), ofNat_eq (b := t) (by split at ht <;> split at ht <;> omega),
    ofNat_eq (b := u) (by omega)]

theorem encodeChar_four {b t u w : UInt8} (hb : 0xF0 ≤ b.toNat ∧ b.toNat ≤ 0xF4)
    (ht : (if b.toNat = 0xF0 then 0x90 else 0x80) ≤ t.toNat ∧
      t.toNat ≤ if b.toNat = 0xF4 then 0x8F else 0xBF)
    (hu : 0x80 ≤ u.toNat ∧ u.toNat ≤ 0xBF) (hw : 0x80 ≤ w.toNat ∧ w.toNat ≤ 0xBF) :
    String.utf8EncodeChar
        (Char.ofNat (((b.toNat % 8 * 64 + tailBits t) * 64 + tailBits u) * 64 + tailBits w))
      = [b, t, u, w] := by
  rw [tailBits, tailBits, tailBits]
  generalize hv :
    ((b.toNat % 8 * 64 + t.toNat % 64) * 64 + u.toNat % 64) * 64 + w.toNat % 64 = v
  have hvalid : v.isValidChar := by
    rw [Nat.isValidChar]
    split at ht <;> split at ht <;> omega
  have hlow : 0xFFFF < v := by split at ht <;> split at ht <;> omega
  have hsecond : v / 4096 % 64 + 0x80 = t.toNat := by split at ht <;> split at ht <;> omega
  rw [encodeChar_ofNat hvalid, if_neg (by omega), if_neg (by omega), if_neg (by omega),
    ofNat_eq (b := b) (by omega), ofNat_eq hsecond, ofNat_eq (b := u) (by omega),
    ofNat_eq (b := w) (by omega)]

/-- **The character at the front has the bytes that it was read from.** -/
theorem encodeChar_of_front {b : UInt8} {r rest : List UInt8} {c : Char}
    (h : front b r = .char c rest) : String.utf8EncodeChar c ++ rest = b :: r := by
  have between {m n : UInt8} (hb : (decide (m ≤ b) && decide (b ≤ n)) = true) :
      m.toNat ≤ b.toNat ∧ b.toNat ≤ n.toNat := by
    simpa [UInt8.le_iff_toNat_le] using hb
  revert h
  fun_cases front b r with
  | case1 _ h1 =>
    rintro ⟨⟩
    rw [encodeChar_one (by simpa [UInt8.lt_iff_toNat_lt] using h1)]
    rfl
  | case2 _ h2 t r₁ ht =>
    rintro ⟨⟩
    rw [encodeChar_two (between h2) (isTail_iff.mp ht)]
    rfl
  | case5 _ _ h3 t ht u r₂ hu =>
    rintro ⟨⟩
    rw [encodeChar_three (between h3) (secondOfThree_iff.mp ht) (isTail_iff.mp hu)]
    rfl
  | case10 _ _ _ h4 t ht u hu w r₃ hw =>
    rintro ⟨⟩
    rw [encodeChar_four (between h4) (secondOfFour_iff.mp ht) (isTail_iff.mp hu)
      (isTail_iff.mp hw)]
    rfl
  | _ => intro h; cases h

/-! ## 2. Whole texts -/

/-- **A text that was read strictly takes the bytes that it was read from.** -/
theorem encode_of_decode? {bytes : List UInt8} {s : List Char} (h : decode? bytes = some s) :
    encode s = bytes := by
  fun_induction decode? bytes generalizing s with
  | case1 =>
    cases h
    rfl
  | case2 b r c rest hf ih =>
    obtain ⟨t, ht, rfl⟩ := Option.map_eq_some_iff.mp h
    rw [encode, List.flatMap_cons, ← encode, ih ht]
    exact encodeChar_of_front hf
  | case3 => cases h

/-- Only the empty text takes no bytes. -/
theorem encode_eq_nil {s : List Char} : encode s = [] ↔ s = [] := by
  rw [encode, List.flatMap_eq_nil_iff]
  constructor
  · intro h
    cases s with
    | nil => rfl
    | cons c s => exact absurd (h c List.mem_cons_self) String.utf8EncodeChar_ne_nil
  · rintro rfl
    simp

end CodeTint.Text.Utf8
