/-
# What is encoded reads back as it was

`encode` writes three characters as references and all others as they are.  Reading gives the text
back (`decode_encode`), and since no `<` is left, **no markup begins in what is encoded**
(`lt_not_mem_encode`).
-/
import CodeTint.Markup.Entity

namespace CodeTint.Markup.Entity

/-! ## 1. Reading -/

/-- **A reference is read as what it stands for.** -/
theorem decode_reference {name text : List Char} (hname : ∀ c ∈ name, c ≠ '&' ∧ c ≠ ';')
    (hvalue : value? name = some text) (rest : List Char) :
    decode ('&' :: (name ++ ';' :: rest)) = text ++ decode rest := by
  have hp : ∀ c ∈ name, (c != '&' && c != ';') = true := fun c hc => by simp [hname c hc]
  have hs : stretch (name ++ ';' :: rest) = name := by
    rw [stretch, List.takeWhile_append_of_pos hp, List.takeWhile_cons_of_neg (by decide),
      List.append_nil]
  have ha : afterStretch (name ++ ';' :: rest) = ';' :: rest := by
    rw [afterStretch, List.dropWhile_append_of_pos hp, List.dropWhile_cons_of_neg (by decide)]
  rw [decode]
  split
  · next rest' h =>
    rw [ha] at h
    cases h
    rw [hs, hvalue]
  · next h => exact absurd ha (h rest)

/-- Other characters stand for themselves. -/
theorem decode_cons {c : Char} (hc : c ≠ '&') (rest : List Char) :
    decode (c :: rest) = c :: decode rest := by
  rw [decode]
  intro h
  exact hc h

/-! ## 2. Writing -/

@[simp] theorem encode_nil : encode [] = [] := rfl

@[simp] theorem encode_append (s t : List Char) : encode (s ++ t) = encode s ++ encode t := by
  rw [encode, encode, encode, List.flatMap_append]

theorem encode_cons (c : Char) (s : List Char) : encode (c :: s) = encodeChar c ++ encode s := by
  rw [encode, encode, List.flatMap_cons]

/-- **Nothing that is encoded begins markup.** -/
theorem lt_not_mem_encode (s : List Char) : '<' ∉ encode s := by
  intro h
  obtain ⟨c, -, hc⟩ := List.mem_flatMap.mp h
  unfold encodeChar at hc
  split at hc
  · revert hc; decide
  · revert hc; decide
  · revert hc; decide
  · next hne _ => exact hne (List.mem_singleton.mp hc).symm

theorem decode_encodeChar (c : Char) (rest : List Char) :
    decode (encodeChar c ++ rest) = c :: decode rest := by
  unfold encodeChar
  split
  · exact @decode_reference "amp".toList _ (by simp) rfl rest
  · exact @decode_reference "lt".toList _ (by simp) rfl rest
  · exact @decode_reference "gt".toList _ (by simp) rfl rest
  · next hne _ _ => exact decode_cons hne rest

/-- **What is encoded reads back as it was.** -/
theorem decode_encode (s : List Char) : decode (encode s) = s := by
  induction s with
  | nil => rw [encode_nil, decode]
  | cons c s ih => rw [encode_cons, decode_encodeChar, ih]

end CodeTint.Markup.Entity
