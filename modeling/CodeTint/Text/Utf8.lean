/-
# UTF-8, read strictly and read with repairs

A file is a sequence of bytes and a document is a sequence of characters.  `encode` goes from the
second to the first.  Two readers go back:

* `decode?` answers `none` as soon as a byte is out of place;
* `repair` never fails: each **maximal part of a character that breaks off** becomes one U+FFFD,
  and reading goes on at the byte that broke it.

Both take the same step, `front`, which looks at the bytes of one character and leaves a strictly
shorter rest (`front_rest_lt`), so both end.
-/

namespace CodeTint.Text.Utf8

/-! ## 1. One character -/

/-- The first character of a sequence of bytes, or the part of one that breaks off, with the bytes
that follow it. -/
inductive Front where
  | char (c : Char) (rest : List UInt8)
  | broken (rest : List UInt8)

/-- The bytes after the front character. -/
def Front.rest : Front → List UInt8
  | .char _ r => r
  | .broken r => r

/-- A continuation byte, `10xxxxxx`. -/
def isTail (b : UInt8) : Bool := 0x80 ≤ b && b ≤ 0xBF

/-- The six bits that a continuation byte carries. -/
def tailBits (b : UInt8) : Nat := b.toNat % 64

/-- What a lead byte of three bytes allows as the second: no overlong form and no surrogate. -/
def secondOfThree (b t : UInt8) : Bool :=
  if b == 0xE0 then 0xA0 ≤ t && t ≤ 0xBF
  else if b == 0xED then 0x80 ≤ t && t ≤ 0x9F
  else isTail t

/-- What a lead byte of four bytes allows as the second: no overlong form, nothing past U+10FFFF. -/
def secondOfFour (b t : UInt8) : Bool :=
  if b == 0xF0 then 0x90 ≤ t && t ≤ 0xBF
  else if b == 0xF4 then 0x80 ≤ t && t ≤ 0x8F
  else isTail t

/-- **The front of `b :: r`.**  A lead byte takes continuation bytes as long as they fit; what it
took before the first misfit breaks off as one part. -/
def front (b : UInt8) (r : List UInt8) : Front :=
  if b < 0x80 then .char (Char.ofNat b.toNat) r
  else if 0xC2 ≤ b && b ≤ 0xDF then
    match r with
    | t :: r₁ =>
      if isTail t then .char (Char.ofNat (b.toNat % 32 * 64 + tailBits t)) r₁ else .broken r
    | [] => .broken r
  else if 0xE0 ≤ b && b ≤ 0xEF then
    match r with
    | t :: r₁ =>
      if secondOfThree b t then
        match r₁ with
        | u :: r₂ =>
          if isTail u then
            .char (Char.ofNat ((b.toNat % 16 * 64 + tailBits t) * 64 + tailBits u)) r₂
          else .broken r₁
        | [] => .broken r₁
      else .broken r
    | [] => .broken r
  else if 0xF0 ≤ b && b ≤ 0xF4 then
    match r with
    | t :: r₁ =>
      if secondOfFour b t then
        match r₁ with
        | u :: r₂ =>
          if isTail u then
            match r₂ with
            | v :: r₃ =>
              if isTail v then
                .char (Char.ofNat
                  (((b.toNat % 8 * 64 + tailBits t) * 64 + tailBits u) * 64 + tailBits v)) r₃
              else .broken r₂
            | [] => .broken r₂
          else .broken r₁
        | [] => .broken r₁
      else .broken r
    | [] => .broken r
  else .broken r

/-- A front takes at least the lead byte. -/
theorem front_rest_le (b : UInt8) (r : List UInt8) : (front b r).rest.length ≤ r.length := by
  unfold front
  repeat' split
  all_goals simp [Front.rest]
  all_goals omega

theorem front_rest_lt (b : UInt8) (r : List UInt8) :
    (front b r).rest.length < (b :: r).length :=
  Nat.lt_succ_of_le (front_rest_le b r)

/-! ## 2. Whole texts -/

/-- The bytes of a text. -/
def encode (s : List Char) : List UInt8 := s.flatMap String.utf8EncodeChar

/-- How many bytes a text takes. -/
def size (s : List Char) : Nat := s.foldr (fun c n => c.utf8Size + n) 0

/-- **The text of well-formed bytes**, none if a byte is out of place. -/
def decode? : List UInt8 → Option (List Char)
  | [] => some []
  | b :: r =>
    match _h : front b r with
    | .char c rest => (decode? rest).map (c :: ·)
    | .broken _ => none
termination_by bytes => bytes.length
decreasing_by have := front_rest_lt b r; rw [_h] at this; exact this

/-- **The text of any bytes**, with U+FFFD for each part that breaks off. -/
def repair : List UInt8 → List Char
  | [] => []
  | b :: r =>
    match _h : front b r with
    | .char c rest => c :: repair rest
    | .broken rest => '\uFFFD' :: repair rest
termination_by bytes => bytes.length
decreasing_by
  all_goals
    have := front_rest_lt b r
    rw [_h] at this
    exact this

end CodeTint.Text.Utf8
