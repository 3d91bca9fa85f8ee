/-
# What of an output gets out

An outlet may take only a part of what is written to it, and that is noticed (`write_snd_iff`).  But of
what is printed the last line waits in a buffer.  So **printing goes well, as far as the program is told,
just if all gets out or the last line is lost** (`print_snd_iff`), and a last line can only be lost if it
is shorter than the buffer (`LosesLastLine`).
-/
import CodeTint.Host.Outlet
import Mathlib.Data.List.Infix

namespace CodeTint.Outlet

variable {o : Outlet} {taken bytes : List UInt8}

theorem lines_append_lastLine (bytes : List UInt8) : lines bytes ++ lastLine bytes = bytes := by
  rw [lines, lastLine, ← List.reverse_append, List.takeWhile_append_dropWhile, List.reverse_reverse]

/-! ## 1. Writing -/

/-- What gets out is the front of what was written. -/
theorem fst_write_isPrefix (o : Outlet) (taken bytes : List UInt8) :
    (o.write taken bytes).1 <+: taken ++ bytes :=
  (List.prefix_append_right_inj taken).mpr (List.take_prefix _ bytes)

/-- **Writing goes well just if all gets out.** -/
theorem write_snd_iff : (o.write taken bytes).2 = true ↔ (o.write taken bytes).1 = taken ++ bytes := by
  show decide (bytes.length ≤ o.takes taken bytes) = true
    ↔ taken ++ bytes.take (o.takes taken bytes) = taken ++ bytes
  rw [decide_eq_true_eq, List.append_right_inj, List.take_eq_self_iff]

theorem write_of_snd (h : (o.write taken bytes).2 = true) :
    o.write taken bytes = (taken ++ bytes, true) :=
  Prod.ext (write_snd_iff.mp h) h

/-! ## 2. Printing -/

/-- **The last line is lost**: all before it gets out, it fits into the buffer, and then it is not taken
as a whole. -/
structure LosesLastLine (o : Outlet) (bytes : List UInt8) : Prop where
  lines : (o.write [] (lines bytes)).2 = true
  short : (lastLine bytes).length < bufferSize
  last : (o.write (Outlet.lines bytes) (lastLine bytes)).2 = false

/-- What is printed once the lines are out. -/
theorem print_of_lines (h : (o.write [] (lines bytes)).2 = true) : o.print bytes
    = ((o.write (lines bytes) (lastLine bytes)).1,
        (o.write (lines bytes) (lastLine bytes)).2 || (lastLine bytes).length < bufferSize) := by
  rw [print, write_of_snd h]
  rfl

/-- What is printed if the lines do not get out. -/
theorem print_of_not_lines (h : (o.write [] (lines bytes)).2 = false) :
    o.print bytes = ((o.write [] (lines bytes)).1, false) := by
  rw [print]
  split
  · next taken hw => rw [hw]
  · next taken hw => rw [hw] at h; cases h

/-- What gets out is the front of what was printed. -/
theorem fst_print_isPrefix (o : Outlet) (bytes : List UInt8) : (o.print bytes).1 <+: bytes := by
  have hall := lines_append_lastLine bytes
  cases h : (o.write [] (lines bytes)).2 with
  | false =>
    rw [print_of_not_lines h]
    exact (fst_write_isPrefix o [] _).trans ⟨lastLine bytes, hall⟩
  | true =>
    rw [print_of_lines h]
    have hfront := fst_write_isPrefix o (lines bytes) (lastLine bytes)
    rwa [hall] at hfront

/-- **All that is printed gets out** just if the lines are taken and then the last line. -/
theorem print_fst_iff : (o.print bytes).1 = bytes ↔
    (o.write [] (lines bytes)).2 = true ∧ (o.write (lines bytes) (lastLine bytes)).2 = true := by
  cases h : (o.write [] (lines bytes)).2 with
  | true => rw [print_of_lines h, write_snd_iff, lines_append_lastLine, and_iff_right rfl]
  | false =>
    refine iff_of_false (fun hall => ?_) (by simp)
    -- what is not taken of the lines is missing at the end
    rw [print_of_not_lines h] at hall
    have hfront : (o.write [] (lines bytes)).1 <+: lines bytes := fst_write_isPrefix o [] _
    have hlines : lines bytes <+: (o.write [] (lines bytes)).1 := by
      dsimp only at hall
      rw [hall]
      exact ⟨lastLine bytes, lines_append_lastLine bytes⟩
    rw [write_snd_iff.mpr (hfront.eq_of_length_le hlines.length_le)] at h
    cases h

/-- **Printing goes well, as far as the program is told**, just if all gets out or the last line is
lost. -/
theorem print_snd_iff : (o.print bytes).2 = true ↔
    (o.print bytes).1 = bytes ∨ o.LosesLastLine bytes := by
  rw [print_fst_iff]
  cases h : (o.write [] (lines bytes)).2 with
  | false =>
    rw [print_of_not_lines h]
    refine iff_of_false Bool.false_ne_true ?_
    rintro (hall | hlost)
    · cases hall.1
    · cases h.symm.trans hlost.lines
  | true =>
    rw [print_of_lines h, Bool.or_eq_true, decide_eq_true_eq]
    constructor
    · intro htold
      cases hlast : (o.write (lines bytes) (lastLine bytes)).2 with
      | true => exact .inl ⟨rfl, rfl⟩
      | false => exact .inr ⟨h, htold.resolve_left (by rw [hlast]; decide), hlast⟩
    · rintro (hall | hlost)
      · exact .inl hall.2
      · exact .inr hlost.short

theorem LosesLastLine.print_ne (h : o.LosesLastLine bytes) : (o.print bytes).1 ≠ bytes := by
  intro hall
  cases h.last.symm.trans (print_fst_iff.mp hall).2

end CodeTint.Outlet
