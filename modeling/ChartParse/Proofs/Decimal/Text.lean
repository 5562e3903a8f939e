import ChartParse.Decimal.Binary64
import ChartParse.Proofs.Text.Lines

/-!
The texts of numbers have no line ends (`Decimal.endless_text`), whatever digits they are made of.
-/

namespace ChartParse

open Text

namespace Decimal

theorem endless_toDigits (number : Nat) : Endless (Nat.toDigits 10 number) := by
  intro c member
  have digit : c.isDigit = true := Nat.isDigit_of_mem_toDigits (by decide) (by decide) member
  constructor
  · rintro rfl
    cases digit
  · rintro rfl
    cases digit

theorem endless_zeros (count : Nat) : Endless (List.replicate count '0') := by
  intro c member
  rw [List.eq_of_mem_replicate member]
  decide

theorem endless_significant {digits : List Char} (endless : Endless digits) :
    Endless (significant digits) := by
  refine endless.of_subset fun c member => ?_
  have kept := (List.dropWhile_suffix _).subset (List.mem_reverse.1 member)
  exact List.mem_reverse.1 kept

theorem endless_positional {digits : List Char} (endless : Endless digits) (whole : Int) :
    Endless (positional digits whole) := by
  have padded : Endless (List.replicate (-whole).toNat '0' ++ digits) :=
    endless_append.2 ⟨endless_zeros _, endless⟩
  have front := padded.of_subset fun c => List.mem_of_mem_take (i := whole.toNat)
  have fraction := padded.of_subset fun c => List.mem_of_mem_drop (i := whole.toNat)
  unfold positional
  simp only [endless_append, endless_cons]
  refine ⟨?_, by decide, ?_⟩
  · split
    · decide
    · exact endless_append.2 ⟨front, endless_zeros _⟩
  · split
    · decide
    · exact fraction

theorem endless_scientific (layout : Layout) {digits : List Char} (endless : Endless digits)
    (exponent : Int) : Endless (layout.scientific digits exponent) := by
  have first := endless.of_subset fun c => List.mem_of_mem_take (i := 1)
  have fraction := endless.of_subset fun c => List.mem_of_mem_drop (i := 1)
  unfold Layout.scientific
  simp only [endless_append, endless_cons]
  refine ⟨⟨⟨first, ?_⟩, by decide, ?_, endless_zeros _⟩, endless_toDigits _⟩
  · split
    · exact endless_nil
    · exact endless_cons.2 ⟨by decide, fraction⟩
  · split <;> decide

theorem endless_write (layout : Layout) (number : Nat) (place : Int) :
    Endless (layout.write number place) := by
  have digits := endless_significant (endless_toDigits number)
  simp only [Layout.write]
  split
  · exact endless_positional digits _
  · exact endless_scientific layout digits _

/-- No number has a line end in its text. -/
theorem endless_text (x : Float) : Endless (text x).toList := by
  unfold text
  split
  · decide +kernel
  · split <;> decide +kernel
  · split <;> decide +kernel
  next negative magnitude _ =>
    have written := endless_write scoreLayout magnitude.shortest.1 magnitude.shortest.2
    simp only [signed, String.toList_ofList]
    split
    · exact endless_cons.2 ⟨by decide, written⟩
    · exact written

end Decimal

end ChartParse
