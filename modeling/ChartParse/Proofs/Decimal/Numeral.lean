import ChartParse.Decimal.Binary64
import ChartParse.Proofs.Text.Fields

/-!
Blanks before a number.

Not all blanks may stand before a number, but no number begins with a blank that may not. So what is
read as a number is still read as that number when the blanks before it are taken away
(`Decimal.ofText?_dropWhile`).
-/

namespace ChartParse

open Text

/-! ### The first character of a number -/

namespace Text

theorem trimBy_eq_cons {p : Char → Bool} {text rest : List Char} {c : Char}
    (first : text.dropWhile p = c :: rest) :
    trimBy p text = c :: (rest.reverse.dropWhile p).reverse := by
  have kept : p c = false := head?_dropWhile_not p text (by rw [first]; rfl)
  rw [trimBy, first, List.reverse_cons, List.dropWhile_append]
  split
  next bare =>
    rw [List.isEmpty_iff.1 bare]
    simp [kept]
  next => simp

/-- The blanks are no digits of any script. -/
theorem digitValue?_of_isBlank {c : Char} (blank : isBlank c = true) : digitValue? c = none := by
  have apart : ∀ range ∈ blankRanges, ∀ first ∈ zeroDigits,
      range.2 < first ∨ first + 9 < range.1 := by decide
  obtain ⟨range, listed, inside⟩ := List.any_eq_true.1 blank
  rw [digitValue?, Option.map_eq_none_iff, List.find?_eq_none]
  intro first zero
  have disjoint := apart range listed first zero
  simp only [Bool.and_eq_true, decide_eq_true_eq] at inside ⊢
  omega

theorem toLower_of_isBlank {c : Char} (blank : isBlank c = true) : c.toLower = c := by
  have apart : ∀ range ∈ blankRanges, range.2 < 65 ∨ 90 < range.1 := by decide
  obtain ⟨range, listed, inside⟩ := List.any_eq_true.1 blank
  have disjoint := apart range listed
  simp only [Bool.and_eq_true, decide_eq_true_eq] at inside
  refine dif_neg ?_
  rintro ⟨low, high⟩
  have above : 65 ≤ c.toNat := low
  have below : c.toNat ≤ 90 := high
  omega

theorem ne_of_isBlank {c d : Char} (blank : isBlank c = true) (plain : isBlank d = false) :
    c ≠ d := by
  rintro rfl
  rw [blank] at plain
  contradiction

end Text

namespace Numeral

theorem takeSign_of_isBlank {c : Char} (blank : isBlank c = true) (rest : List Char) :
    takeSign (c :: rest) = (false, c :: rest) := by
  rw [takeSign]
  · rintro _ ⟨⟩
    exact ne_of_isBlank blank (by decide) rfl
  · rintro _ ⟨⟩
    exact ne_of_isBlank blank (by decide) rfl

theorem takeDigits_of_isBlank {c : Char} (blank : isBlank c = true) (rest : List Char) :
    takeDigits (c :: rest) = ([], c :: rest) := by
  simp [takeDigits, takeDigitsAfter, digitValue?_of_isBlank blank]

theorem readUnsigned_of_isBlank {c : Char} (blank : isBlank c = true) (negative : Bool)
    (rest : List Char) : readUnsigned negative (c :: rest) = none := by
  have point : c ≠ '.' := ne_of_isBlank blank (by decide)
  simp [readUnsigned, takeDigits_of_isBlank blank, point]

/-- No number begins with a blank, be it one that may stand before a number or one that may not. -/
theorem ofText?_of_isBlank {text rest : List Char} {c : Char}
    (first : trimBy isMargin text = c :: rest) (blank : isBlank c = true) :
    ofText? text = none := by
  have unnamed (name : String) {d : Char} {others : List Char} (spelt : name.toList = d :: others)
      (plain : isBlank d = false) : String.ofList ((c :: rest).map Char.toLower) ≠ name := by
    rintro rfl
    rw [String.toList_ofList, List.map_cons, toLower_of_isBlank blank] at spelt
    exact ne_of_isBlank blank plain (List.cons.inj spelt).1
  rw [ofText?, first, takeSign_of_isBlank blank]
  simp only
  rw [if_neg, if_neg, readUnsigned_of_isBlank blank]
  · exact unnamed "nan" rfl (by decide)
  · rw [Bool.or_eq_true, decide_eq_true_eq, decide_eq_true_eq]
    exact not_or.2 ⟨unnamed "inf" rfl (by decide), unnamed "infinity" rfl (by decide)⟩

theorem isBlank_of_isMargin {c : Char} (margin : isMargin c = true) : isBlank c = true :=
  (Bool.and_eq_true_iff.1 margin).1

theorem ofText?_dropWhile {text : List Char} {numeral : Numeral}
    (read : ofText? text = some numeral) :
    text.dropWhile isBlank ≠ [] ∧ ofText? (text.dropWhile isBlank) = some numeral := by
  cases first : text.dropWhile isMargin with
  | nil =>
    have bare : trimBy isMargin text = [] := by rw [trimBy, first]; rfl
    rw [ofText?, bare] at read
    cases read
  | cons c rest =>
    have trimmed := trimBy_eq_cons first
    cases blank : isBlank c with
    | true =>
      rw [ofText?_of_isBlank trimmed blank] at read
      cases read
    | false =>
      have plain : isMargin c = false := by rw [isMargin, blank, Bool.false_and]
      -- The blanks before the number may all stand there.
      have whole : text.dropWhile isBlank = c :: rest := by
        rw [← List.takeWhile_append_dropWhile (p := isMargin) (l := text), first,
          dropWhile_append_of_all fun d member =>
            isBlank_of_isMargin (List.mem_takeWhile_imp member)]
        exact List.dropWhile_cons_of_neg (by simp [blank])
      have same : trimBy isMargin (c :: rest) = trimBy isMargin text := by
        rw [trimmed, trimBy_eq_cons (List.dropWhile_cons_of_neg (by simp [plain]))]
      rw [whole]
      refine ⟨List.cons_ne_nil _ _, ?_⟩
      rw [← read, ofText?, ofText?, same]

end Numeral

theorem Decimal.ofText?_dropWhile {text : List Char} {x : Float}
    (read : Decimal.ofText? text = some x) :
    text.dropWhile isBlank ≠ [] ∧ Decimal.ofText? (text.dropWhile isBlank) = some x := by
  obtain ⟨numeral, known, value⟩ := Option.map_eq_some_iff.1 read
  obtain ⟨nonempty, same⟩ := Numeral.ofText?_dropWhile known
  exact ⟨nonempty, Option.map_eq_some_iff.2 ⟨numeral, same, value⟩⟩

end ChartParse
