import Mathlib

/-!
The order of doubles.

A double that is no NaN has a rank: the infinities are first and last, the negative numbers come
before the zeros and the positive ones after them, and numbers of one sign are ranked by exponent
and then by mantissa. One double is less than another just if both have ranks and its rank is less
(`lt_iff`). So a NaN is less than nothing and nothing is less than it, and the two zeros stand in
one place.

Main statements: the instance, by which doubles are strictly ordered, NaN or not; and
`lt_or_lt_of_lt`, by which one that is no NaN is not beside two of which one is less than the other.
-/

namespace ChartParse.Decimal

open Float.Model (UnpackedFloat)

/-- Where a double stands among all; a NaN stands nowhere. -/
def rank? : UnpackedFloat → Option (Int ×ₗ Int ×ₗ Int)
  | .notANumber => none
  | .infinity .negative => some (toLex (-2, toLex (0, 0)))
  | .finite .negative mantissa exponent _ => some (toLex (-1, toLex (-exponent, -mantissa)))
  | .zero _ => some (toLex (0, toLex (0, 0)))
  | .finite .positive mantissa exponent _ => some (toLex (1, toLex (exponent, mantissa)))
  | .infinity .positive => some (toLex (2, toLex (0, 0)))

theorem rank?_eq_none_iff {x : UnpackedFloat} : rank? x = none ↔ x.isNaN = true := by
  rcases x with (_ | _) | _ | _ | ⟨_ | _, _, _, _⟩ <;> simp [rank?]

/-- What the comparison of numbers of one sign comes to. -/
theorem then_compare_eq_lt_iff {exponent other : Int} {mantissa second : Nat} :
    (compare exponent other).then (compare mantissa second) = .lt ↔
      exponent < other ∨ exponent = other ∧ mantissa < second := by
  rw [Ordering.then_eq_lt, compare_lt_iff_lt, compare_eq_iff_eq, compare_lt_iff_lt]

theorem then_compare_eq_gt_iff {exponent other : Int} {mantissa second : Nat} :
    (compare exponent other).then (compare mantissa second) = .gt ↔
      other < exponent ∨ exponent = other ∧ second < mantissa := by
  rw [Ordering.then_eq_gt, compare_gt_iff_gt, compare_eq_iff_eq, compare_gt_iff_gt]

theorem then_compare_isLE_iff {exponent other : Int} {mantissa second : Nat} :
    ((compare exponent other).then (compare mantissa second)).isLE = true ↔
      exponent < other ∨ exponent = other ∧ mantissa ≤ second := by
  rw [Ordering.isLE_then_iff_or, Std.isLE_compare, compare_lt_iff_lt, compare_eq_iff_eq]

theorem then_compare_isGE_iff {exponent other : Int} {mantissa second : Nat} :
    ((compare exponent other).then (compare mantissa second)).isGE = true ↔
      other < exponent ∨ exponent = other ∧ second ≤ mantissa := by
  rw [← Ordering.isLE_swap, Ordering.swap_then, ← Std.OrientedOrd.eq_swap,
    ← Std.OrientedOrd.eq_swap, then_compare_isLE_iff, eq_comm]

theorem unpacked_lt_iff {x y : UnpackedFloat} :
    x.lt y = true ↔ ∃ low ∈ rank? x, ∃ high ∈ rank? y, low < high := by
  -- The kinds of doubles two by two. The first coordinates of ranks are equal just for one kind.
  rcases x with (_ | _) | _ | _ | ⟨_ | _, _, _, _⟩ <;>
    rcases y with (_ | _) | _ | _ | ⟨_ | _, _, _, _⟩ <;>
    simp [rank?, UnpackedFloat.lt, UnpackedFloat.compare, Prod.Lex.toLex_lt_toLex,
      then_compare_eq_lt_iff, then_compare_eq_gt_iff]
  rfl

theorem unpacked_le_iff {x y : UnpackedFloat} :
    x.le y = true ↔ ∃ low ∈ rank? x, ∃ high ∈ rank? y, low ≤ high := by
  rcases x with (_ | _) | _ | _ | ⟨_ | _, _, _, _⟩ <;>
    rcases y with (_ | _) | _ | _ | ⟨_ | _, _, _, _⟩ <;>
    simp [rank?, UnpackedFloat.le, UnpackedFloat.compare, Prod.Lex.toLex_le_toLex,
      then_compare_isLE_iff, then_compare_isGE_iff]
  -- What is left are pairs of infinities.
  all_goals rfl

theorem lt_iff {x y : Float} :
    x < y ↔ ∃ low ∈ rank? x.toModel.unpack, ∃ high ∈ rank? y.toModel.unpack, low < high := by
  rw [← unpacked_lt_iff]
  exact decide_eq_true_iff

theorem le_iff {x y : Float} :
    x ≤ y ↔ ∃ low ∈ rank? x.toModel.unpack, ∃ high ∈ rank? y.toModel.unpack, low ≤ high := by
  rw [← unpacked_le_iff]
  exact decide_eq_true_iff

theorem exists_rank {x : Float} (number : x.isNaN = false) :
    ∃ rank, rank? x.toModel.unpack = some rank := by
  rw [← Option.ne_none_iff_exists']
  intro none
  have nan : x.isNaN = true := rank?_eq_none_iff.1 none
  rw [number] at nan
  contradiction

instance isStrictOrder : IsStrictOrder Float (· < ·) where
  irrefl x less := by
    obtain ⟨low, found, high, same, above⟩ := lt_iff.1 less
    obtain rfl := Option.some.inj (found.symm.trans same)
    exact lt_irrefl _ above
  trans x y z first second := by
    obtain ⟨low, found, middle, there, above⟩ := lt_iff.1 first
    obtain ⟨other, same, high, last, further⟩ := lt_iff.1 second
    obtain rfl := Option.some.inj (there.symm.trans same)
    exact lt_iff.2 ⟨low, found, high, last, above.trans further⟩

theorem not_lt_of_isNaN {x y : Float} (nan : x.isNaN = true) : ¬ x < y := by
  intro less
  obtain ⟨low, found, -⟩ := lt_iff.1 less
  have none : rank? x.toModel.unpack = none := rank?_eq_none_iff.2 nan
  rw [none] at found
  cases found

theorem lt_or_lt_of_lt {x y z : Float} (less : x < z) (number : y.isNaN = false) :
    x < y ∨ y < z := by
  obtain ⟨low, found, high, there, above⟩ := lt_iff.1 less
  obtain ⟨middle, place⟩ := exists_rank number
  rcases lt_or_ge low middle with below | beyond
  · exact Or.inl (lt_iff.2 ⟨low, found, middle, place, below⟩)
  · exact Or.inr (lt_iff.2 ⟨middle, place, high, there, beyond.trans_lt above⟩)

theorem le_of_not_lt {x y : Float} (first : x.isNaN = false) (second : y.isNaN = false)
    (notBelow : ¬ y < x) : x ≤ y := by
  obtain ⟨low, found⟩ := exists_rank first
  obtain ⟨high, there⟩ := exists_rank second
  refine le_iff.2 ⟨low, found, high, there, le_of_not_gt fun below => notBelow ?_⟩
  exact lt_iff.2 ⟨high, there, low, found, below⟩

end ChartParse.Decimal
