import ChartParse.Chart.Basic
import Mathlib.Data.List.Basic

/-!
The cell of a list of words on its own, by recursion on the words: `cellOf`. It says what a chart
computes without saying in which order.

Main statement: the cell that a chart holds for a span is the cell of the words of the span
(`cell?_fill`), whatever stands around them.
-/

namespace ChartParse.Chart

variable {σ : Type} [LT σ] [DecidableLT σ]

def limited (beam : Option Int) (cell : Cell σ) : Cell σ :=
  match beam with
  | none => cell
  | some width => (cell.prune width).1

@[simp] theorem value_limit (beam : Option Int) (first last : Nat) (cell : Cell σ) :
    (limit beam first last cell).value = limited beam cell := by
  unfold limit limited
  cases beam with
  | none => rfl
  | some width =>
    simp only
    split <;> rfl

variable [Add σ]

/-- A cell to which everything has been offered that two adjacent cells make. -/
def combine (grammar : Grammar σ) (left right cell : Cell σ) : Cell σ :=
  if left.isEmpty || right.isEmpty then cell
  else (grammar.binaryRules.foldlM (offerBinary grammar left right) cell).value

theorem value_offerSplit (grammar : Grammar σ) (diagonals : Array (Array (Cell σ)))
    {first last mid : Nat} {left right : Cell σ} (cell : Cell σ)
    (onLeft : cellIn diagonals first mid = some left)
    (onRight : cellIn diagonals (mid + 1) last = some right) :
    (offerSplit grammar diagonals first last cell mid).value = combine grammar left right cell := by
  simp only [offerSplit, Traced.value_bind, onLeft, onRight, combine]
  split <;> simp_all

variable [Zero σ]

/-- The cell of some words: of one word, what the lexical rules make of it; of more, what the cells
of their two parts make, for each cut from left to right. -/
def cellOf (grammar : Grammar σ) (beam : Option Int) (words : List String) : Cell σ :=
  match words with
  | [] => .empty
  | [word] => (lexicalCell grammar beam 0 word).value
  | first :: second :: rest =>
    limited beam <| (List.range' 1 (rest.length + 1)).attach.foldl (fun cell cut =>
      combine grammar (cellOf grammar beam ((first :: second :: rest).take cut.1))
        (cellOf grammar beam ((first :: second :: rest).drop cut.1)) cell) .empty
termination_by words.length
decreasing_by
  -- A cut lies inside the words, so both parts are shorter.
  all_goals
    have inside := List.mem_range'_1.1 cut.2
    simp only [List.length_take, List.length_drop, List.length_cons]
    omega

theorem cellOf_of_two_le (grammar : Grammar σ) (beam : Option Int) {words : List String}
    (long : 2 ≤ words.length) :
    cellOf grammar beam words =
      limited beam ((List.range' 1 (words.length - 1)).foldl (fun cell cut =>
        combine grammar (cellOf grammar beam (words.take cut))
          (cellOf grammar beam (words.drop cut)) cell) .empty) := by
  match words, long with
  | first :: second :: rest, _ =>
    rw [cellOf]
    simp [List.foldl_subtype]

/-- The words from one position on, one more than `reach` of them. -/
def slice (words : List String) (first reach : Nat) : List String :=
  (words.drop first).take (reach + 1)

theorem length_slice {words : List String} {first reach : Nat}
    (inside : first + reach < words.length) : (slice words first reach).length = reach + 1 := by
  rw [slice, List.length_take, List.length_drop]
  omega

theorem take_slice (words : List String) {first reach cut : Nat} (inside : cut ≤ reach) :
    (slice words first reach).take (cut + 1) = slice words first cut := by
  rw [slice, slice, List.take_take, Nat.min_eq_left (by omega)]

theorem drop_slice (words : List String) {first reach cut : Nat} (inside : cut < reach) :
    (slice words first reach).drop (cut + 1) = slice words (first + cut + 1) (reach - cut - 1) := by
  rw [slice, slice, List.drop_take, List.drop_drop]
  congr 1
  omega

theorem slice_zero {words : List String} {first : Nat} (inside : first < words.length) :
    slice words first 0 = [words[first]] := by
  rw [slice, List.drop_eq_getElem_cons inside]
  rfl

/-! ### Diagonals -/

theorem value_lexicalCell (grammar : Grammar σ) (beam : Option Int) (position : Nat)
    (word : String) :
    (lexicalCell grammar beam position word).value =
      limited beam
        ((grammar.lexicalRulesFor word).foldlM (offerLexical grammar word) .empty).value := by
  simp only [lexicalCell, Traced.value_bind]
  split <;> simp

theorem value_lexicalCell_eq (grammar : Grammar σ) (beam : Option Int) (position : Nat)
    (word : String) :
    (lexicalCell grammar beam position word).value = cellOf grammar beam [word] := by
  rw [cellOf, value_lexicalCell, value_lexicalCell]

/-- A table holds the cells of all spans that reach less than so many words beyond their first. -/
def Filled (grammar : Grammar σ) (beam : Option Int) (words : List String)
    (diagonals : Array (Array (Cell σ))) : Prop :=
  ∀ reach < diagonals.size, ∀ first, first + reach < words.length →
    cellIn diagonals first (first + reach) = some (cellOf grammar beam (slice words first reach))

omit [LT σ] [DecidableLT σ] [Add σ] [Zero σ] in
theorem cellIn_push_of_lt (diagonals : Array (Array (Cell σ))) (diagonal : Array (Cell σ))
    {first reach : Nat} (earlier : reach < diagonals.size) :
    cellIn (diagonals.push diagonal) first (first + reach) =
      cellIn diagonals first (first + reach) := by
  simp [cellIn, Array.getElem?_push, Nat.ne_of_lt earlier]

omit [LT σ] [DecidableLT σ] [Add σ] [Zero σ] in
theorem cellIn_push_size (diagonals : Array (Array (Cell σ))) (diagonal : Array (Cell σ))
    (first : Nat) :
    cellIn (diagonals.push diagonal) first (first + diagonals.size) = diagonal[first]? := by
  have ordered : ¬ first + diagonals.size < first := by omega
  simp [cellIn, ordered]

/-- A table that holds, for each cut of a span, the cells of the words on its two sides. -/
def HoldsParts (grammar : Grammar σ) (beam : Option Int) (words : List String)
    (diagonals : Array (Array (Cell σ))) (first reach : Nat) : Prop :=
  ∀ cut < reach,
    cellIn diagonals first (first + cut) = some (cellOf grammar beam (slice words first cut)) ∧
      cellIn diagonals (first + cut + 1) (first + reach) =
        some (cellOf grammar beam (slice words (first + cut + 1) (reach - cut - 1)))

theorem Filled.holdsParts {grammar : Grammar σ} {beam : Option Int} {words : List String}
    {diagonals : Array (Array (Cell σ))} (filled : Filled grammar beam words diagonals)
    {first reach : Nat} (shorter : reach ≤ diagonals.size) (inside : first + reach < words.length) :
    HoldsParts grammar beam words diagonals first reach := by
  intro cut member
  have later := filled (reach - cut - 1) (by omega) (first + cut + 1) (by omega)
  rw [show first + cut + 1 + (reach - cut - 1) = first + reach by omega] at later
  exact ⟨filled cut (by omega) first (by omega), later⟩

/-- What is put together for a span comes from the cells of its parts, whatever else the table
holds, and only then is the beam applied. -/
theorem value_combinedCell_of_parts {grammar : Grammar σ} {beam : Option Int}
    {words : List String} {diagonals : Array (Array (Cell σ))} {first reach : Nat}
    (parts : HoldsParts grammar beam words diagonals first reach) (limits : Option Int) :
    (combinedCell grammar limits diagonals first (first + reach)).value =
      limited limits ((List.range' 1 reach).foldl (fun cell cut =>
        combine grammar (cellOf grammar beam ((slice words first reach).take cut))
          (cellOf grammar beam ((slice words first reach).drop cut)) cell) .empty) := by
  have step (cell : Cell σ) (cut : Nat) (member : cut < reach) :
      (offerSplit grammar diagonals first (first + reach) cell (first + cut)).value =
        combine grammar (cellOf grammar beam ((slice words first reach).take (cut + 1)))
          (cellOf grammar beam ((slice words first reach).drop (cut + 1))) cell := by
    rw [take_slice words (Nat.le_of_lt member), drop_slice words member]
    exact value_offerSplit grammar diagonals cell (parts cut member).1 (parts cut member).2
  simp only [combinedCell, Traced.value_bind, value_limit, Traced.value_foldlM]
  -- The positions at which the span is split are the cuts of its words, moved by `first`.
  rw [show first + reach - first = reach by omega, List.range'_eq_map_range,
    List.range'_eq_map_range, List.foldl_map, List.foldl_map]
  congr 1
  apply List.foldl_ext
  intro cell cut member
  rw [step cell cut (List.mem_range.1 member), Nat.add_comm 1]

/-- If the table holds the cells of the parts of a span, the cell of its words is put together. -/
theorem value_combinedCell {grammar : Grammar σ} {beam : Option Int} {words : List String}
    {diagonals : Array (Array (Cell σ))} {first reach : Nat} (wide : 0 < reach)
    (inside : first + reach < words.length)
    (parts : HoldsParts grammar beam words diagonals first reach) :
    (combinedCell grammar beam diagonals first (first + reach)).value =
      cellOf grammar beam (slice words first reach) := by
  have length := length_slice inside
  rw [value_combinedCell_of_parts parts, cellOf_of_two_le grammar beam (by omega), length,
    Nat.add_sub_cancel]

theorem value_wideDiagonal {grammar : Grammar σ} {beam : Option Int} {words : List String}
    {diagonals : Array (Array (Cell σ))} (filled : Filled grammar beam words diagonals)
    (wide : 0 < diagonals.size) :
    (wideDiagonal grammar beam words.length diagonals diagonals.size).value =
      ((List.range (words.length - diagonals.size)).map fun first =>
        cellOf grammar beam (slice words first diagonals.size)).toArray := by
  simp only [wideDiagonal, Traced.value_bind, Traced.value_pure, Traced.value_mapM]
  congr 1
  apply List.map_congr_left
  intro first member
  have := List.mem_range.1 member
  have inside : first + diagonals.size < words.length := by omega
  exact value_combinedCell wide inside (filled.holdsParts (Nat.le_refl _) inside)

theorem value_lexicalDiagonal (grammar : Grammar σ) (beam : Option Int) (words : List String) :
    (lexicalDiagonal grammar beam words).value =
      (words.map fun word => cellOf grammar beam [word]).toArray := by
  simp only [lexicalDiagonal, Traced.value_bind, Traced.value_pure, Traced.value_mapM,
    value_lexicalCell_eq]
  congr 1
  -- The positions that go with the words are not looked at.
  have forget := congrArg (List.map fun word => cellOf grammar beam [word])
    (List.zipIdx_map_fst 0 words)
  rwa [List.map_map] at forget

theorem filled_lexicalDiagonal (grammar : Grammar σ) (beam : Option Int) (words : List String) :
    Filled grammar beam words #[(lexicalDiagonal grammar beam words).value] := by
  intro reach low first inside
  obtain rfl : reach = 0 := by simpa using low
  rw [value_lexicalDiagonal, slice_zero (by omega)]
  have known : first < words.length := by omega
  simp [cellIn, known]

theorem filled_push {grammar : Grammar σ} {beam : Option Int} {words : List String}
    {diagonals : Array (Array (Cell σ))} (filled : Filled grammar beam words diagonals)
    (wide : 0 < diagonals.size) :
    Filled grammar beam words (diagonals.push
      (wideDiagonal grammar beam words.length diagonals diagonals.size).value) := by
  intro reach low first inside
  rw [Array.size_push] at low
  -- The new diagonal is that of the spans which reach as far as there were diagonals before.
  rcases Nat.lt_succ_iff_lt_or_eq.1 low with earlier | rfl
  · rw [cellIn_push_of_lt _ _ earlier]
    exact filled reach earlier first inside
  · rw [cellIn_push_size, value_wideDiagonal filled wide]
    have known : first < words.length - diagonals.size := by omega
    simp [known]

/-! ### The chart -/

/-- The table of diagonals after those that reach up to `count` words beyond their first. -/
def diagonalsUpTo (grammar : Grammar σ) (beam : Option Int) (words : List String) (count : Nat) :
    Array (Array (Cell σ)) :=
  (List.range' 1 count).foldl (fun diagonals reach =>
    diagonals.push (wideDiagonal grammar beam words.length diagonals reach).value)
    #[(lexicalDiagonal grammar beam words).value]

theorem diagonals_fill (grammar : Grammar σ) (beam : Option Int) (words : List String) :
    (fill grammar beam words).value.diagonals =
      diagonalsUpTo grammar beam words (words.length - 1) := by
  simp only [fill, Traced.value_bind, Traced.value_pure, Traced.value_foldlM, diagonalsUpTo]

theorem words_fill (grammar : Grammar σ) (beam : Option Int) (words : List String) :
    (fill grammar beam words).value.words = words := rfl

theorem filled_diagonalsUpTo (grammar : Grammar σ) (beam : Option Int) (words : List String)
    (count : Nat) :
    (diagonalsUpTo grammar beam words count).size = count + 1 ∧
      Filled grammar beam words (diagonalsUpTo grammar beam words count) := by
  induction count with
  | zero => exact ⟨rfl, filled_lexicalDiagonal grammar beam words⟩
  | succ count ih =>
    obtain ⟨size, filled⟩ := ih
    have next : diagonalsUpTo grammar beam words (count + 1) =
        (diagonalsUpTo grammar beam words count).push
          (wideDiagonal grammar beam words.length (diagonalsUpTo grammar beam words count)
            (diagonalsUpTo grammar beam words count).size).value := by
      rw [size]
      simp [diagonalsUpTo, List.range'_1_concat, Nat.add_comm]
    rw [next]
    exact ⟨by simp [size], filled_push filled (by omega)⟩

/-- A chart holds for every span the cell of the words of the span. -/
theorem cell?_fill (grammar : Grammar σ) (beam : Option Int) {words : List String}
    {first reach : Nat} (inside : first + reach < words.length) :
    (fill grammar beam words).value.cell? first (first + reach) =
      some (cellOf grammar beam (slice words first reach)) := by
  obtain ⟨size, filled⟩ := filled_diagonalsUpTo grammar beam words (words.length - 1)
  rw [cell?, diagonals_fill]
  exact filled reach (by omega) first inside

/-- The cells that can be asked of a chart are those of the spans of its sentence. -/
theorem cell_fill_eq_ok_iff {grammar : Grammar σ} {beam : Option Int} {words : List String}
    {first last : Nat} {cell : Cell σ} :
    (fill grammar beam words).value.cell first last = .ok cell ↔
      (first ≤ last ∧ last < words.length) ∧
        cellOf grammar beam (slice words first (last - first)) = cell := by
  by_cases inside : first ≤ last ∧ last < words.length
  · have filled : (fill grammar beam words).value.cell? first (first + (last - first)) = _ :=
      cell?_fill grammar beam (by omega)
    rw [Nat.add_sub_cancel' inside.1] at filled
    simp [Chart.cell, size, words_fill, inside, filled]
  · simp [Chart.cell, size, words_fill, inside]

theorem cellOf_nil (grammar : Grammar σ) (beam : Option Int) :
    cellOf grammar beam [] = .empty := by
  rw [cellOf]

/-- The best parse of a sentence is what its cell holds for the start symbol. -/
theorem value_parse (grammar : Grammar σ) (beam : Option Int) (words : List String) :
    (parse grammar beam words).value = (cellOf grammar beam words).get? grammar.start := by
  cases words with
  | nil =>
    rw [cellOf_nil]
    rfl
  | cons word rest =>
    have filled : (fill grammar beam (word :: rest)).value.cell? 0 (0 + rest.length) = _ :=
      cell?_fill grammar beam (by simp)
    simp only [Nat.zero_add, slice, List.drop_zero] at filled
    simp [parse, best?, size, words_fill, filled]

end ChartParse.Chart
