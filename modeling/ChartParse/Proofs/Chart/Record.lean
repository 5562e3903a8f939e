import ChartParse.Proofs.Chart.FillOrder

/-!
The record of filling a chart. It is put together from the records of filling the cells of the spans,
in the order of the schedule, and each of these is what filling the cell from the finished chart
would leave: the cells that are read do not change any more (`work_fill`).
-/

namespace ChartParse.Chart

variable {σ : Type} [LT σ] [DecidableLT σ] [Zero σ] [Add σ] {grammar : Grammar σ}
  {beam : Option Int} {words : List String}

/-- Filling a span reads the cells of its parts and no others. -/
theorem combinedCell_congr {diagonals others : Array (Array (Cell σ))} {first reach : Nat}
    (parts : HoldsParts grammar beam words diagonals first reach)
    (otherParts : HoldsParts grammar beam words others first reach) (limits : Option Int) :
    combinedCell grammar limits diagonals first (first + reach) =
      combinedCell grammar limits others first (first + reach) := by
  have splits : (List.range' first reach).foldlM
        (offerSplit grammar diagonals first (first + reach)) Cell.empty =
      (List.range' first reach).foldlM
        (offerSplit grammar others first (first + reach)) Cell.empty := by
    refine Traced.foldlM_congr (fun mid member cell => ?_) Cell.empty
    obtain ⟨cut, inside, rfl⟩ := List.mem_range'.1 member
    rw [Nat.one_mul, offerSplit, offerSplit, (parts cut inside).1, (parts cut inside).2,
      (otherParts cut inside).1, (otherParts cut inside).2]
  rw [combinedCell, combinedCell, Nat.add_sub_cancel_left, splits]

/-- The finished chart holds the cells of the parts of every span. -/
theorem holdsParts_fill (grammar : Grammar σ) (beam : Option Int) {words : List String}
    {first reach : Nat} (inside : first + reach < words.length) :
    HoldsParts grammar beam words (fill grammar beam words).value.diagonals first reach := by
  obtain ⟨size, filled⟩ := filled_diagonalsUpTo grammar beam words (words.length - 1)
  rw [diagonals_fill]
  exact filled.holdsParts (by omega) inside

/-- What the finished chart makes of a span is what it holds. -/
theorem value_spanFilling_fill (grammar : Grammar σ) (beam : Option Int) {words : List String}
    {first last : Nat} (ordered : first ≤ last) (inside : last < words.length) :
    (spanFilling grammar beam words (fill grammar beam words).value.diagonals first last).value =
      cellOf grammar beam (slice words first (last - first)) :=
  value_spanFilling ordered inside (holdsParts_fill grammar beam (by omega))

omit [LT σ] [DecidableLT σ] [Zero σ] [Add σ] in
/-- The positions of some words. -/
theorem range_length_eq (words : List String) :
    List.range words.length = words.zipIdx.map Prod.snd := by
  rw [List.zipIdx_map_snd, List.range_eq_range']

theorem work_lexicalDiagonal (grammar : Grammar σ) (beam : Option Int) (words : List String)
    (diagonals : Array (Array (Cell σ))) :
    (lexicalDiagonal grammar beam words).work =
      (List.range words.length).flatMap fun first =>
        (spanFilling grammar beam words diagonals first first).work := by
  simp only [lexicalDiagonal, Traced.work_bind, Traced.work_pure, Traced.work_mapM,
    List.append_nil]
  rw [range_length_eq, List.flatMap_map]
  apply List.flatMap_congr
  rintro ⟨word, position⟩ member
  have found : words[position]? = some word := List.mem_zipIdx_iff_getElem?.1 member
  rw [spanFilling, if_neg (Nat.lt_irrefl position), found]

theorem work_wideDiagonal {reach : Nat} (wide : 0 < reach) :
    (wideDiagonal grammar beam words.length (diagonalsUpTo grammar beam words (reach - 1))
        reach).work =
      (List.range (words.length - reach)).flatMap fun first =>
        (spanFilling grammar beam words (fill grammar beam words).value.diagonals first
          (first + reach)).work := by
  obtain ⟨size, filled⟩ := filled_diagonalsUpTo grammar beam words (reach - 1)
  simp only [wideDiagonal, Traced.work_bind, Traced.work_pure, Traced.work_mapM, List.append_nil]
  apply List.flatMap_congr
  intro first member
  have inside : first + reach < words.length := by
    have := List.mem_range.1 member
    omega
  rw [spanFilling, if_pos (by omega), combinedCell_congr (filled.holdsParts (by omega) inside)
    (holdsParts_fill grammar beam inside)]

theorem work_foldlM_wideDiagonal (grammar : Grammar σ) (beam : Option Int) (words : List String)
    (count : Nat) :
    ((List.range' 1 count).foldlM (fun diagonals reach => do
        return diagonals.push (← wideDiagonal grammar beam words.length diagonals reach))
        #[(lexicalDiagonal grammar beam words).value]).work =
      (List.range' 1 count).flatMap fun reach =>
        (wideDiagonal grammar beam words.length (diagonalsUpTo grammar beam words (reach - 1))
          reach).work := by
  induction count with
  | zero => rfl
  | succ count ih =>
    rw [List.range'_1_concat, List.foldlM_append, Traced.work_bind, ih, List.flatMap_append]
    simp [Traced.value_foldlM, diagonalsUpTo]

/-- The record of a chart is, span by span in the order of the schedule, that of filling the cell
of the span from the finished chart. -/
theorem work_fill (grammar : Grammar σ) (beam : Option Int) (words : List String) :
    (fill grammar beam words).work = (schedule words.length).flatMap fun span =>
      (spanFilling grammar beam words (fill grammar beam words).value.diagonals
        span.1 span.2).work := by
  have recorded : (fill grammar beam words).work = (lexicalDiagonal grammar beam words).work ++
      (List.range' 1 (words.length - 1)).flatMap fun reach =>
        (wideDiagonal grammar beam words.length (diagonalsUpTo grammar beam words (reach - 1))
          reach).work := by
    rw [← work_foldlM_wideDiagonal, fill]
    simp only [Traced.work_bind, Traced.work_pure, List.append_nil]
  rw [recorded, schedule_eq, List.flatMap_append, List.flatMap_map, List.flatMap_assoc,
    work_lexicalDiagonal grammar beam words (fill grammar beam words).value.diagonals]
  congr 1
  apply List.flatMap_congr
  intro reach member
  rw [List.flatMap_map, work_wideDiagonal (List.mem_range'_1.1 member).1]

end ChartParse.Chart
