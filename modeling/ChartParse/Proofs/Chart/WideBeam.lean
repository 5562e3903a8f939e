import ChartParse.Proofs.Chart.Pruning
import ChartParse.Proofs.Chart.Soundness
import ChartParse.Proofs.Derivation.Language

/-!
Beams that are wide enough to drop nothing.

The two charts are filled side by side. As long as they are the same, so are the cells that are
made next, before the beam is applied; and those hold no more labels than the beam is wide, since
they stand in the chart without a beam. So the beam never has anything to drop.

Main statement: `fill_of_wide_beam`.
-/

namespace ChartParse.Chart

variable {σ : Type} [LT σ] [DecidableLT σ]

/-! ### What a beam does to one cell -/

theorem limit_none (first last : Nat) :
    limit none first last = (pure : Cell σ → Traced (Event σ) (Cell σ)) := rfl

theorem limit_of_size_le {cell : Cell σ} {width : Int} (few : cell.size ≤ width)
    (first last : Nat) : limit (some width) first last cell = pure cell := by
  simp [limit, Cell.prune_of_size_le few]

theorem size_limited_le (cell : Cell σ) {width : Int} (positive : 0 < width) :
    (limited (some width) cell).size ≤ width := by
  simp only [limited, Cell.prune]
  split
  next few => exact few
  next many =>
    have room : 0 ≤ width := by omega
    simp only [Cell.size, Cell.beamSize, if_pos room, List.length_take]
    omega

theorem bind_limit_of_size_le {filling : Traced (Event σ) (Cell σ)} {width : Int}
    (few : filling.value.size ≤ width) (first last : Nat) :
    filling >>= limit (some width) first last = filling := by
  ext1 <;> simp [limit_of_size_le few]

variable [Add σ]

theorem combinedCell_eq_bind (grammar : Grammar σ) (beam : Option Int)
    (diagonals : Array (Array (Cell σ))) (first last : Nat) :
    combinedCell grammar beam diagonals first last =
      combinedCell grammar none diagonals first last >>= limit beam first last := by
  simp only [combinedCell, limit_none, bind_assoc, bind_pure]

variable [Zero σ]

theorem lexicalCell_eq_bind (grammar : Grammar σ) (beam : Option Int) (position : Nat)
    (word : String) :
    lexicalCell grammar beam position word =
      lexicalCell grammar none position word >>= limit beam position position := by
  simp only [lexicalCell, limit_none, bind_assoc]
  refine bind_congr fun _ => bind_congr fun cell => ?_
  split <;> simp

/-! ### Two charts side by side -/

/-- No cell of the chart without a beam holds more labels than a beam is wide. -/
def FitsBeam (grammar : Grammar σ) (words : List String) (width : Int) : Prop :=
  ∀ (first last : Nat) (cell : Cell σ),
    (fill grammar none words).value.cell first last = .ok cell → cell.size ≤ width

variable {grammar : Grammar σ} {words : List String} {width : Int}

theorem FitsBeam.size_cellOf_le (fits : FitsBeam grammar words width) {first reach : Nat}
    (inside : first + reach < words.length) :
    (cellOf grammar none (slice words first reach)).size ≤ width := by
  refine fits first (first + reach) _ (cell_fill_eq_ok_iff.2 ⟨⟨by omega, inside⟩, ?_⟩)
  rw [Nat.add_sub_cancel_left]

theorem FitsBeam.lexicalDiagonal_eq (fits : FitsBeam grammar words width) :
    lexicalDiagonal grammar (some width) words = lexicalDiagonal grammar none words := by
  have cells : ∀ entry ∈ words.zipIdx, lexicalCell grammar (some width) entry.2 entry.1 =
      lexicalCell grammar none entry.2 entry.1 := by
    rintro ⟨word, position⟩ member
    have found : words[position]? = some word := List.mem_zipIdx_iff_getElem?.1 member
    obtain ⟨inside, same⟩ := List.getElem?_eq_some_iff.1 found
    have few : (cellOf grammar none [word]).size ≤ width := by
      rw [← same, ← slice_zero inside]
      exact fits.size_cellOf_le inside
    rw [lexicalCell_eq_bind, bind_limit_of_size_le]
    rwa [value_lexicalCell_eq]
  rw [lexicalDiagonal, lexicalDiagonal, Traced.mapM_congr cells]

theorem FitsBeam.wideDiagonal_eq (fits : FitsBeam grammar words width)
    {diagonals : Array (Array (Cell σ))} (filled : Filled grammar none words diagonals)
    (wide : 0 < diagonals.size) :
    wideDiagonal grammar (some width) words.length diagonals diagonals.size =
      wideDiagonal grammar none words.length diagonals diagonals.size := by
  have cells : ∀ first ∈ List.range (words.length - diagonals.size),
      combinedCell grammar (some width) diagonals first (first + diagonals.size) =
        combinedCell grammar none diagonals first (first + diagonals.size) := by
    intro first member
    have inside : first + diagonals.size < words.length := by
      have := List.mem_range.1 member
      omega
    rw [combinedCell_eq_bind, bind_limit_of_size_le]
    rw [value_combinedCell wide inside (filled.holdsParts (Nat.le_refl _) inside)]
    exact fits.size_cellOf_le inside
  rw [wideDiagonal, wideDiagonal, Traced.mapM_congr cells]

/-- By induction on the width of the spans: the diagonals before are the same. -/
theorem FitsBeam.foldlM_wideDiagonal_eq (fits : FitsBeam grammar words width) (count : Nat) :
    (List.range' 1 count).foldlM (fun diagonals reach => do
        return diagonals.push
          (← wideDiagonal grammar (some width) words.length diagonals reach))
        #[(lexicalDiagonal grammar none words).value] =
      (List.range' 1 count).foldlM (fun diagonals reach => do
        return diagonals.push (← wideDiagonal grammar none words.length diagonals reach))
        #[(lexicalDiagonal grammar none words).value] := by
  induction count with
  | zero => rfl
  | succ count ih =>
    obtain ⟨size, filled⟩ := filled_diagonalsUpTo grammar none words count
    have next := fits.wideDiagonal_eq filled (by omega)
    rw [size, Nat.add_comm count] at next
    rw [List.range'_1_concat, List.foldlM_append, List.foldlM_append, ih]
    apply Traced.bind_congr
    have before : ((List.range' 1 count).foldlM (fun diagonals reach => do
        return diagonals.push (← wideDiagonal grammar none words.length diagonals reach))
        #[(lexicalDiagonal grammar none words).value]).value =
          diagonalsUpTo grammar none words count := by
      simp only [Traced.value_foldlM, Traced.value_bind, Traced.value_pure, diagonalsUpTo]
    simp only [before, List.foldlM_cons, List.foldlM_nil, next]

theorem FitsBeam.fill_eq (fits : FitsBeam grammar words width) :
    fill grammar (some width) words = fill grammar none words := by
  rw [fill, fill, fits.lexicalDiagonal_eq]
  apply Traced.bind_congr
  rw [fits.foldlM_wideDiagonal_eq]

/-! ### How many labels there are -/

/-- The labels of a cell are distinct, and each is on the left of a rule. -/
theorem size_cellOf_le_card (grammar : Grammar σ) (beam : Option Int) (words : List String) :
    (cellOf grammar beam words).size ≤ (grammar.rules.map Rule.lhs).toFinset.card := by
  have subset : (cellOf grammar beam words).labels.toFinset ⊆
      (grammar.rules.map Rule.lhs).toFinset := by
    intro label member
    obtain ⟨tree, held, rfl⟩ := List.mem_map.1 (List.mem_toFinset.1 member)
    exact List.mem_toFinset.2 (derives_of_mem_cellOf held).label_mem
  have distinct : (cellOf grammar beam words).labels.toFinset.card =
      (cellOf grammar beam words).labels.length :=
    List.toFinset_card_of_nodup (cellOf grammar beam words).nodup
  rw [Cell.size, ← List.length_map Derivation.label, ← Cell.labels, ← distinct]
  exact Finset.card_le_card subset

theorem size_cellOf_le_width (grammar : Grammar σ) (words : List String) {width : Int}
    (positive : 0 < width) : (cellOf grammar (some width) words).size ≤ width := by
  by_cases empty : words = []
  · rw [empty, cellOf_nil]
    exact positive.le
  · rw [cellOf_eq grammar (some width) empty]
    exact size_limited_le _ positive

/-! ### Main result -/

/-- A beam that is at least as wide as the cells of the chart without a beam are large, as it is if
it is at least as wide as there are symbols on the left of rules, changes nothing: neither the chart
nor the record of filling it, in which nothing is pruned. And no cell of a chart with a beam holds
more labels than the beam is wide. -/
theorem fill_of_wide_beam (grammar : Grammar σ) (words : List String) {width : Int}
    (positive : 0 < width) :
    (FitsBeam grammar words width →
      fill grammar (beamOfWidth width) words = fill grammar none words ∧
        .pruned ∉ (Tally.ofWork (fill grammar (beamOfWidth width) words).work).counters) ∧
    ((grammar.rules.map Rule.lhs).toFinset.card ≤ width → FitsBeam grammar words width) ∧
    ∀ (first last : Nat) (cell : Cell σ),
      (fill grammar (beamOfWidth width) words).value.cell first last = .ok cell →
        cell.size ≤ width := by
  have beam : beamOfWidth width = some width := if_neg positive.ne'
  rw [beam]
  refine ⟨fun fits => ⟨fits.fill_eq, ?_⟩, fun many => ?_, ?_⟩
  · rw [fits.fill_eq]
    exact (prunesNothing_fill grammar words).notMem_counters
  · intro first last cell asked
    obtain ⟨-, rfl⟩ := cell_fill_eq_ok_iff.1 asked
    have few := size_cellOf_le_card grammar none (slice words first (last - first))
    omega
  · intro first last cell asked
    obtain ⟨-, rfl⟩ := cell_fill_eq_ok_iff.1 asked
    exact size_cellOf_le_width grammar _ positive

theorem fill_of_wide_beam_crowded :
    let words := ["a", "b"]
    FitsBeam crowded words 2 ∧
      fill crowded (beamOfWidth 2) words = fill crowded none words ∧
      .pruned ∉ (Tally.ofWork (fill crowded (beamOfWidth 2) words).work).counters ∧
      (cellOf crowded none ["a"]).labels = ["C", "A"] ∧
      .pruned ∈ (Tally.ofWork (fill crowded (beamOfWidth 1) words).work).counters := by
  intro words
  have fits : FitsBeam crowded words 2 := by
    intro first last cell asked
    obtain ⟨⟨ordered, inside⟩, rfl⟩ := cell_fill_eq_ok_iff.1 asked
    have inside : last < 2 := inside
    obtain ⟨rfl, rfl⟩ | ⟨rfl, rfl⟩ | ⟨rfl, rfl⟩ : (first = 0 ∧ last = 0) ∨
        (first = 1 ∧ last = 1) ∨ (first = 0 ∧ last = 1) := by omega
    · have size : (cellOf crowded none (slice words 0 (0 - 0))).size = 2 := by cbv
      rw [size]
      decide
    · have size : (cellOf crowded none (slice words 1 (1 - 1))).size = 1 := by cbv
      rw [size]
      decide
    · have size : (cellOf crowded none (slice words 0 (1 - 0))).size = 1 := by cbv
      rw [size]
      decide
  have labels : (cellOf crowded none ["a"]).labels = ["C", "A"] := by cbv
  have narrow : (Tally.ofWork (fill crowded (beamOfWidth 1) words).work).counters =
      [.unary, .lexical, .pruned, .binary] := by cbv
  obtain ⟨same, unpruned⟩ := (fill_of_wide_beam crowded words (by decide)).1 fits
  exact ⟨fits, same, unpruned, labels, by simp [narrow]⟩

end ChartParse.Chart
