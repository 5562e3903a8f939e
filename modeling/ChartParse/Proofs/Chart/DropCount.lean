import ChartParse.Proofs.Chart.RuleOrder
import ChartParse.Proofs.Chart.WideBeam

/-!
The number of labels that a beam reports as dropped.

A width that is not negative makes a cell report just as many labels as it loses. A negative width
counts labels from the end of the ranking, but what is reported is by how much the cell was larger
than the width, so that the report is too high (`Cell.snd_prune_eq`). What a chart counts as pruned
is the sum of the reports of its cells (`Chart.total_pruned`).

Main statement: `Chart.total_pruned_eq_lost_iff`.
-/

namespace ChartParse

variable {σ : Type}

/-! ### One cell -/

namespace Cell

/-- The labels of a cell that are not in another. -/
def missing (cell other : Cell σ) : List String :=
  cell.labels.filter (· ∉ other.labels)

/-- Labels are distinct, so as many are missing as the other cell is smaller. -/
theorem length_missing {cell other : Cell σ} (subset : other.entries ⊆ cell.entries) :
    (cell.missing other).length = cell.size - other.size := by
  have shared : (cell.labels.filter (· ∈ other.labels)).Perm other.labels := by
    refine (List.perm_ext_iff_of_nodup (List.Nodup.filter _ cell.nodup) other.nodup).2
      fun label => ?_
    simp only [List.mem_filter, decide_eq_true_eq]
    exact and_iff_right_of_imp fun member => List.map_subset _ subset member
  have parts := List.length_eq_length_filter_add (l := cell.labels) (· ∈ other.labels)
  rw [shared.length_eq] at parts
  simp only [missing, decide_not, size]
  simp only [labels, List.length_map] at parts ⊢
  omega

/-- By how much the number that comes with a pruned cell is too high. -/
def overcount (cell : Cell σ) (width : Int) : Nat :=
  if 0 ≤ width then 0 else max cell.size width.natAbs

theorem overcount_eq_zero_iff {cell : Cell σ} {width : Int} :
    cell.overcount width = 0 ↔ 0 ≤ width := by
  unfold overcount
  split <;> omega

variable [LT σ] [DecidableLT σ] (cell : Cell σ) (width : Int)

theorem size_prune_eq_min : (cell.prune width).1.size = min (cell.beamSize width) cell.size := by
  by_cases few : cell.size ≤ width
  · have room : cell.size ≤ cell.beamSize width := by
      rw [beamSize, if_pos (by omega)]
      omega
    rw [prune_of_size_le few, min_eq_right room]
  · rw [size, entries_prune_of_lt_size (not_le.1 few), List.length_take, length_ranked]

theorem snd_prune_eq_toNat : (cell.prune width).2 = (cell.size - width).toNat := by
  unfold prune
  split
  next few => exact (Int.toNat_of_nonpos (by omega)).symm
  next => rfl

/-- What comes with a pruned cell is the number of the labels that it has lost, if the width is not
negative, and else too high. -/
theorem snd_prune_eq :
    (cell.prune width).2 =
      (cell.missing (cell.prune width).1).length + cell.overcount width := by
  rw [length_missing (cell.entries_prune_subset width), size_prune_eq_min, snd_prune_eq_toNat,
    overcount, beamSize]
  split <;> omega

/-- A beam of minus one takes the only label of a cell and reports two. -/
theorem not_snd_prune_eq_missing : ¬ ∀ (cell : Cell Int) (width : Int),
    (cell.prune width).2 = (cell.missing (cell.prune width).1).length := by
  intro exact
  let lone : Cell Int := ⟨[.unary "A" (-1) (.leaf "a" 0)], by decide⟩
  have reported := snd_prune_eq lone (-1)
  have excess : lone.overcount (-1) = 1 := by decide
  have lost := exact lone (-1)
  omega

end Cell

/-! ### The record -/

namespace Tally

theorem amountOf_eq_sum (counter : Counter) (work : List (Event σ)) :
    amountOf counter work = (work.map (Event.amount counter)).sum := by
  induction work with
  | nil => rfl
  | cons event rest ih => rw [amountOf, ih, List.map_cons, List.sum_cons]

theorem amountOf_flatMap {α : Type} (counter : Counter) (xs : List α)
    (work : α → List (Event σ)) :
    amountOf counter (xs.flatMap work) = (xs.map fun x => amountOf counter (work x)).sum := by
  induction xs with
  | nil => rfl
  | cons x rest ih => rw [List.flatMap_cons, amountOf_append, ih, List.map_cons, List.sum_cons]

end Tally

theorem PrunesNothing.amountOf_eq_zero {α : Type} {traced : Traced (Event σ) α}
    (nothing : PrunesNothing traced) : Tally.amountOf .pruned traced.work = 0 := by
  simp only [Tally.amountOf_eq_sum, List.sum_eq_zero_iff, List.forall_mem_map]
  intro event member
  have other := nothing event member
  cases event <;> first | rfl | cases other

namespace Chart

variable [LT σ] [DecidableLT σ]

/-- By how much the report of a beam is too high, if there is one. -/
def overcount (beam : Option Int) (cell : Cell σ) : Nat :=
  match beam with
  | none => 0
  | some width => cell.overcount width

theorem amountOf_limit (beam : Option Int) (first last : Nat) (cell : Cell σ) :
    Tally.amountOf .pruned (limit beam first last cell).work =
      (cell.missing (limited beam cell)).length + overcount beam cell := by
  cases beam with
  | none => simp [limit, limited, overcount, Tally.amountOf, Cell.length_missing]
  | some width =>
    have reported : Tally.amountOf .pruned (limit (some width) first last cell).work =
        (cell.prune width).2 := by
      by_cases some : (cell.prune width).2 = 0 <;>
        simp [limit, some, Tally.amountOf, Event.amount, Event.count?]
    rw [reported]
    exact cell.snd_prune_eq width

variable [Zero σ] [Add σ] (grammar : Grammar σ) (beam : Option Int) (words : List String)

/-- The labels that the cell of a span held just before the beam was applied to it, and that the
chart does not hold for the span. -/
def lostLabels (span : Nat × Nat) : List String :=
  match (fill grammar beam words).value.cell span.1 span.2 with
  | .ok cell => (unprunedCell grammar beam words span.1 span.2).missing cell
  | .error _ => []

/-- Filling a span with a beam is filling it without, and then applying the beam. -/
theorem spanFilling_eq_bind {words : List String} (diagonals : Array (Array (Cell σ)))
    {first last : Nat} (ordered : first ≤ last) (inside : last < words.length) :
    spanFilling grammar beam words diagonals first last =
      spanFilling grammar none words diagonals first last >>= limit beam first last := by
  unfold spanFilling
  split
  next => exact combinedCell_eq_bind grammar beam diagonals first last
  next =>
    obtain rfl : first = last := by omega
    rw [List.getElem?_eq_getElem inside]
    exact lexicalCell_eq_bind grammar beam first words[first]

theorem prunesNothing_spanFilling (diagonals : Array (Array (Cell σ))) (first last : Nat) :
    PrunesNothing (spanFilling grammar none words diagonals first last) := by
  unfold spanFilling
  split
  next => exact prunesNothing_combinedCell grammar diagonals first last
  next =>
    cases words[first]? with
    | none => exact prunesNothing_pure _
    | some word => exact prunesNothing_lexicalCell grammar first word

variable {words} in
theorem amountOf_spanFilling {first last : Nat} (ordered : first ≤ last)
    (inside : last < words.length) :
    Tally.amountOf .pruned (spanFilling grammar beam words
        (fill grammar beam words).value.diagonals first last).work =
      (lostLabels grammar beam words (first, last)).length +
        overcount beam (unprunedCell grammar beam words first last) := by
  have nothing := (prunesNothing_spanFilling grammar words
    (fill grammar beam words).value.diagonals first last).amountOf_eq_zero
  rw [spanFilling_eq_bind grammar beam _ ordered inside, Traced.work_bind,
    Tally.amountOf_append, nothing, Nat.zero_add, amountOf_limit, lostLabels,
    cell_fill_eq_limited grammar beam ordered inside]
  rfl

/-- A chart counts as pruned the labels that its cells lose, and too many if the beam is negative. -/
theorem total_pruned :
    (Tally.ofWork (fill grammar beam words).work).total .pruned =
      ((schedule words.length).map fun span => (lostLabels grammar beam words span).length).sum +
        ((schedule words.length).map fun span =>
          overcount beam (unprunedCell grammar beam words span.1 span.2)).sum := by
  rw [Tally.total_ofWork, work_fill, Tally.amountOf_flatMap, ← List.sum_map_add]
  congr 1
  apply List.map_congr_left
  intro span member
  obtain ⟨ordered, inside⟩ := mem_schedule_iff.1 member
  exact amountOf_spanFilling grammar beam ordered inside

theorem sum_overcount_eq_zero_iff :
    ((schedule words.length).map fun span =>
        overcount beam (unprunedCell grammar beam words span.1 span.2)).sum = 0 ↔
      words = [] ∨ ∀ width ∈ beam, 0 ≤ width := by
  simp only [List.sum_eq_zero_iff, List.forall_mem_map]
  cases beam with
  | none => simp [overcount]
  | some width =>
    simp only [overcount, Cell.overcount_eq_zero_iff, Option.mem_def, Option.some.injEq,
      forall_eq']
    constructor
    · intro exact
      by_cases empty : words = []
      · exact Or.inl empty
      · have positive := List.length_pos_iff.2 empty
        exact Or.inr (exact (0, 0) (mem_schedule_iff.2 ⟨Nat.le_refl 0, positive⟩))
    · rintro (rfl | exact) span member
      · cases member
      · exact exact

/-! ### Main result -/

/-- What comes with a pruned cell is the number of labels that the cell has lost, and more only if
the width is negative: then also the size of the cell or, if that is more, of the width. What a
chart counts as pruned is the number of labels that its cells have lost to the beam, and more by as
much; so it is that number just if the beam is not negative or there are no cells. -/
theorem total_pruned_eq_lost_iff (grammar : Grammar σ) (width : Option Int) (words : List String) :
    let beam := width.bind beamOfWidth
    let pruned := (Tally.ofWork (fill grammar beam words).work).total .pruned
    let lost := ((schedule words.length).map fun span =>
      (lostLabels grammar beam words span).length).sum
    (∀ (cell : Cell σ) (width : Int), (cell.prune width).2 =
      (cell.missing (cell.prune width).1).length +
        if 0 ≤ width then 0 else max cell.size width.natAbs) ∧
    (pruned = lost + ((schedule words.length).map fun span =>
      overcount beam (unprunedCell grammar beam words span.1 span.2)).sum) ∧
    (pruned = lost ↔ words = [] ∨ ∀ count ∈ width, 0 ≤ count) := by
  intro beam pruned lost
  have total := total_pruned grammar beam words
  have signs : (∀ count ∈ width, 0 ≤ count) ↔ ∀ count ∈ beam, 0 ≤ count := by
    cases width with
    | none => rfl
    | some count =>
      by_cases zero : count = 0 <;> simp [beam, beamOfWidth, zero]
  refine ⟨Cell.snd_prune_eq, total, ?_⟩
  rw [signs, ← sum_overcount_eq_zero_iff grammar beam words]
  omega

end Chart

end ChartParse
