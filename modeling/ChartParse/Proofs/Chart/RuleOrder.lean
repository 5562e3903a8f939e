import ChartParse.Proofs.Cell.BestScores
import ChartParse.Proofs.Chart.Completeness
import ChartParse.Proofs.Chart.Record

/-!
The order of the rules of a grammar makes no difference to scores.

With the rules in another order the constituents of a span are offered in another order, other
derivations are stored and replaced in between, and labels come into the cell in another order. But
what is offered is worth the same, and so is what the closed cell holds. A beam can undo this only
where it has to choose among labels with equal scores.

Main statement: `sameScores_of_perm`.
-/

namespace ChartParse.Chart

variable {σ : Type}

/-! ### Pruning -/

theorem sameScores_limited [LinearOrder σ] {cell other : Cell σ} (same : cell.SameScores other)
    {beam : Option Int} (distinct : beam = none ∨ (cell.entries.map Derivation.score).Nodup) :
    (limited beam cell).SameScores (limited beam other) := by
  cases beam with
  | none => exact same
  | some width =>
    have apart := distinct.resolve_left (Option.some_ne_none width)
    exact same.prune apart width

section Unpruned

variable [LT σ] [DecidableLT σ] [Zero σ] [Add σ]

/-- The cell of a span just before the beam is applied to it, in the chart that is filled with the
beam: the cells of the parts of the span have been pruned, and the cell itself has not. -/
def unprunedCell (grammar : Grammar σ) (beam : Option Int) (words : List String)
    (first last : Nat) : Cell σ :=
  (spanFilling grammar none words (fill grammar beam words).value.diagonals first last).value

theorem unprunedCell_eq (grammar : Grammar σ) (beam : Option Int) {words : List String}
    {first last : Nat} (ordered : first ≤ last) (inside : last < words.length) :
    unprunedCell grammar beam words first last =
      (Cell.close grammar .empty
        (constituents grammar beam (slice words first (last - first)))).value := by
  have parts : HoldsParts grammar beam words _ first (last - first) :=
    holdsParts_fill grammar beam (by omega)
  exact value_spanFilling_of_parts ordered inside parts none

/-- What a chart holds for a span is its unpruned cell, pruned. -/
theorem cell_fill_eq_limited (grammar : Grammar σ) (beam : Option Int) {words : List String}
    {first last : Nat} (ordered : first ≤ last) (inside : last < words.length) :
    (fill grammar beam words).value.cell first last =
      .ok (limited beam (unprunedCell grammar beam words first last)) := by
  rw [cell_fill_eq_ok_iff, unprunedCell_eq grammar beam ordered inside]
  exact ⟨⟨ordered, inside⟩, cellOf_eq grammar beam (slice_ne_nil ordered inside)⟩

end Unpruned

/-! ### The cells of some words -/

theorem exists_slice_of_isInfix {words span : List String} (within : span <:+: words)
    (nonempty : span ≠ []) :
    ∃ first last, first ≤ last ∧ last < words.length ∧
      slice words first (last - first) = span := by
  obtain ⟨before, after, rfl⟩ := within
  have positive := List.length_pos_iff.2 nonempty
  refine ⟨before.length, before.length + (span.length - 1), by omega, ?_, ?_⟩
  · simp only [List.length_append]
    omega
  · rw [slice, Nat.add_sub_cancel_left, Nat.sub_add_cancel positive, List.append_assoc,
      List.drop_left, List.take_left]

variable [LinearOrder σ] [Zero σ] [Add σ]

/-- If the cells of the parts of some words have the same scores, so have the constituents. -/
theorem rating_mem_constituents {grammar other : Grammar σ} (same : grammar.SameRules other)
    {beam : Option Int} {words : List String}
    (parts : ∀ cut, 0 < cut → cut < words.length →
      (cellOf grammar beam (words.take cut)).SameScores (cellOf other beam (words.take cut)) ∧
        (cellOf grammar beam (words.drop cut)).SameScores (cellOf other beam (words.drop cut)))
    {tree : Derivation σ} (offered : tree ∈ constituents grammar beam words) :
    tree.rating ∈ (constituents other beam words).map Derivation.rating := by
  rw [List.mem_map]
  cases mem_constituents_iff.1 offered with
  | @lexical rule word member kind expands =>
    have twin : Constituent other beam [word] (.unary rule.lhs (0 + rule.weight) (.leaf word 0)) :=
      .lexical ((same rule).1 member) (same.kind? rule ▸ kind) expands
    exact ⟨_, mem_constituents_iff.2 twin, rfl⟩
  | @binary rule left right _ cut low high member expands onLeft onRight =>
    obtain ⟨leftSame, rightSame⟩ := parts cut low high
    obtain ⟨leftTwin, leftThere, leftLabel, leftScore⟩ := leftSame.exists_mem onLeft
    obtain ⟨rightTwin, rightThere, rightLabel, rightScore⟩ := rightSame.exists_mem onRight
    rw [← leftLabel, ← rightLabel] at expands
    have twin : Constituent other beam words
        (.binary rule.lhs (leftTwin.score + rightTwin.score + rule.weight) leftTwin rightTwin) :=
      .binary low high ((same rule).1 member) expands leftThere rightThere
    refine ⟨_, mem_constituents_iff.2 twin, ?_⟩
    rw [leftScore, rightScore]
    rfl

variable [AddLeftMono σ] [AddRightMono σ]

/-- By induction on the number of words: the constituents are made from the cells of fewer words. -/
theorem sameScores_cellOf {grammar other : Grammar σ} (same : grammar.SameRules other)
    (cycles : grammar.CyclesNeverGain) {beam : Option Int} {words : List String}
    (distinct : beam = none ∨ ∀ span, span <:+: words → span ≠ [] →
      ((Cell.close grammar .empty (constituents grammar beam span)).value.entries.map
        Derivation.score).Nodup) :
    (cellOf grammar beam words).SameScores (cellOf other beam words) := by
  induction count : words.length using Nat.strongRecOn generalizing words with
  | ind count ih =>
    subst count
    by_cases empty : words = []
    · rw [empty, cellOf_nil, cellOf_nil]
      exact .refl _
    have fewer {part : List String} (within : part <:+: words)
        (short : part.length < words.length) :
        (cellOf grammar beam part).SameScores (cellOf other beam part) := by
      refine ih part.length short (distinct.imp_right fun apart span inPart => ?_) rfl
      exact apart span (inPart.trans within)
    have parts (cut : Nat) (low : 0 < cut) (high : cut < words.length) :
        (cellOf grammar beam (words.take cut)).SameScores (cellOf other beam (words.take cut)) ∧
          (cellOf grammar beam (words.drop cut)).SameScores
            (cellOf other beam (words.drop cut)) := by
      constructor
      · refine fewer (words.take_prefix cut).isInfix ?_
        rw [List.length_take]
        omega
      · refine fewer (words.drop_suffix cut).isInfix ?_
        rw [List.length_drop]
        omega
    have closed : (Cell.close grammar .empty (constituents grammar beam words)).value.SameScores
        (Cell.close other .empty (constituents other beam words)).value := by
      apply Cell.sameScores_close same cycles
      · exact fun tree offered => bears_of_mem_constituents (· ≤ ·) .empty offered
      · exact fun tree offered => bears_of_mem_constituents (· ≤ ·) .empty offered
      · exact fun tree offered => rating_mem_constituents same parts offered
      · refine fun tree offered => rating_mem_constituents same.symm (fun cut low high => ?_) offered
        exact ⟨(parts cut low high).1.symm, (parts cut low high).2.symm⟩
    rw [cellOf_eq grammar beam empty, cellOf_eq other beam empty]
    refine sameScores_limited closed (distinct.imp_right fun apart => ?_)
    exact apart words List.infix_rfl empty

/-! ### Main result -/

/-- Where no cycle of unary rules gains, the order of the rules makes no difference to scores: the
cells of two charts hold the same labels with the same scores, and the best parses are worth the
same. With a beam this asks that in no cell two labels have equal scores when it is pruned. -/
theorem sameScores_of_perm {grammar reordered : Grammar σ}
    (start : reordered.start = grammar.start) (order : reordered.rules.Perm grammar.rules)
    (cycles : grammar.CyclesNeverGain) (words : List String) (width : Option Int)
    (distinct : width.bind beamOfWidth = none ∨
      ∀ first last, first ≤ last → last < words.length →
        ((unprunedCell grammar (width.bind beamOfWidth) words first last).entries.map
          Derivation.score).Nodup) :
    (∀ first last, first ≤ last → last < words.length → ∃ cell other,
      (fill grammar (width.bind beamOfWidth) words).value.cell first last = .ok cell ∧
      (fill reordered (width.bind beamOfWidth) words).value.cell first last = .ok other ∧
      cell.SameScores other) ∧
    (parse grammar (width.bind beamOfWidth) words).value.map Derivation.score =
      (parse reordered (width.bind beamOfWidth) words).value.map Derivation.score := by
  have same : grammar.SameRules reordered := fun rule => order.symm.mem_iff
  -- The cells of the spans are those of the words that stand together in the sentence.
  have apart : width.bind beamOfWidth = none ∨ ∀ span, span <:+: words → span ≠ [] →
      ((Cell.close grammar .empty (constituents grammar (width.bind beamOfWidth)
        span)).value.entries.map Derivation.score).Nodup := by
    refine distinct.imp_right fun apart span within nonempty => ?_
    obtain ⟨first, last, ordered, inside, rfl⟩ := exists_slice_of_isInfix within nonempty
    rw [← unprunedCell_eq grammar _ ordered inside]
    exact apart first last ordered inside
  constructor
  · intro first last ordered inside
    refine ⟨_, _, cell_fill_eq_ok_iff.2 ⟨⟨ordered, inside⟩, rfl⟩,
      cell_fill_eq_ok_iff.2 ⟨⟨ordered, inside⟩, rfl⟩, ?_⟩
    refine sameScores_cellOf same cycles (apart.imp_right fun apart span inSlice => ?_)
    have within : slice words first (last - first) <:+: words :=
      (List.take_prefix _ _).isInfix.trans (List.drop_suffix _ _).isInfix
    exact apart span (inSlice.trans within)
  · rw [value_parse, value_parse, start]
    exact sameScores_cellOf same cycles apart grammar.start

/-- A word has two labels here that stand on each other, at different scores. -/
def steep : Grammar Int where
  start := "S"
  rules := [⟨"S", ["A", "B"], 2⟩, ⟨"S", ["C", "B"], 0⟩, ⟨"A", ["C"], -1⟩, ⟨"C", ["A"], -1⟩,
    ⟨"C", ["a"], -3⟩, ⟨"A", ["a"], -5⟩, ⟨"B", ["b"], -2⟩]
  arity := by decide

def steepReversed : Grammar Int where
  start := "S"
  rules := steep.rules.reverse
  arity := by decide

theorem sameScores_of_perm_steep :
    let words := ["a", "b"]
    (steepReversed.start = steep.start ∧ steepReversed.rules.Perm steep.rules ∧
      steep.CyclesNeverGain ∧
      ∀ first last, first ≤ last → last < words.length →
        ((unprunedCell steep (some 1) words first last).entries.map Derivation.score).Nodup) ∧
    (parse steep (some 1) words).value.map Derivation.score =
      (parse steepReversed (some 1) words).value.map Derivation.score ∧
    (parse steepReversed (some 1) words).value.map Derivation.score = some (-5) := by
  intro words
  have start : steepReversed.start = steep.start := rfl
  have order : steepReversed.rules.Perm steep.rules := List.reverse_perm _
  have cycles : steep.CyclesNeverGain := Grammar.cyclesNeverGain_of_nonpos (by decide +kernel)
  have distinct : ∀ first last, first ≤ last → last < words.length →
      ((unprunedCell steep (some 1) words first last).entries.map Derivation.score).Nodup := by
    intro first last ordered inside
    have inside : last < 2 := inside
    have onFirst : (unprunedCell steep (some 1) words 0 0).entries.map Derivation.score =
        [-3, -4] := by cbv
    have onSecond : (unprunedCell steep (some 1) words 1 1).entries.map Derivation.score =
        [-2] := by cbv
    have onBoth : (unprunedCell steep (some 1) words 0 1).entries.map Derivation.score =
        [-5] := by cbv
    obtain ⟨rfl, rfl⟩ | ⟨rfl, rfl⟩ | ⟨rfl, rfl⟩ : (first = 0 ∧ last = 0) ∨
        (first = 1 ∧ last = 1) ∨ (first = 0 ∧ last = 1) := by omega
    · rw [onFirst]
      decide
    · rw [onSecond]
      decide
    · rw [onBoth]
      decide
  have scores := (sameScores_of_perm start order cycles words (some 1) (Or.inr distinct)).2
  have parsed : (parse steepReversed (some 1) words).value.map Derivation.score = some (-5) := by
    cbv
  exact ⟨⟨start, order, cycles, distinct⟩, scores, parsed⟩

end ChartParse.Chart
