import ChartParse.Proofs.Chart.Completeness

/-!
Recognition: without a beam a chart holds exactly the labels that the grammar derives, whatever the
weights are. Scores may fail to compare, and cycles of unary rules may gain; the two tests that
refuse derivations then decide which derivation of a label is kept, never whether one is.
-/

namespace ChartParse.Chart

variable {σ : Type} [Zero σ] [Add σ] [LT σ] [DecidableLT σ]

theorem beamOfWidth_unpruned {width : Option Int} (unpruned : width = none ∨ width = some 0) :
    width.bind beamOfWidth = none := by
  rcases unpruned with rfl | rfl <;> rfl

/-- At no time is a derivation refused whose label the cell lacks. -/
theorem contains_of_refused {grammar : Grammar σ} {words : List String} {closing : Closing σ}
    (run : Closing.Run grammar ⟨.empty, constituents grammar none words⟩ closing)
    {refused : Derivation σ} (offered : refused ∈ closing.agenda.head?)
    (verdict : closing.cell.judge refused ≠ .improves) :
    closing.cell.contains refused.label = true := by
  -- With the comparison that always holds, what is covered has its label in the cell.
  have settling := Cell.settling_covers grammar.dominance_true
  have invariant := settling.run
    (fun tree offered => bears_of_mem_constituents (fun _ _ => True) .empty offered) run
  have pending := invariant.pending refused (List.mem_of_head? offered)
  obtain ⟨held, member, same, _⟩ := settling.refuse verdict pending
  exact Cell.contains_iff.2 ⟨held, member, same⟩

/-- Without a beam the labels in the cell of a span are those of the derivations of its words, and
a sentence has no parse exactly if it has no derivation from the start symbol. While the cell of a
span is filled, each derivation that is refused finds its label there. -/
theorem contains_iff_derives (grammar : Grammar σ) (words : List String) (width : Option Int)
    (unpruned : width = none ∨ width = some 0) :
    (∀ first last, first ≤ last → last < words.length → ∃ cell,
      (fill grammar (width.bind beamOfWidth) words).value.cell first last = .ok cell ∧
      (∀ label, cell.contains label = true ↔
        ∃ tree, grammar.Derives tree (slice words first (last - first)) ∧ tree.label = label) ∧
      Closing.Run grammar
        ⟨.empty, constituents grammar none (slice words first (last - first))⟩ ⟨cell, []⟩) ∧
    (∀ span closing, Closing.Run grammar ⟨.empty, constituents grammar none span⟩ closing →
      ∀ refused ∈ closing.agenda.head?, closing.cell.judge refused ≠ .improves →
        closing.cell.contains refused.label = true) ∧
    ((parse grammar (width.bind beamOfWidth) words).value = none ↔
      ¬ ∃ tree, grammar.Derives tree words ∧ tree.label = grammar.start) := by
  rw [beamOfWidth_unpruned unpruned]
  refine ⟨fun first last ordered inside => ?_, ?_, ?_⟩
  · refine ⟨_, cell_fill_eq_ok_iff.2 ⟨⟨ordered, inside⟩, rfl⟩, contains_cellOf_iff grammar _, ?_⟩
    rw [cellOf_eq grammar none (slice_ne_nil ordered inside)]
    exact Closing.run_close grammar .empty _
  · exact fun span closing run refused => contains_of_refused run
  · rw [value_parse]
    exact get?_cellOf_eq_none_iff grammar words grammar.start

/-- A cycle of unary rules gains here. -/
def gainful : Grammar Int where
  start := "A"
  rules := [⟨"A", ["B", "C"], 0⟩, ⟨"A", ["D"], 1⟩, ⟨"D", ["A"], 0⟩, ⟨"B", ["b"], 0⟩,
    ⟨"C", ["c"], 0⟩]
  arity := by decide

theorem derives_of_gainful : ((none : Option Int) = none ∨ (none : Option Int) = some 0) ∧
    ∃ tree, gainful.Derives tree ["b", "c"] ∧ tree.label = "A" := by
  refine ⟨Or.inl rfl, ?_⟩
  by_contra underived
  have parsed := (contains_iff_derives gainful ["b", "c"] none (Or.inl rfl)).2.2.2 underived
  revert parsed
  decide +kernel

end ChartParse.Chart
