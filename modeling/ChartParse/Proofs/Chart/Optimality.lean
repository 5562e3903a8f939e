import ChartParse.Proofs.Chart.Recognition

/-!
Optimality: without a beam, and if no cycle of unary rules gains, a chart holds for each label a
derivation that no other outscores.

There are infinitely many derivations where unary rules go round in cycles, but each is covered by
what the chart holds. Scores may be of any kind that is linearly ordered and added monotonically;
addition need be neither associative nor commutative.
-/

namespace ChartParse

variable {σ : Type} [Zero σ] [Add σ]

/-- The answer to the search for the best derivation of some words under a label: nothing only if
there is no derivation, and else one that is worth as much as any. -/
structure Grammar.Best [LE σ] (grammar : Grammar σ) (words : List String) (label : String)
    (answer : Option (Derivation σ)) : Prop where
  none_iff : answer = none ↔ ¬ ∃ tree, grammar.Derives tree words ∧ tree.label = label
  derives : ∀ best, answer = some best → grammar.Derives best words ∧ best.label = label
  maximal : ∀ best, answer = some best →
    ∀ tree, grammar.Derives tree words → tree.label = label → tree.score ≤ best.score

namespace Chart

variable [LinearOrder σ] [AddLeftMono σ] [AddRightMono σ]

theorem best_cellOf {grammar : Grammar σ} (cycles : grammar.CyclesNeverGain)
    (words : List String) (label : String) :
    grammar.Best words label ((cellOf grammar none words).get? label) where
  none_iff := get?_cellOf_eq_none_iff grammar words label
  derives best found :=
    ⟨derives_of_mem_cellOf (Cell.mem_entries_of_get? found), Cell.label_of_get? found⟩
  maximal := by
    rintro best found tree derives rfl
    -- What covers the derivation is what the cell answers with, since labels are distinct.
    obtain ⟨held, member, same, above⟩ := covers_of_derives (grammar.dominance_le cycles) derives
    have known := Cell.get?_eq_some_iff.2 ⟨member, same⟩
    obtain rfl : held = best := Option.some.inj (known.symm.trans found)
    exact above

/-- Without a beam, and if no cycle of unary rules gains, the cell of every span holds for each
label a best derivation of the words of the span, and the parse of the sentence is a best
derivation from the start symbol. -/
theorem best_of_cyclesNeverGain (grammar : Grammar σ) (cycles : grammar.CyclesNeverGain)
    (words : List String) (width : Option Int) (unpruned : width = none ∨ width = some 0) :
    (∀ first last, first ≤ last → last < words.length → ∃ cell,
      (fill grammar (width.bind beamOfWidth) words).value.cell first last = .ok cell ∧
      ∀ label, grammar.Best (slice words first (last - first)) label (cell.get? label)) ∧
    grammar.Best words grammar.start (parse grammar (width.bind beamOfWidth) words).value := by
  rw [beamOfWidth_unpruned unpruned, value_parse]
  refine ⟨fun first last ordered inside => ?_, best_cellOf cycles words grammar.start⟩
  exact ⟨_, cell_fill_eq_ok_iff.2 ⟨⟨ordered, inside⟩, rfl⟩, best_cellOf cycles _⟩

/-- Two symbols expand to each other here, at a loss. -/
def cyclic : Grammar Int where
  start := "S"
  rules := [⟨"S", ["A", "B"], 2⟩, ⟨"A", ["C"], 0⟩, ⟨"C", ["A"], -1⟩, ⟨"C", ["a"], -3⟩,
    ⟨"A", ["a"], -4⟩, ⟨"B", ["b"], -2⟩, ⟨"S", ["C", "B"], 1⟩]
  arity := by decide

theorem le_of_derives_cyclic : cyclic.CyclesNeverGain ∧
    ((some 0 : Option Int) = none ∨ (some 0 : Option Int) = some 0) ∧
    ∀ tree, cyclic.Derives tree ["a", "b"] → tree.label = "S" → tree.score ≤ -3 := by
  have cycles : cyclic.CyclesNeverGain := by
    have light : ∀ rule ∈ cyclic.rules, cyclic.kind? rule = some .unary → rule.weight ≤ 0 := by
      decide +kernel
    exact Grammar.cyclesNeverGain_of_light fun rule member kind score => by
      have := light rule member kind
      omega
  have best := (best_of_cyclesNeverGain cyclic cycles ["a", "b"] (some 0) (Or.inr rfl)).2
  have parsed : ((parse cyclic ((some 0 : Option Int).bind beamOfWidth) ["a", "b"]).value.map
      Derivation.score) = some (-3) := by
    decide +kernel
  obtain ⟨top, found, score⟩ := Option.map_eq_some_iff.1 parsed
  exact ⟨cycles, Or.inr rfl, score ▸ best.maximal top found⟩

end Chart

end ChartParse
