import ChartParse.Proofs.Cell.BestPaths
import ChartParse.Proofs.Decimal.Order

/-!
Cells closed under the unary rules, whatever the weights are.

A cell that is being closed is not closed yet: the extensions of what it holds may still be on the
agenda, and whatever is stored may take the place of a derivation that has been extended before.
But each extension of what the cell holds is still to come or would be refused if it came again, and
storing a derivation makes the cell refuse no less (`rivals_store`). For this it is enough that
scores are strictly ordered, as doubles are with infinities and NaNs among them.

Main statement: `closed_of_addAll`.
-/

namespace ChartParse.Cell

variable {σ : Type} [LT σ] [DecidableLT σ]

theorem judge_ne_improves_iff {cell : Cell σ} {offered : Derivation σ} :
    cell.judge offered ≠ .improves ↔
      (∃ held, cell.get? offered.label = some held ∧ ¬ held.score < offered.score) ∨
        offered.repeatsLabel = true := by
  rw [ne_eq, judge_eq_improves_iff, ← rivals_iff]
  cases cell.rivals offered <;> cases offered.repeatsLabel <;> simp

variable [IsStrictOrder σ (· < ·)]

theorem rivals_store_self (cell : Cell σ) (stored : Derivation σ) :
    (cell.store stored).rivals stored = true := by
  refine rivals_iff.2 ⟨stored, ?_, irrefl_of (· < ·) stored.score⟩
  rw [get?_store, if_pos rfl]

/-- What is not beaten before a derivation is stored is not beaten after: what is stored scores more
than what it takes the place of. -/
theorem rivals_store {cell : Cell σ} {stored other : Derivation σ}
    (improves : cell.judge stored = .improves) (rival : cell.rivals other = true) :
    (cell.store stored).rivals other = true := by
  obtain ⟨held, found, unbeaten⟩ := rivals_iff.1 rival
  rw [rivals_iff]
  -- Of the labels only that of what is stored has another derivation now.
  by_cases replaced : stored.label = other.label
  · refine ⟨stored, by rw [get?_store, if_pos replaced], fun beaten => unbeaten ?_⟩
    have label : held.label = stored.label := (label_of_get? found).trans replaced.symm
    have gains : held.score < stored.score :=
      lt_of_improves improves (mem_entries_of_get? found) label
    exact trans_of (· < ·) gains beaten
  · exact ⟨held, by rw [get?_store, if_neg replaced, found], unbeaten⟩

variable [Add σ]

/-- Whatever a cell has been offered it would not store if it was offered again. -/
theorem settling_refused (grammar : Grammar σ) :
    Closing.Settling grammar (fun _ _ => True) fun cell tree => cell.judge tree ≠ .improves where
  lasts _ _ := trivial
  extend _ _ _ _ := trivial
  settled_lasts := by
    intro cell stored other improves refused
    rw [judge_ne_improves_iff, ← rivals_iff] at refused ⊢
    exact refused.imp_left (rivals_store improves)
  store {cell stored} _ := by
    rw [judge_ne_improves_iff, ← rivals_iff]
    exact Or.inl (rivals_store_self cell stored)
  refuse refused _ := refused

/-- After any derivations have been added to an empty cell, the cell is closed under the unary
rules: for each rule over a label that it holds, it holds the left-hand side, with a score that the
rule does not beat, unless to apply the rule would be to repeat a label. And for each derivation
that was added it holds the label, with a score that is not beaten, unless that derivation repeats
it. -/
theorem closed_of_addAll (grammar : Grammar σ) (offers : List (Derivation σ)) :
    (∀ label child, (addAll grammar .empty offers).value.get? label = some child →
      ∀ rule ∈ grammar.rules, grammar.kind? rule = some .unary → rule.rhs = [label] →
        (∃ held, (addAll grammar .empty offers).value.get? rule.lhs = some held ∧
          ¬ held.score < child.score + rule.weight) ∨
        (Derivation.unary rule.lhs (child.score + rule.weight) child).repeatsLabel = true) ∧
    ∀ offer ∈ offers,
      (∃ held, (addAll grammar .empty offers).value.get? offer.label = some held ∧
        ¬ held.score < offer.score) ∨ offer.repeatsLabel = true := by
  have anything : ∀ offer ∈ offers, True := fun _ _ => trivial
  obtain ⟨offered, extended⟩ := (settling_refused grammar).close anything
  rw [value_addAll]
  refine ⟨fun label child found rule member kind expands => ?_, fun offer member => ?_⟩
  · obtain ⟨stored, rfl⟩ := get?_eq_some_iff.1 found
    exact judge_ne_improves_iff.1
      (extended child stored _ (mem_extensions_iff.2 ⟨rule, member, kind, expands, rfl⟩))
  · exact judge_ne_improves_iff.1 (offered offer member)

/-- A cycle that gains with each round, and a rule whose weight is no number. -/
def swerving : Grammar Float where
  start := "S"
  rules := [⟨"A", ["B"], 1⟩, ⟨"B", ["A"], 0⟩, ⟨"C", ["B"], 0 / 0⟩, ⟨"B", ["b"], -1⟩,
    ⟨"S", ["A", "C"], 0⟩]
  arity := by decide

/-- The second derivation takes the place of the first. What had been built on the first stays where
the score is no number, since nothing is worth more. -/
theorem closed_of_addAll_swerving :
    let cell := (addAll swerving .empty [.unary "B" (-1) (.leaf "b" 0),
      .unary "B" 2 (.leaf "b" 0)]).value
    IsStrictOrder Float (· < ·) ∧
    cell.entries = [.unary "B" 2 (.leaf "b" 0), .unary "A" 3 (.unary "B" 2 (.leaf "b" 0)),
      .unary "C" (0 / 0) (.unary "B" (-1) (.leaf "b" 0))] ∧
    (∃ held, cell.get? "C" = some held ∧ ¬ held.score < 2 + 0 / 0) ∧
    (Derivation.unary "B" (3 + 0) (.unary "A" 3 (.unary "B" 2 (.leaf "b" 0)))).repeatsLabel =
      true := by
  intro cell
  obtain ⟨closed, -⟩ := closed_of_addAll swerving [.unary "B" (-1) (.leaf "b" 0),
    .unary "B" 2 (.leaf "b" 0)]
  have bottom : cell.get? "B" = some (.unary "B" 2 (.leaf "b" 0)) := by decide +kernel
  have top : cell.get? "A" = some (.unary "A" 3 (.unary "B" 2 (.leaf "b" 0))) := by decide +kernel
  refine ⟨inferInstance, by decide +kernel, ?_, ?_⟩
  · have worthless := closed "B" _ bottom ⟨"C", ["B"], 0 / 0⟩ (by simp [swerving])
      (by decide +kernel) rfl
    exact worthless.resolve_right (by decide)
  · have round := closed "A" _ top ⟨"B", ["A"], 0⟩ (by simp [swerving]) (by decide +kernel) rfl
    -- The cycle gains, so it is refused for the repeated label alone.
    refine round.resolve_left ?_
    rintro ⟨held, found, unbeaten⟩
    obtain rfl : _ = held := Option.some.inj (bottom.symm.trans found)
    exact unbeaten (by decide +kernel)

end ChartParse.Cell
