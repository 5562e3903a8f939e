import ChartParse.Proofs.Cell.Covering
import ChartParse.Proofs.Chart.Soundness

/-!
Completeness of charts without a beam: every derivation of the words of a span is covered by what
the chart holds over the span.

The proof is by induction on the derivation. Its parts are covered by derivations in the cells of
their words, and what the rule at its top makes of these has been offered to the cell.
-/

namespace ChartParse.Chart

variable {σ : Type} [Zero σ] [Add σ] [LT σ] [DecidableLT σ] {grammar : Grammar σ}
  {words : List String} {tree : Derivation σ}

theorem Constituent.derives {beam : Option Int}
    (constituent : Constituent grammar beam words tree) : grammar.Derives tree words := by
  cases constituent with
  | lexical member kind expands => exact .lexical member kind expands
  | @binary rule left right _ cut low high member expands onLeft onRight =>
    rw [← List.take_append_drop cut words]
    exact .binary member expands (derives_of_mem_cellOf onLeft) (derives_of_mem_cellOf onRight)

/-- Constituents need no support: no unary node stands over another in them. -/
theorem supports_of_mem_constituents {beam : Option Int} (below : σ → σ → Prop) (cell : Cell σ)
    (offered : tree ∈ constituents grammar beam words) : cell.Supports grammar below tree :=
  have constituent := mem_constituents_iff.1 offered
  ⟨⟨words, constituent.derives⟩, constituent.beneath_eq_nil ▸ List.forall_mem_nil _⟩

theorem bears_of_mem_constituents {beam : Option Int} (below : σ → σ → Prop) (cell : Cell σ)
    (offered : tree ∈ constituents grammar beam words) : cell.Bears grammar below tree :=
  Cell.bears_of_beneath_eq_nil cell (mem_constituents_iff.1 offered).beneath_eq_nil

/-- Before a beam is applied to it, a cell covers its constituents and the extensions of all that it
holds. -/
theorem covers_close {below : σ → σ → Prop} (dominance : grammar.Dominance below)
    (beam : Option Int) (words : List String) :
    (∀ tree, Constituent grammar beam words tree →
        (Cell.close grammar .empty (constituents grammar beam words)).value.Covers below tree) ∧
      ∀ held ∈ (Cell.close grammar .empty (constituents grammar beam words)).value.entries,
        ∀ extension ∈ Cell.extensions grammar held,
          (Cell.close grammar .empty (constituents grammar beam words)).value.Covers below
            extension := by
  have initially (tree : Derivation σ) (offered : tree ∈ constituents grammar beam words) :=
    bears_of_mem_constituents below .empty offered
  obtain ⟨offers, extensions⟩ := (Cell.settling_covers dominance).close initially
  exact ⟨fun tree constituent => offers tree (mem_constituents_iff.2 constituent), extensions⟩

theorem covers_close_unary {below : σ → σ → Prop} (dominance : grammar.Dominance below)
    {beam : Option Int} {rule : Rule σ} {child : Derivation σ} (member : rule ∈ grammar.rules)
    (kind : grammar.kind? rule = some .unary) (expands : rule.rhs = [child.label])
    (covered : (Cell.close grammar .empty (constituents grammar beam words)).value.Covers below
      child) :
    (Cell.close grammar .empty (constituents grammar beam words)).value.Covers below
      (.unary rule.lhs (child.score + rule.weight) child) := by
  -- The rule has been applied to what covers the child, and the score has not suffered.
  obtain ⟨held, known, same, above⟩ := covered
  have offered : .unary rule.lhs (held.score + rule.weight) held ∈
      Cell.extensions grammar held :=
    Cell.mem_extensions_iff.2 ⟨rule, member, kind, same ▸ expands, rfl⟩
  have covered := (covers_close dominance beam words).2 held known _ offered
  exact covered.weaken dominance.toRising rfl (dominance.add above (dominance.refl rule.weight))

theorem covers_close_binary {below : σ → σ → Prop} (dominance : grammar.Dominance below)
    {beam : Option Int} {rule : Rule σ} {left right : Derivation σ}
    {leftWords rightWords : List String} (member : rule ∈ grammar.rules)
    (expands : rule.rhs = [left.label, right.label])
    (onLeft : (cellOf grammar beam leftWords).Covers below left)
    (onRight : (cellOf grammar beam rightWords).Covers below right) :
    (Cell.close grammar .empty
        (constituents grammar beam (leftWords ++ rightWords))).value.Covers below
      (.binary rule.lhs (left.score + right.score + rule.weight) left right) := by
  obtain ⟨leftHeld, leftKnown, leftSame, leftAbove⟩ := onLeft
  obtain ⟨rightHeld, rightKnown, rightSame, rightAbove⟩ := onRight
  have leftPositive := List.length_pos_iff.2 (ne_nil_of_mem_cellOf leftKnown)
  have rightPositive := List.length_pos_iff.2 (ne_nil_of_mem_cellOf rightKnown)
  -- The cut between the two parts was tried with what covers them.
  have offered : Constituent grammar beam (leftWords ++ rightWords)
      (.binary rule.lhs (leftHeld.score + rightHeld.score + rule.weight) leftHeld rightHeld) := by
    refine .binary leftPositive ?_ member ?_ ?_ ?_
    · rw [List.length_append]
      omega
    · rw [leftSame, rightSame, expands]
    · rwa [List.take_left]
    · rwa [List.drop_left]
  have covered := (covers_close dominance beam _).1 _ offered
  exact covered.weaken dominance.toRising rfl
    (dominance.add (dominance.add leftAbove rightAbove) (dominance.refl rule.weight))

theorem covers_of_derives {below : σ → σ → Prop} (dominance : grammar.Dominance below)
    (derives : grammar.Derives tree words) : (cellOf grammar none words).Covers below tree := by
  have unpruned {words : List String} (nonempty : words ≠ []) : cellOf grammar none words =
      (Cell.close grammar .empty (constituents grammar none words)).value :=
    cellOf_eq grammar none nonempty
  induction derives with
  | lexical member kind expands =>
    rw [unpruned (List.cons_ne_nil _ _)]
    exact (covers_close dominance none _).1 _ (.lexical member kind expands)
  | unary member kind expands derives ih =>
    rw [unpruned derives.words_ne_nil] at ih ⊢
    exact covers_close_unary dominance member kind expands ih
  | binary member expands onLeft onRight ihLeft ihRight =>
    rw [unpruned (List.append_ne_nil_of_left_ne_nil onLeft.words_ne_nil _)]
    exact covers_close_binary dominance member expands ihLeft ihRight

/-- Without a beam a cell holds the labels of the derivations of its words. -/
theorem contains_cellOf_iff (grammar : Grammar σ) (words : List String) (label : String) :
    (cellOf grammar none words).contains label = true ↔
      ∃ tree, grammar.Derives tree words ∧ tree.label = label := by
  rw [Cell.contains_iff]
  constructor
  · rintro ⟨held, member, same⟩
    exact ⟨held, derives_of_mem_cellOf member, same⟩
  · rintro ⟨tree, derives, rfl⟩
    -- Labels alone matter here, so scores need not be compared.
    obtain ⟨held, member, same, _⟩ := covers_of_derives grammar.dominance_true derives
    exact ⟨held, member, same⟩

theorem get?_cellOf_eq_none_iff (grammar : Grammar σ) (words : List String) (label : String) :
    (cellOf grammar none words).get? label = none ↔
      ¬ ∃ tree, grammar.Derives tree words ∧ tree.label = label := by
  rw [← contains_cellOf_iff, Cell.contains, Bool.not_eq_true, Option.isSome_eq_false_iff,
    Option.isNone_iff_eq_none]

end ChartParse.Chart
