import ChartParse.Proofs.Cell.BestScores

/-!
Adding derivations to a cell one call after another.

A derivation that is stored takes the place of a worse one of its label, and the unary rules are
applied to it anew, so what stood on the worse one is tried again on the better. What is refused
need not be tried again: if no cycle of unary rules gains, whatever would stand on it is worth no
more than what already stands on another.

Main statement: `best_of_addAll`, the scores that are left in the end are the best over all paths of
unary rules up from what was added, whatever the order of the calls.
-/

namespace ChartParse

variable {σ : Type}

/-- A word under a label, or two parts under one: what a rule makes that is not unary. -/
inductive Derivation.Ground : Derivation σ → Prop
  | lexical (label : String) (score : σ) (word : String) (value : σ) :
      Ground (.unary label score (.leaf word value))
  | binary (label : String) (score : σ) (left right : Derivation σ) :
      Ground (.binary label score left right)

theorem Derivation.Ground.beneath_eq_nil {tree : Derivation σ} (ground : tree.Ground) :
    tree.beneath = [] := by
  cases ground <;> rfl

namespace Cell

variable [Add σ]

section Calls

variable [LT σ] [DecidableLT σ]

/-- Adds derivations to a cell, one call after another. -/
def addAll (grammar : Grammar σ) (cell : Cell σ) (offers : List (Derivation σ)) :
    Traced (Event σ) (Cell σ) :=
  offers.foldlM (fun cell offered => do
    let (cell, _) ← cell.add grammar offered
    return cell) cell

theorem value_addAll (grammar : Grammar σ) (cell : Cell σ) (offers : List (Derivation σ)) :
    (addAll grammar cell offers).value = (cell.close grammar offers).value := by
  have each (cell : Cell σ) (offered : Derivation σ) :
      (do let (cell, _) ← cell.add grammar offered; return cell : Traced (Event σ) (Cell σ)).value =
        (cell.close grammar [offered]).value := value_add grammar cell offered
  rw [addAll, Traced.value_foldlM]
  simp only [each]
  rw [foldl_close grammar (fun offered => [offered]), List.flatMap_singleton']

end Calls

variable [LinearOrder σ] [AddLeftMono σ] [AddRightMono σ] {grammar : Grammar σ}

/-- What is added one call after another to an empty cell, none of it by a unary rule, leaves there
the labels to which paths of unary rules lead up from it. If no cycle of unary rules gains, each
label has the best score that such a path comes to, and the order of the calls makes no difference
to labels and scores. -/
theorem best_of_addAll (cycles : grammar.CyclesNeverGain) {offers : List (Derivation σ)}
    (ground : ∀ offer ∈ offers, offer.Ground) :
    (∀ label, (addAll grammar .empty offers).value.contains label = true ↔
      ∃ offer ∈ offers, ∃ weights, grammar.UnaryPath offer.label weights label) ∧
    (∀ held ∈ (addAll grammar .empty offers).value.entries,
      IsGreatest {score | ∃ offer ∈ offers, ∃ weights,
        grammar.UnaryPath offer.label weights held.label ∧
          Grammar.climb offer.score weights = score} held.score) ∧
    ∀ order, order.Perm offers →
      (addAll grammar .empty order).value.SameScores (addAll grammar .empty offers).value := by
  -- No unary rule has made what is offered, so the guard has nothing to hold against it.
  have borne : ∀ offer ∈ offers, Bears grammar (· ≤ ·) .empty offer := fun offer offered =>
    bears_of_beneath_eq_nil .empty (ground offer offered).beneath_eq_nil
  simp only [value_addAll]
  refine ⟨fun label => ?_, fun held member => ?_, fun order same => ?_⟩
  · rw [contains_iff]
    constructor
    · rintro ⟨held, member, rfl⟩
      obtain ⟨offer, offered, weights, path, _⟩ := reaches_of_mem_close member
      exact ⟨offer, offered, weights, path⟩
    · rintro ⟨offer, offered, weights, path⟩
      have reaches : Reaches grammar offers label (Grammar.climb offer.score weights) :=
        ⟨offer, offered, weights, path, rfl⟩
      obtain ⟨held, member, same, _⟩ :=
        exists_of_reaches (Grammar.dominance_le cycles) borne reaches
      exact ⟨held, member, same⟩
  · have found : ((close grammar .empty offers).value.get? held.label).map Derivation.score =
        some held.score := by
      rw [get?_eq_some_iff.2 ⟨member, rfl⟩, Option.map_some]
    exact (map_score_get?_close_eq_some_iff cycles borne).1 found
  · apply sameScores_close (fun _ => Iff.rfl) cycles
    · exact fun offer offered => borne offer (same.mem_iff.1 offered)
    · exact borne
    · exact fun offer offered => List.mem_map_of_mem (same.mem_iff.1 offered)
    · exact fun offer offered => List.mem_map_of_mem (same.mem_iff.2 offered)

/-- Two symbols stand on each other here, and going round costs one. -/
def seesaw : Grammar Int where
  start := "S"
  rules := [⟨"A", ["B"], -1⟩, ⟨"B", ["A"], 0⟩, ⟨"C", ["B"], -2⟩, ⟨"B", ["a"], -5⟩,
    ⟨"S", ["A", "C"], 0⟩]
  arity := by decide

/-- The second call improves on what had been built upon the first, and the third is refused. -/
theorem best_of_addAll_seesaw :
    let offers : List (Derivation Int) := [.unary "B" (-5) (.leaf "a" 0),
      .binary "A" (-3) (.leaf "A" 0) (.leaf "C" 0), .unary "B" (-7) (.leaf "a" 0)]
    (seesaw.CyclesNeverGain ∧ ∀ offer ∈ offers, offer.Ground) ∧
    (addAll seesaw .empty offers).value.entries.map Derivation.rating =
      [("B", -3), ("A", -3), ("C", -5)] ∧
    (∀ weights, seesaw.UnaryPath "A" weights "C" → Grammar.climb (-3) weights ≤ -5) ∧
    (addAll seesaw .empty offers.reverse).value.SameScores (addAll seesaw .empty offers).value := by
  intro offers
  have cycles : seesaw.CyclesNeverGain := by
    have light : ∀ rule ∈ seesaw.rules, seesaw.kind? rule = some .unary → rule.weight ≤ 0 := by
      decide +kernel
    exact Grammar.cyclesNeverGain_of_nonpos light
  have ground : ∀ offer ∈ offers, offer.Ground := by
    simp only [offers, List.forall_mem_cons]
    exact ⟨.lexical .., .binary .., .lexical .., List.forall_mem_nil _⟩
  obtain ⟨_, best, ordered⟩ := best_of_addAll cycles ground
  have ratings : (addAll seesaw .empty offers).value.entries.map Derivation.rating =
      [("B", -3), ("A", -3), ("C", -5)] := by
    cbv
  refine ⟨⟨cycles, ground⟩, ratings, fun weights path => ?_, ordered _ offers.reverse_perm⟩
  have there : ("C", -5) ∈ (addAll seesaw .empty offers).value.entries.map Derivation.rating := by
    rw [ratings]
    decide
  obtain ⟨held, member, rating⟩ := List.mem_map.1 there
  obtain ⟨label, score⟩ := Prod.mk.inj rating
  have second : .binary "A" (-3) (.leaf "A" 0) (.leaf "C" 0) ∈ offers := by simp [offers]
  exact score ▸ (best held member).2 ⟨_, second, weights, label ▸ path, rfl⟩

end Cell

end ChartParse
