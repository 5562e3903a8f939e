import ChartParse.Proofs.Cell.Covering
import ChartParse.Proofs.Cell.Ranking

/-!
The scores of a closed cell, apart from the order in which it was closed.

An offer is worth its score under its own label, and under another label that score with the weights
of a path of unary rules added in turn. Where no cycle of unary rules gains, a closed cell holds each
label with the best of these (`isGreatest_iff`). Cells closed under the same rules, in whatever order
the rules and the offers come, thus hold the same labels with the same scores (`sameScores_close`).
-/

namespace ChartParse

variable {σ : Type}

/-! ### Grammars with the same rules -/

namespace Grammar

/-- The same rules, in any order and any number of times. -/
def SameRules (grammar other : Grammar σ) : Prop :=
  ∀ rule, rule ∈ grammar.rules ↔ rule ∈ other.rules

variable {grammar other : Grammar σ}

theorem SameRules.symm (same : grammar.SameRules other) : other.SameRules grammar :=
  fun rule => (same rule).symm

theorem SameRules.kind? (same : grammar.SameRules other) (rule : Rule σ) :
    grammar.kind? rule = other.kind? rule := by
  have nonterminals : grammar.isNonterminal = other.isNonterminal := by
    funext symbol
    rw [Bool.eq_iff_iff, isNonterminal_iff, isNonterminal_iff]
    exact exists_congr fun rule => and_congr_left' (same rule)
  rw [Grammar.kind?, Grammar.kind?, nonterminals]

theorem UnaryPath.of_sameRules (same : grammar.SameRules other) {bottom top : String}
    {weights : List σ} (path : grammar.UnaryPath bottom weights top) :
    other.UnaryPath bottom weights top := by
  induction path with
  | stay => exact .stay
  | rise path member kind expands ih =>
    exact .rise ih ((same _).1 member) (same.kind? _ ▸ kind) expands

theorem CyclesNeverGain.of_sameRules [Add σ] [LE σ] (same : grammar.SameRules other)
    (cycles : grammar.CyclesNeverGain) : other.CyclesNeverGain :=
  fun symbol weights path => cycles symbol weights (path.of_sameRules same.symm)

end Grammar

/-! ### What offers are worth -/

namespace Cell

variable [Add σ]

/-- A score that the offers have under a label: that of one of them, with the weights of a path of
unary rules added in turn. -/
def Reaches (grammar : Grammar σ) (offers : List (Derivation σ)) (label : String) (score : σ) :
    Prop :=
  ∃ offer ∈ offers, ∃ weights, grammar.UnaryPath offer.label weights label ∧
    Grammar.climb offer.score weights = score

theorem reaches_of_mem (grammar : Grammar σ) {offers : List (Derivation σ)} {offer : Derivation σ}
    (member : offer ∈ offers) : Reaches grammar offers offer.label offer.score :=
  ⟨offer, member, [], .stay, rfl⟩

theorem Reaches.rise {grammar : Grammar σ} {offers : List (Derivation σ)} {rule : Rule σ}
    {symbol : String} {score : σ} (reaches : Reaches grammar offers symbol score)
    (member : rule ∈ grammar.rules) (kind : grammar.kind? rule = some .unary)
    (expands : rule.rhs = [symbol]) :
    Reaches grammar offers rule.lhs (score + rule.weight) := by
  obtain ⟨offer, offered, weights, path, rfl⟩ := reaches
  exact ⟨offer, offered, weights ++ [rule.weight], .rise path member kind expands,
    Grammar.climb_concat _ _ _⟩

/-- What is reached depends on the labels and the scores of the offers only, and on which rules
there are. -/
theorem Reaches.transfer {grammar other : Grammar σ} (same : grammar.SameRules other)
    {offers others : List (Derivation σ)}
    (rated : ∀ offer ∈ offers, offer.rating ∈ others.map Derivation.rating) {label : String}
    {score : σ} (reaches : Reaches grammar offers label score) :
    Reaches other others label score := by
  obtain ⟨offer, offered, weights, path, rfl⟩ := reaches
  obtain ⟨twin, there, equal⟩ := List.mem_map.1 (rated offer offered)
  obtain ⟨label, score⟩ := Derivation.rating_eq_iff.1 equal
  refine ⟨twin, there, weights, ?_, ?_⟩
  · rw [label]
    exact path.of_sameRules same
  · rw [score]

/-! ### What closed cells hold -/

section Closed

variable [LT σ] [DecidableLT σ] {grammar : Grammar σ} {offers : List (Derivation σ)}

theorem offering_reaches (grammar : Grammar σ) (offers : List (Derivation σ)) :
    Closing.Offering grammar
      (fun _ tree => Reaches grammar offers tree.label tree.score) where
  lasts _ reaches := reaches
  extend := by
    intro cell stored _ reaches extension above
    obtain ⟨rule, member, kind, expands, rfl⟩ := mem_extensions_iff.1 above
    exact reaches.rise member kind expands

/-- The scores in a closed cell are scores that its offers reach. -/
theorem reaches_of_mem_close {held : Derivation σ}
    (member : held ∈ (close grammar .empty offers).value.entries) :
    Reaches grammar offers held.label held.score :=
  (offering_reaches grammar offers).forall_mem_close (fun _ reaches => reaches)
    (fun _ offered => reaches_of_mem grammar offered) held member

/-- A closed cell holds each label with no less than its offers reach. -/
theorem exists_of_reaches {below : σ → σ → Prop} (dominance : grammar.Dominance below)
    (borne : ∀ tree ∈ offers, Bears grammar below .empty tree) {label : String} {score : σ}
    (reaches : Reaches grammar offers label score) :
    ∃ held ∈ (close grammar .empty offers).value.entries,
      held.label = label ∧ below score held.score := by
  obtain ⟨covered, extended⟩ := (settling_covers dominance).close borne
  obtain ⟨offer, offered, weights, path, rfl⟩ := reaches
  induction path with
  | stay => exact covered offer offered
  | @rise rule weights symbol path member kind expands ih =>
    obtain ⟨held, known, same, above⟩ := ih
    -- The rule has been applied to what the cell holds at this point of the path.
    obtain ⟨next, there, label, better⟩ := extended held known _
      (mem_extensions_iff.2 ⟨rule, member, kind, same ▸ expands, rfl⟩)
    refine ⟨next, there, label, ?_⟩
    rw [Grammar.climb_concat]
    exact dominance.trans (dominance.add above (dominance.refl rule.weight)) better

end Closed

variable [LinearOrder σ] [AddLeftMono σ] [AddRightMono σ]

/-- Where no cycle gains, the score of a label in a closed cell is the best that its offers reach. -/
theorem map_score_get?_close_eq_some_iff {grammar : Grammar σ} (cycles : grammar.CyclesNeverGain)
    {offers : List (Derivation σ)}
    (borne : ∀ tree ∈ offers, Bears grammar (· ≤ ·) .empty tree) {label : String}
    {best : σ} :
    ((close grammar .empty offers).value.get? label).map Derivation.score = some best ↔
      IsGreatest {score | Reaches grammar offers label score} best := by
  have bounded {score : σ} (reaches : Reaches grammar offers label score) :=
    exists_of_reaches (Grammar.dominance_le cycles) borne reaches
  constructor
  · intro scored
    obtain ⟨held, found, rfl⟩ := Option.map_eq_some_iff.1 scored
    obtain ⟨member, rfl⟩ := get?_eq_some_iff.1 found
    refine ⟨reaches_of_mem_close member, fun score reaches => ?_⟩
    obtain ⟨other, there, same, above⟩ := bounded reaches
    obtain rfl : other = held :=
      Option.some.inj ((get?_eq_some_iff.2 ⟨there, same⟩).symm.trans found)
    exact above
  · rintro ⟨reached, greatest⟩
    obtain ⟨held, there, rfl, above⟩ := bounded reached
    have least : held.score ≤ best := greatest (reaches_of_mem_close there)
    rw [get?_eq_some_iff.2 ⟨there, rfl⟩, Option.map_some, le_antisymm least above]

/-- Two cells closed under the same rules, with offers of the same labels and scores, hold the same
labels with the same scores. -/
theorem sameScores_close {grammar other : Grammar σ} (same : grammar.SameRules other)
    (cycles : grammar.CyclesNeverGain) {offers others : List (Derivation σ)}
    (borne : ∀ tree ∈ offers, Bears grammar (· ≤ ·) .empty tree)
    (otherBorne : ∀ tree ∈ others, Bears other (· ≤ ·) .empty tree)
    (onto : ∀ offer ∈ offers, offer.rating ∈ others.map Derivation.rating)
    (back : ∀ offer ∈ others, offer.rating ∈ offers.map Derivation.rating) :
    (close grammar .empty offers).value.SameScores (close other .empty others).value := by
  intro label
  have reached : {score | Reaches grammar offers label score} =
      {score | Reaches other others label score} :=
    Set.ext fun score => ⟨.transfer same onto, .transfer same.symm back⟩
  apply Option.ext
  intro score
  rw [map_score_get?_close_eq_some_iff cycles borne,
    map_score_get?_close_eq_some_iff (cycles.of_sameRules same) otherBorne, reached]

end Cell

end ChartParse
