import ChartParse.Grammar.Basic
import ChartParse.Derivation.Basic
import Mathlib.Algebra.Order.Monoid.Unbundled.Basic

/-!
What a grammar derives, apart from any chart.

`Grammar.Derives` says that a scored tree is a derivation of some words: each node applies a rule
of the grammar, and its score is computed from those of its children. `Grammar.UnaryPath` follows
unary rules from one symbol up to another and collects their weights.

Main statement: `Grammar.Derives.climbs`, the score at the top of a run of unary nodes is the score
of any node of the run with the weights of a path of unary rules added in turn.
-/

namespace ChartParse

variable {σ : Type}

/-! ### Nodes over the same words -/

namespace Derivation

/-- The nodes over the same words as a tree, from the top down: its run of unary nodes, and the
binary node under the run if there is one. -/
def spine : Derivation σ → List (Derivation σ)
  | leaf _ _ => []
  | unary label score child => unary label score child :: child.spine
  | binary label score left right => [binary label score left right]

/-- The nodes of the spine below the top of a tree. -/
def beneath : Derivation σ → List (Derivation σ)
  | unary _ _ child => child.spine
  | _ => []

theorem mem_spine {tree node : Derivation σ} (member : node ∈ tree.spine) :
    node = tree ∨ node ∈ tree.beneath := by
  cases tree with
  | leaf => simp [spine] at member
  | unary => exact List.mem_cons.1 member
  | binary => exact Or.inl (List.mem_singleton.1 member)

/-- The labels of the unary nodes are those of the spine without a binary node. -/
theorem unaryLabels_eq (tree : Derivation σ) :
    tree.unaryLabels = (tree.spine.filter isUnary).map label := by
  induction tree with
  | leaf | binary => rfl
  | unary label score child ih =>
    rw [spine, List.filter_cons_of_pos rfl, List.map_cons, ← ih, unaryLabels, label_unary]

theorem mem_unaryLabels {tree : Derivation σ} {symbol : String} :
    symbol ∈ tree.unaryLabels ↔ ∃ node ∈ tree.spine, node.isUnary = true ∧ node.label = symbol := by
  simp [unaryLabels_eq, and_assoc]

theorem exists_of_repeatsLabel {tree : Derivation σ} (repeated : tree.repeatsLabel = true) :
    ∃ node ∈ tree.beneath, node.label = tree.label := by
  cases tree with
  | leaf | binary => simp [repeatsLabel] at repeated
  | unary label score child =>
    have member : label ∈ child.unaryLabels := by simpa [repeatsLabel] using repeated
    obtain ⟨node, found, _, same⟩ := mem_unaryLabels.1 member
    exact ⟨node, found, same⟩

end Derivation

/-! ### Derivations of a grammar -/

namespace Grammar

/-- The tree is a derivation of the words: every node applies a rule of the grammar, to a word, to
a tree over the same words or to two trees over adjacent words, and is worth the weight of the rule
added to what stands below it. -/
inductive Derives [Zero σ] [Add σ] (grammar : Grammar σ) : Derivation σ → List String → Prop
  | lexical {rule : Rule σ} {word : String} (member : rule ∈ grammar.rules)
      (kind : grammar.kind? rule = some .lexical) (expands : rule.rhs = [word]) :
      Derives grammar (.unary rule.lhs (0 + rule.weight) (.leaf word 0)) [word]
  | unary {rule : Rule σ} {child : Derivation σ} {words : List String}
      (member : rule ∈ grammar.rules) (kind : grammar.kind? rule = some .unary)
      (expands : rule.rhs = [child.label]) (below : Derives grammar child words) :
      Derives grammar (.unary rule.lhs (child.score + rule.weight) child) words
  | binary {rule : Rule σ} {left right : Derivation σ} {leftWords rightWords : List String}
      (member : rule ∈ grammar.rules) (expands : rule.rhs = [left.label, right.label])
      (onLeft : Derives grammar left leftWords) (onRight : Derives grammar right rightWords) :
      Derives grammar (.binary rule.lhs (left.score + right.score + rule.weight) left right)
        (leftWords ++ rightWords)

/-- A path of unary rules from one symbol up to another, by the weights of its rules. -/
inductive UnaryPath (grammar : Grammar σ) (bottom : String) : List σ → String → Prop
  | stay : UnaryPath grammar bottom [] bottom
  | rise {rule : Rule σ} {weights : List σ} {symbol : String}
      (path : UnaryPath grammar bottom weights symbol) (member : rule ∈ grammar.rules)
      (kind : grammar.kind? rule = some .unary) (expands : rule.rhs = [symbol]) :
      UnaryPath grammar bottom (weights ++ [rule.weight]) rule.lhs

/-- A score with weights added one after another. -/
def climb [Add σ] (score : σ) (weights : List σ) : σ :=
  weights.foldl (· + ·) score

/-- Going round a cycle of unary rules never raises a score. -/
def CyclesNeverGain [Add σ] [LE σ] (grammar : Grammar σ) : Prop :=
  ∀ symbol weights, grammar.UnaryPath symbol weights symbol →
    ∀ score : σ, climb score weights ≤ score

theorem climb_concat [Add σ] (score weight : σ) (weights : List σ) :
    climb score (weights ++ [weight]) = climb score weights + weight := by
  simp [climb]

theorem UnaryPath.climb_le [Add σ] [Preorder σ] {grammar : Grammar σ}
    (light : ∀ rule ∈ grammar.rules, grammar.kind? rule = some .unary →
      ∀ score, score + rule.weight ≤ score)
    {bottom top : String} {weights : List σ} (path : grammar.UnaryPath bottom weights top)
    (score : σ) : climb score weights ≤ score := by
  induction path with
  | stay => exact le_refl score
  | rise path member kind expands ih =>
    rw [climb_concat]
    exact (light _ member kind _).trans ih

/-- Where no unary rule raises a score, as with logarithms of probabilities, no cycle does. -/
theorem cyclesNeverGain_of_light [Add σ] [Preorder σ] {grammar : Grammar σ}
    (light : ∀ rule ∈ grammar.rules, grammar.kind? rule = some .unary →
      ∀ score, score + rule.weight ≤ score) : grammar.CyclesNeverGain :=
  fun _ _ path score => path.climb_le light score

theorem cyclesNeverGain_of_nonpos [AddZeroClass σ] [Preorder σ] [AddLeftMono σ]
    {grammar : Grammar σ} (nonpos : ∀ rule ∈ grammar.rules,
      grammar.kind? rule = some .unary → rule.weight ≤ 0) : grammar.CyclesNeverGain :=
  cyclesNeverGain_of_light fun rule member kind _ =>
    add_le_of_nonpos_right (nonpos rule member kind)

/-- From each node of its spine below the top a tree is reached by a path of unary rules, which
accounts for the difference of their scores. -/
def Climbs [Add σ] (grammar : Grammar σ) (tree : Derivation σ) : Prop :=
  ∀ node ∈ tree.beneath, ∃ weights, weights ≠ [] ∧
    grammar.UnaryPath node.label weights tree.label ∧ tree.score = climb node.score weights

theorem climbs_of_beneath_eq_nil [Add σ] {grammar : Grammar σ} {tree : Derivation σ}
    (bare : tree.beneath = []) : grammar.Climbs tree := by
  intro node lower
  rw [bare] at lower
  cases lower

theorem Climbs.rise [Add σ] {grammar : Grammar σ} {rule : Rule σ} {child : Derivation σ}
    (climbs : grammar.Climbs child) (member : rule ∈ grammar.rules)
    (kind : grammar.kind? rule = some .unary) (expands : rule.rhs = [child.label]) :
    grammar.Climbs (.unary rule.lhs (child.score + rule.weight) child) := by
  intro node lower
  rcases Derivation.mem_spine lower with rfl | deeper
  · exact ⟨[rule.weight], List.cons_ne_nil _ _, .rise .stay member kind expands, rfl⟩
  · obtain ⟨weights, _, path, climbed⟩ := climbs node deeper
    refine ⟨weights ++ [rule.weight], by simp, .rise path member kind expands, ?_⟩
    rw [climb_concat, ← climbed, Derivation.score_unary]

namespace Derives

variable [Zero σ] [Add σ] {grammar : Grammar σ} {tree : Derivation σ} {words : List String}

theorem words_ne_nil (derives : grammar.Derives tree words) : words ≠ [] := by
  induction derives with
  | lexical => exact List.cons_ne_nil _ _
  | unary _ _ _ _ ih => exact ih
  | binary _ _ _ _ ihLeft => exact List.append_ne_nil_of_left_ne_nil ihLeft _

/-- A derivation of some words has them at its leaves. -/
theorem yield_eq (derives : grammar.Derives tree words) : tree.yield = words := by
  induction derives with
  | lexical => rfl
  | unary _ _ _ _ ih => exact ih
  | binary _ _ _ _ ihLeft ihRight => rw [Derivation.yield, ihLeft, ihRight]

/-- By induction on the derivation: what a unary rule is put upon climbs, and under the top of the
others there is nothing over the same words. -/
theorem climbs (derives : grammar.Derives tree words) : grammar.Climbs tree := by
  induction derives with
  | lexical | binary => exact climbs_of_beneath_eq_nil rfl
  | unary member kind expands _ ih => exact ih.rise member kind expands

end Derives

end Grammar

end ChartParse
