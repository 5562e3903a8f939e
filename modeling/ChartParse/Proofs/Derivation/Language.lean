import ChartParse.Proofs.Derivation.Tree
import Mathlib.Computability.ContextFreeGrammar
import Mathlib.Data.Finset.Dedup

/-!
The language of a list of rules, in the usual sense of rewriting, and its derivations as trees.

A list of rules makes a context-free grammar (`contextFree`): symbols on the left of some rule are
its nonterminals, all others its terminals. A rule with two symbols on the right of which one is a
word (`Rule.applies` is false of it) has no place in a tree, where two symbols on the right are the
labels of two trees. The trees of a grammar are therefore the derivations by all the other rules.

Main statement: `Grammar.mem_language_iff_derives`.
-/

namespace ChartParse

variable {σ : Type}

/-! ### Rules and rewriting -/

namespace Rule

/-- A symbol as a list of rules has it: a nonterminal if some rule has it on the left, and else a
terminal. -/
def classed (rules : List (Rule σ)) (symbol : String) : Symbol String String :=
  if symbol ∈ rules.map Rule.lhs then .nonterminal symbol else .terminal symbol

theorem classed_of_mem {rules : List (Rule σ)} {symbol : String}
    (known : symbol ∈ rules.map Rule.lhs) : classed rules symbol = .nonterminal symbol :=
  if_pos known

def contextFree (rules : List (Rule σ)) (rule : Rule σ) : ContextFreeRule String String :=
  ⟨rule.lhs, rule.rhs.map (classed rules)⟩

/-- Whether a rule stands in trees: it has one symbol on the right, or nonterminals only. -/
def applies (rules : List (Rule σ)) (rule : Rule σ) : Bool :=
  rule.rhs.length = 1 || rule.rhs.all (· ∈ rules.map Rule.lhs)

theorem applies_of_one {rules : List (Rule σ)} {rule : Rule σ} {symbol : String}
    (one : rule.rhs = [symbol]) : rule.applies rules = true := by
  simp [applies, one]

theorem applies_iff_of_two {rules : List (Rule σ)} {rule : Rule σ} {left right : String}
    (two : rule.rhs = [left, right]) :
    rule.applies rules = true ↔ left ∈ rules.map Rule.lhs ∧ right ∈ rules.map Rule.lhs := by
  simp [applies, two]

end Rule

/-- The context-free grammar of some chosen rules. Which symbols are nonterminals depends on the
whole list that they are chosen from. -/
abbrev contextFree (start : String) (rules chosen : List (Rule σ)) : ContextFreeGrammar String where
  NT := String
  initial := start
  rules := (chosen.map (Rule.contextFree rules)).toFinset

theorem produces_iff {start : String} {rules chosen : List (Rule σ)}
    {form next : List (Symbol String String)} :
    (contextFree start rules chosen).Produces form next ↔
      ∃ rule ∈ chosen, (rule.contextFree rules).Rewrites form next := by
  simp [ContextFreeGrammar.Produces]

/-- More rules to choose from make no fewer derivations. -/
theorem derives_mono {start : String} {rules chosen more : List (Rule σ)} (subset : chosen ⊆ more)
    {form last : List (Symbol String String)}
    (derives : (contextFree start rules chosen).Derives form last) :
    (contextFree start rules more).Derives form last := by
  refine Relation.ReflTransGen.mono ?_ _ _ derives
  intro before after step
  obtain ⟨rule, member, rewrites⟩ := produces_iff.1 step
  exact produces_iff.2 ⟨rule, subset member, rewrites⟩

namespace Grammar

/-- The rules of a grammar that stand in trees, as a context-free grammar. -/
abbrev applied (grammar : Grammar σ) : ContextFreeGrammar String :=
  contextFree grammar.start grammar.rules (grammar.rules.filter (Rule.applies grammar.rules))

variable {grammar : Grammar σ}

theorem isNonterminal_iff_mem {symbol : String} :
    grammar.isNonterminal symbol = true ↔ symbol ∈ grammar.rules.map Rule.lhs := by
  rw [isNonterminal_iff, List.mem_map]

theorem classed_eq (grammar : Grammar σ) (symbol : String) :
    Rule.classed grammar.rules symbol =
      if grammar.isNonterminal symbol then .nonterminal symbol else .terminal symbol := by
  simp only [Rule.classed, isNonterminal_iff_mem]

theorem classed_of_unary {rule : Rule σ} {symbol : String}
    (kind : grammar.kind? rule = some .unary) (expands : rule.rhs = [symbol]) :
    Rule.classed grammar.rules symbol = .nonterminal symbol := by
  rw [classed_eq]
  cases nonterminal : grammar.isNonterminal symbol with
  | true => rfl
  | false => simp [kind?_of_one expands, nonterminal] at kind

theorem classed_of_lexical {rule : Rule σ} {symbol : String}
    (kind : grammar.kind? rule = some .lexical) (expands : rule.rhs = [symbol]) :
    Rule.classed grammar.rules symbol = .terminal symbol := by
  rw [classed_eq]
  cases nonterminal : grammar.isNonterminal symbol with
  | true => simp [kind?_of_one expands, nonterminal] at kind
  | false => rfl

theorem derives_output {rule : Rule σ} (member : rule ∈ grammar.rules)
    (applies : rule.applies grammar.rules = true) :
    grammar.applied.Derives [.nonterminal rule.lhs] (rule.rhs.map (Rule.classed grammar.rules)) := by
  have chosen : rule ∈ grammar.rules.filter (Rule.applies grammar.rules) :=
    List.mem_filter.2 ⟨member, applies⟩
  exact (produces_iff.2 ⟨rule, chosen, ContextFreeRule.Rewrites.input_output⟩).single

variable [Zero σ] [Add σ]

theorem Derives.label_mem {tree : Derivation σ} {words : List String}
    (derives : grammar.Derives tree words) : tree.label ∈ grammar.rules.map Rule.lhs := by
  cases derives with
  | lexical member | unary member | binary member => exact List.mem_map_of_mem member

/-! ### From trees to rewriting -/

/-- What a tree derives, its label rewrites to. -/
theorem Derives.rewrites {tree : Derivation σ} {words : List String}
    (derives : grammar.Derives tree words) :
    grammar.applied.Derives [.nonterminal tree.label] (words.map .terminal) := by
  induction derives with
  | lexical member kind expands =>
    have output := derives_output member (Rule.applies_of_one expands)
    rwa [expands, List.map_singleton, classed_of_lexical kind expands] at output
  | @unary rule child words member kind expands below ih =>
    have output := derives_output member (Rule.applies_of_one expands)
    rw [expands, List.map_singleton, classed_of_unary kind expands] at output
    exact output.trans ih
  | @binary rule left right leftWords rightWords member expands onLeft onRight ihLeft ihRight =>
    have output := derives_output member
      ((Rule.applies_iff_of_two expands).2 ⟨onLeft.label_mem, onRight.label_mem⟩)
    rw [expands, List.map_cons, List.map_singleton, Rule.classed_of_mem onLeft.label_mem,
      Rule.classed_of_mem onRight.label_mem] at output
    have first := ihLeft.append_right [.nonterminal right.label]
    have second := ihRight.append_left (leftWords.map .terminal)
    rw [List.map_append]
    exact output.trans (first.trans second)

/-! ### From rewriting to trees -/

/-- A list of symbols stands for some words: each terminal for itself, and each nonterminal for the
words of a tree with that label. -/
inductive Spells (grammar : Grammar σ) : List (Symbol String String) → List String → Prop
  | nil : Spells grammar [] []
  | terminal {word : String} {rest : List (Symbol String String)} {words : List String}
      (later : Spells grammar rest words) : Spells grammar (.terminal word :: rest) (word :: words)
  | nonterminal {tree : Derivation σ} {rest : List (Symbol String String)}
      {front words : List String} (derives : grammar.Derives tree front)
      (later : Spells grammar rest words) :
      Spells grammar (.nonterminal tree.label :: rest) (front ++ words)

namespace Spells

theorem words (words : List String) : Spells grammar (words.map .terminal) words := by
  induction words with
  | nil => exact .nil
  | cons word rest ih => exact .terminal ih

theorem append {first second : List (Symbol String String)} {front back : List String}
    (onLeft : Spells grammar first front) (onRight : Spells grammar second back) :
    Spells grammar (first ++ second) (front ++ back) := by
  induction onLeft with
  | nil => exact onRight
  | terminal _ ih => exact .terminal ih
  | nonterminal derives _ ih =>
    rw [List.append_assoc]
    exact .nonterminal derives ih

theorem split {first second : List (Symbol String String)} {words : List String}
    (spells : Spells grammar (first ++ second) words) :
    ∃ front back, words = front ++ back ∧ Spells grammar first front ∧
      Spells grammar second back := by
  induction first generalizing words with
  | nil => exact ⟨[], words, rfl, .nil, spells⟩
  | cons symbol rest ih =>
    rw [List.cons_append] at spells
    cases spells with
    | @terminal word _ _ later =>
      obtain ⟨front, back, rfl, onLeft, onRight⟩ := ih later
      exact ⟨word :: front, back, rfl, .terminal onLeft, onRight⟩
    | @nonterminal tree _ start _ derives later =>
      obtain ⟨front, back, rfl, onLeft, onRight⟩ := ih later
      exact ⟨start ++ front, back, (List.append_assoc ..).symm, .nonterminal derives onLeft, onRight⟩

theorem exists_tree {symbol : String} {words : List String}
    (spells : Spells grammar [.nonterminal symbol] words) :
    ∃ tree, grammar.Derives tree words ∧ tree.label = symbol := by
  cases spells with
  | @nonterminal tree _ front _ derives later =>
    cases later
    rw [List.append_nil]
    exact ⟨tree, derives, rfl⟩

/-- A rule that applies makes a tree of what its right-hand side stands for. -/
theorem apply_rule {rule : Rule σ} (member : rule ∈ grammar.rules)
    (applies : rule.applies grammar.rules = true) {words : List String}
    (spells : Spells grammar (rule.rhs.map (Rule.classed grammar.rules)) words) :
    Spells grammar [.nonterminal rule.lhs] words := by
  suffices ∃ tree, grammar.Derives tree words ∧ tree.label = rule.lhs by
    obtain ⟨tree, derives, same⟩ := this
    have spelled := Spells.nonterminal derives .nil
    rwa [List.append_nil, same] at spelled
  rcases rhs_of_mem member with ⟨symbol, one⟩ | ⟨left, right, two⟩
  · rw [one, List.map_singleton] at spells
    cases nonterminal : grammar.isNonterminal symbol with
    | true =>
      have kind : grammar.kind? rule = some .unary := by simp [kind?_of_one one, nonterminal]
      rw [classed_of_unary kind one] at spells
      obtain ⟨child, derives, rfl⟩ := spells.exists_tree
      exact ⟨_, .unary member kind one derives, rfl⟩
    | false =>
      have kind : grammar.kind? rule = some .lexical := by simp [kind?_of_one one, nonterminal]
      rw [classed_of_lexical kind one] at spells
      cases spells with
      | terminal later =>
        cases later
        exact ⟨_, .lexical member kind one, rfl⟩
  · -- Both symbols are nonterminals, so each stands for a tree.
    obtain ⟨leftKnown, rightKnown⟩ := (Rule.applies_iff_of_two two).1 applies
    rw [two, List.map_cons, List.map_singleton, Rule.classed_of_mem leftKnown,
      Rule.classed_of_mem rightKnown, ← List.singleton_append] at spells
    obtain ⟨front, back, rfl, onLeft, onRight⟩ := spells.split
    obtain ⟨leftTree, leftDerives, rfl⟩ := onLeft.exists_tree
    obtain ⟨rightTree, rightDerives, rfl⟩ := onRight.exists_tree
    exact ⟨_, .binary member two leftDerives rightDerives, rfl⟩

/-- What a list of symbols stands for does not change when it is rewritten backwards. -/
theorem of_produces {form next : List (Symbol String String)} {words : List String}
    (step : grammar.applied.Produces form next) (spells : Spells grammar next words) :
    Spells grammar form words := by
  obtain ⟨rule, chosen, rewrites⟩ := produces_iff.1 step
  obtain ⟨member, applies⟩ := List.mem_filter.1 chosen
  obtain ⟨before, after, rfl, rfl⟩ := rewrites.exists_parts
  obtain ⟨front, back, rfl, onLeft, onRight⟩ := spells.split
  obtain ⟨start, middle, rfl, atStart, inMiddle⟩ := onLeft.split
  exact (atStart.append (apply_rule member applies inMiddle)).append onRight

theorem of_derives {form : List (Symbol String String)} {words : List String}
    (derives : grammar.applied.Derives form (words.map .terminal)) :
    Spells grammar form words := by
  induction derives using Relation.ReflTransGen.head_induction_on with
  | refl => exact Spells.words words
  | head step _ ih => exact of_produces step ih

end Spells

/-- The trees of a grammar derive, from its start symbol, the language of the rules that apply. -/
theorem mem_language_iff_derives (grammar : Grammar σ) (words : List String) :
    words ∈ grammar.applied.language ↔
      ∃ tree, grammar.Derives tree words ∧ tree.label = grammar.start := by
  rw [ContextFreeGrammar.mem_language_iff]
  constructor
  · intro rewrites
    exact (Spells.of_derives rewrites).exists_tree
  · rintro ⟨tree, derives, same⟩
    have rewrites := derives.rewrites
    rwa [same] at rewrites

end Grammar

end ChartParse
