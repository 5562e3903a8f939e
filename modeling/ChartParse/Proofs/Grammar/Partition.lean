import ChartParse.Grammar.Basic
import Mathlib.Data.List.Basic

/-!
The look-ups of a grammar and its list of rules.

Every look-up lists some of the rules, in their order, and each rule stands in one place: among the
lexical rules, among the binary rules, or among the unary rules over one symbol (`Grammar.sorts`).
Where it stands depends on its symbols on the right and on what the whole list has on the left.
-/

namespace ChartParse

variable {σ : Type}

/-- Items sorted by a key, one key after another, are the items in another order. -/
theorem flatMap_filter_perm {α κ : Type} [DecidableEq κ] (key : α → κ) {keys : List κ}
    (nodup : keys.Nodup) {items : List α} (known : ∀ item ∈ items, key item ∈ keys) :
    (keys.flatMap fun sought => items.filter (key · = sought)).Perm items := by
  induction keys generalizing items with
  | nil =>
    obtain rfl : items = [] := List.eq_nil_iff_forall_not_mem.2 fun item member =>
      List.not_mem_nil (known item member)
    exact .refl _
  | cons first rest ih =>
    obtain ⟨fresh, nodup⟩ := List.nodup_cons.1 nodup
    have others : rest.flatMap (fun sought => items.filter (key · = sought)) =
        rest.flatMap fun sought => (items.filter fun item => !decide (key item = first)).filter
          (key · = sought) := by
      apply List.flatMap_congr
      intro sought later
      rw [List.filter_filter]
      apply List.filter_congr
      intro item _
      -- What has a later key does not have the first one.
      have apart : sought ≠ first := fun same => fresh (same ▸ later)
      by_cases here : key item = sought <;> simp [here, apart]
    rw [List.flatMap_cons, others]
    refine ((ih nodup fun item member => ?_).append_left _).trans (List.filter_append_perm _ items)
    obtain ⟨inItems, notFirst⟩ := List.mem_filter.1 member
    exact (List.mem_cons.1 (known item inItems)).resolve_left (by simpa using notFirst)

namespace Grammar

/-! ### Look-ups as filters -/

theorem lexicalRules_eq (grammar : Grammar σ) :
    grammar.lexicalRules = grammar.rules.filter (grammar.kind? · = some .lexical) := by
  rw [lexicalRules, grammar.index_eq, Index.lexical_ofRules]
  simp only [kind?_eq]

theorem binaryRules_eq (grammar : Grammar σ) :
    grammar.binaryRules = grammar.rules.filter (grammar.kind? · = some .binary) := by
  rw [binaryRules, grammar.index_eq, Index.binary_ofRules]
  simp only [kind?_eq]

theorem lexicalRulesFor_eq (grammar : Grammar σ) (word : String) :
    grammar.lexicalRulesFor word = grammar.lexicalRules.filter (·.child = word) := by
  rw [lexicalRulesFor, lexicalRules, grammar.index_eq, Index.lexicalFor_eq]

theorem unaryRules_eq (grammar : Grammar σ) (symbol : String) :
    grammar.unaryRules symbol =
      (grammar.rules.filter (grammar.kind? · = some .unary)).filter (·.child = symbol) := by
  rw [unaryRules, grammar.index_eq, Index.unaryOver_eq, Index.unary_ofRules]
  simp only [kind?_eq]

/-! ### Kinds by the whole list -/

variable {grammar : Grammar σ} {rule : Rule σ}

theorem kind?_eq_binary_iff (member : rule ∈ grammar.rules) :
    grammar.kind? rule = some .binary ↔ rule.rhs.length = 2 := by
  rcases rhs_of_mem member with ⟨symbol, one⟩ | ⟨left, right, two⟩
  · rw [kind?_of_one one, one]
    cases grammar.isNonterminal symbol <;> simp
  · simp [kind?_of_two two, two]

/-- A rule with one symbol on the right is unary if some rule of the whole list has the symbol on
the left, and lexical if none has. -/
theorem kind?_of_one_iff {kind : RuleKind} (short : kind ≠ .binary) {symbol : String}
    (one : rule.rhs = [symbol]) :
    grammar.kind? rule = some kind ↔ (kind = .unary ↔ symbol ∈ grammar.rules.map Rule.lhs) := by
  rw [kind?_of_one one, List.mem_map, ← isNonterminal_iff]
  cases kind with
  | binary => exact absurd rfl short
  | lexical | unary => cases grammar.isNonterminal symbol <;> simp

theorem filter_child_eq {kind : RuleKind} (short : kind ≠ .binary) (symbol : String) :
    (grammar.rules.filter (grammar.kind? · = some kind)).filter (·.child = symbol) =
      grammar.rules.filter fun rule =>
        rule.rhs = [symbol] ∧ (kind = .unary ↔ symbol ∈ grammar.rules.map Rule.lhs) := by
  rw [List.filter_filter]
  apply List.filter_congr
  intro rule member
  rw [← Bool.decide_and, decide_eq_decide]
  constructor
  · rintro ⟨child, known⟩
    have one := (rhs_eq_singleton_iff member known short).1 child
    exact ⟨one, (kind?_of_one_iff short one).1 known⟩
  · rintro ⟨one, fits⟩
    have child : rule.child = symbol := by rw [Rule.child, one, List.headD_cons]
    exact ⟨child, (kind?_of_one_iff short one).2 fits⟩

theorem unaryRules_eq_filter (grammar : Grammar σ) (symbol : String) :
    grammar.unaryRules symbol = grammar.rules.filter fun rule =>
      rule.rhs = [symbol] ∧ symbol ∈ grammar.rules.map Rule.lhs := by
  rw [unaryRules_eq, filter_child_eq (by decide)]
  simp only [true_iff]

theorem lexicalRulesFor_eq_filter (grammar : Grammar σ) (word : String) :
    grammar.lexicalRulesFor word = grammar.rules.filter fun rule =>
      rule.rhs = [word] ∧ word ∉ grammar.rules.map Rule.lhs := by
  rw [lexicalRulesFor_eq, lexicalRules_eq, filter_child_eq (by decide)]
  simp only [reduceCtorEq, false_iff]

theorem lexicalRules_eq_filter (grammar : Grammar σ) :
    grammar.lexicalRules = grammar.rules.filter fun rule =>
      rule.rhs = [rule.child] ∧ rule.child ∉ grammar.rules.map Rule.lhs := by
  rw [lexicalRules_eq]
  apply List.filter_congr
  intro rule member
  rw [decide_eq_decide]
  constructor
  · intro kind
    have one := (rhs_eq_singleton_iff member kind (by decide)).1 rfl
    simpa using And.intro one ((kind?_of_one_iff (by decide) one).1 kind)
  · rintro ⟨one, terminal⟩
    exact (kind?_of_one_iff (by decide) one).2 (by simpa using terminal)

/-! ### The partition -/

theorem exists_kind (member : rule ∈ grammar.rules) : ∃ kind, grammar.kind? rule = some kind := by
  rcases rhs_of_mem member with ⟨symbol, one⟩ | ⟨left, right, two⟩
  · exact ⟨_, kind?_of_one one⟩
  · exact ⟨_, kind?_of_two two⟩

/-- The unary rules over all symbols are those of the kind. -/
theorem flatMap_unaryRules_perm (grammar : Grammar σ) {symbols : List String}
    (nodup : symbols.Nodup) (known : ∀ rule ∈ grammar.rules, rule.lhs ∈ symbols) :
    (symbols.flatMap grammar.unaryRules).Perm
      (grammar.rules.filter (grammar.kind? · = some .unary)) := by
  simp only [funext grammar.unaryRules_eq]
  refine flatMap_filter_perm Rule.child nodup fun rule member => ?_
  obtain ⟨inRules, kind⟩ := List.mem_filter.1 member
  have kind : grammar.kind? rule = some .unary := by simpa using kind
  have one := (rhs_eq_singleton_iff inRules kind (by decide)).1 rfl
  -- What a unary rule is over is on the left of another rule.
  obtain ⟨other, there, same⟩ := List.mem_map.1 ((kind?_of_one_iff (by decide) one).1 kind |>.1 rfl)
  exact same ▸ known other there

theorem perm_of_kinds (grammar : Grammar σ) :
    (grammar.lexicalRules ++ grammar.rules.filter (grammar.kind? · = some .unary) ++
      grammar.binaryRules).Perm grammar.rules := by
  have known : ∀ rule ∈ grammar.rules,
      grammar.kind? rule ∈ [some .lexical, some .unary, some RuleKind.binary] := by
    intro rule member
    obtain ⟨kind, known⟩ := exists_kind member
    rw [known]
    cases kind <;> decide
  rw [lexicalRules_eq, binaryRules_eq]
  simpa using flatMap_filter_perm grammar.kind? (by decide) known

/-- The look-ups of a grammar sort a list of rules: each of them lists the rules of the list that
belong there, in their order and as often as they occur, and together they list all. -/
structure Sorts (grammar : Grammar σ) (rules : List (Rule σ)) : Prop where
  rules_eq : grammar.rules = rules
  isNonterminal_iff : ∀ symbol,
    grammar.isNonterminal symbol = true ↔ symbol ∈ rules.map Rule.lhs
  binary_eq : grammar.binaryRules = rules.filter (·.rhs.length = 2)
  unary_eq : ∀ symbol, grammar.unaryRules symbol = rules.filter fun rule =>
    rule.rhs = [symbol] ∧ symbol ∈ rules.map Rule.lhs
  lexical_eq : grammar.lexicalRules = rules.filter fun rule =>
    rule.rhs = [rule.child] ∧ rule.child ∉ rules.map Rule.lhs
  lexicalFor_eq : ∀ word, grammar.lexicalRulesFor word = rules.filter fun rule =>
    rule.rhs = [word] ∧ word ∉ rules.map Rule.lhs
  lexicalFor_eq_filter : ∀ word,
    grammar.lexicalRulesFor word = grammar.lexicalRules.filter (·.rhs = [word])
  partition : ∀ symbols : List String, symbols.Nodup → (∀ rule ∈ rules, rule.lhs ∈ symbols) →
    (grammar.lexicalRules ++ symbols.flatMap grammar.unaryRules ++ grammar.binaryRules).Perm rules
  apart : ∀ symbol, grammar.lexicalRulesFor symbol = [] ∨ grammar.unaryRules symbol = []

theorem sorts (grammar : Grammar σ) : grammar.Sorts grammar.rules where
  rules_eq := rfl
  isNonterminal_iff symbol := by rw [Grammar.isNonterminal_iff, List.mem_map]
  binary_eq := by
    rw [binaryRules_eq]
    exact List.filter_congr fun rule member => decide_eq_decide.2 (kind?_eq_binary_iff member)
  unary_eq := grammar.unaryRules_eq_filter
  lexical_eq := grammar.lexicalRules_eq_filter
  lexicalFor_eq := grammar.lexicalRulesFor_eq_filter
  lexicalFor_eq_filter word := by
    rw [lexicalRulesFor_eq]
    apply List.filter_congr
    intro rule member
    rw [lexicalRules_eq] at member
    obtain ⟨inRules, kind⟩ := List.mem_filter.1 member
    exact decide_eq_decide.2 (rhs_eq_singleton_iff inRules (by simpa using kind) (by decide))
  partition symbols nodup known :=
    (((flatMap_unaryRules_perm grammar nodup known).append_left _).append_right _).trans
      grammar.perm_of_kinds
  apart symbol := by
    -- Either some rule has the symbol on the left or none has.
    by_cases nonterminal : symbol ∈ grammar.rules.map Rule.lhs
    · exact Or.inl (by simp [lexicalRulesFor_eq_filter, nonterminal])
    · exact Or.inr (by simp [unaryRules_eq_filter, nonterminal])

end Grammar

end ChartParse
