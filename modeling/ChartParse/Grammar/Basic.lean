import ChartParse.Grammar.Index

/-!
Weighted context-free grammars: a start symbol and a list of rules, each with one or two symbols on
its right-hand side, together with their index. Rules are added in batches; a batch with a rule of
any other length adds nothing. Equal rules are all kept.
-/

namespace ChartParse

def Rule.hasArity {σ : Type} (rule : Rule σ) : Bool :=
  rule.rhs.length = 1 || rule.rhs.length = 2

/-- A grammar. All its rules have one or two symbols on their right-hand sides, and its index is at
all times the index of all its rules. -/
structure Grammar (σ : Type) where
  start : String
  rules : List (Rule σ)
  arity : ∀ rule ∈ rules, rule.hasArity
  index : Index σ := Index.ofRules rules
  index_eq : index = Index.ofRules rules := by rfl

variable {σ : Type}

structure ArityError (σ : Type) where
  rule : Rule σ
  deriving DecidableEq, Repr

def ArityError.message (scale : Scale σ) (error : ArityError σ) : String :=
  "Rule " ++ error.rule.text scale ++ " must have one or two right-hand-side symbols"

namespace Grammar

def empty (start : String) : Grammar σ where
  start := start
  rules := []
  arity := List.forall_mem_nil _

def extend (grammar : Grammar σ) (batch : List (Rule σ)) (arity : ∀ rule ∈ batch, rule.hasArity) :
    Grammar σ where
  start := grammar.start
  rules := grammar.rules ++ batch
  arity := List.forall_mem_append.2 ⟨grammar.arity, arity⟩

def addRules (grammar : Grammar σ) (batch : List (Rule σ)) :
    Except (ArityError σ) (Grammar σ) :=
  match fits : batch.find? (!Rule.hasArity ·) with
  | some rule => .error ⟨rule⟩
  | none => .ok (grammar.extend batch (by simpa using fits))

theorem rules_of_addRules {grammar extended : Grammar σ} {batch : List (Rule σ)}
    (accepted : grammar.addRules batch = .ok extended) :
    extended.start = grammar.start ∧ extended.rules = grammar.rules ++ batch := by
  unfold addRules at accepted
  split at accepted
  · cases accepted
  · cases accepted
    exact ⟨rfl, rfl⟩

def isNonterminal (grammar : Grammar σ) (symbol : String) : Bool :=
  grammar.index.isNonterminal symbol

/-- The kind of any rule, in the grammar or not, by the nonterminals of the grammar. -/
def kind? (grammar : Grammar σ) (rule : Rule σ) : Option RuleKind :=
  rule.kind? grammar.isNonterminal

def lexicalRules (grammar : Grammar σ) : List (Rule σ) :=
  grammar.index.lexical

def binaryRules (grammar : Grammar σ) : List (Rule σ) :=
  grammar.index.binary

/-- The lexical rules that expand to a word, in the order they were added. -/
def lexicalRulesFor (grammar : Grammar σ) (word : String) : List (Rule σ) :=
  grammar.index.lexicalFor word

/-- The unary rules that expand to a symbol, in the order they were added. -/
def unaryRules (grammar : Grammar σ) (symbol : String) : List (Rule σ) :=
  grammar.index.unaryOver symbol

def unaryTargets (grammar : Grammar σ) : List String :=
  grammar.index.unary.map Rule.lhs

/-! ### Look-ups and kinds -/

theorem isNonterminal_iff {grammar : Grammar σ} {symbol : String} :
    grammar.isNonterminal symbol = true ↔ ∃ rule ∈ grammar.rules, rule.lhs = symbol := by
  rw [isNonterminal, grammar.index_eq, Index.isNonterminal_ofRules, decide_eq_true_eq,
    List.mem_map]

theorem rhs_of_mem {grammar : Grammar σ} {rule : Rule σ} (member : rule ∈ grammar.rules) :
    (∃ symbol, rule.rhs = [symbol]) ∨ ∃ left right, rule.rhs = [left, right] := by
  have arity := grammar.arity rule member
  match rule, arity with
  | ⟨_, [symbol], _⟩, _ => exact Or.inl ⟨symbol, rfl⟩
  | ⟨_, [left, right], _⟩, _ => exact Or.inr ⟨left, right, rfl⟩

theorem kind?_of_one {grammar : Grammar σ} {rule : Rule σ} {symbol : String}
    (one : rule.rhs = [symbol]) :
    grammar.kind? rule = some (if grammar.isNonterminal symbol then .unary else .lexical) := by
  rw [kind?, Rule.kind?, one]

theorem kind?_of_two {grammar : Grammar σ} {rule : Rule σ} {left right : String}
    (two : rule.rhs = [left, right]) : grammar.kind? rule = some .binary := by
  rw [kind?, Rule.kind?, two]

theorem kind?_eq (grammar : Grammar σ) (rule : Rule σ) :
    grammar.kind? rule = rule.kind? (Index.ofRules grammar.rules).isNonterminal := by
  obtain ⟨start, rules, arity, index, rfl⟩ := grammar
  rfl

/-- Of the rules of a kind other than binary, those over a symbol expand to it alone. -/
theorem rhs_eq_singleton_iff {grammar : Grammar σ} {rule : Rule σ} {kind : RuleKind}
    {symbol : String} (member : rule ∈ grammar.rules) (known : grammar.kind? rule = some kind)
    (short : kind ≠ .binary) : rule.child = symbol ↔ rule.rhs = [symbol] := by
  rcases rhs_of_mem member with ⟨only, one⟩ | ⟨left, right, two⟩
  · simp [Rule.child, one]
  · rw [kind?_of_two two] at known
    exact absurd (Option.some.inj known).symm short

theorem mem_lexicalRulesFor_iff {grammar : Grammar σ} {word : String} {rule : Rule σ} :
    rule ∈ grammar.lexicalRulesFor word ↔
      rule ∈ grammar.rules ∧ grammar.kind? rule = some .lexical ∧ rule.rhs = [word] := by
  rw [lexicalRulesFor, grammar.index_eq, Index.lexicalFor_eq, Index.lexical_ofRules]
  -- Rules are looked up by their first symbol, which is the only one of a lexical rule.
  simp only [List.mem_filter, decide_eq_true_eq, ← kind?_eq, and_assoc]
  exact and_congr_right fun member => and_congr_right fun kind =>
    rhs_eq_singleton_iff member kind (by decide)

theorem mem_unaryRules_iff {grammar : Grammar σ} {symbol : String} {rule : Rule σ} :
    rule ∈ grammar.unaryRules symbol ↔
      rule ∈ grammar.rules ∧ grammar.kind? rule = some .unary ∧ rule.rhs = [symbol] := by
  rw [unaryRules, grammar.index_eq, Index.unaryOver_eq, Index.unary_ofRules]
  simp only [List.mem_filter, decide_eq_true_eq, ← kind?_eq, and_assoc]
  exact and_congr_right fun member => and_congr_right fun kind =>
    rhs_eq_singleton_iff member kind (by decide)

theorem mem_binaryRules_iff {grammar : Grammar σ} {rule : Rule σ} :
    rule ∈ grammar.binaryRules ↔
      rule ∈ grammar.rules ∧ ∃ left right, rule.rhs = [left, right] := by
  rw [binaryRules, grammar.index_eq, Index.binary_ofRules]
  simp only [List.mem_filter, decide_eq_true_eq, ← kind?_eq]
  refine and_congr_right fun member => ?_
  rcases rhs_of_mem member with ⟨symbol, one⟩ | ⟨left, right, two⟩
  -- A rule with one symbol is lexical or unary, as its symbol is.
  · cases nonterminal : grammar.isNonterminal symbol <;> simp [kind?_of_one one, one, nonterminal]
  · simp [kind?_of_two two, two]

theorem mem_unaryTargets {grammar : Grammar σ} {symbol : String} {rule : Rule σ}
    (member : rule ∈ grammar.unaryRules symbol) : rule.lhs ∈ grammar.unaryTargets := by
  rw [unaryRules, grammar.index_eq, Index.unaryOver_eq] at member
  rw [unaryTargets, grammar.index_eq]
  exact List.mem_map_of_mem (List.mem_filter.1 member).1

theorem length_unaryRules_le (grammar : Grammar σ) (symbol : String) :
    (grammar.unaryRules symbol).length ≤ grammar.unaryTargets.length := by
  rw [unaryRules, unaryTargets, grammar.index_eq, Index.unaryOver_eq, List.length_map]
  exact List.length_filter_le _ _

end Grammar

end ChartParse
