import ChartParse.Rule
import Std.Data.TreeMap
import Std.Data.TreeSet

/-!
The index of a list of rules.

A symbol is a nonterminal if some rule of the list has it on the left-hand side, and a word
otherwise. A rule with two symbols on the right is binary; one with a single symbol is unary if
that symbol is a nonterminal and lexical if it is a word. The kind of a rule thus depends on the
whole list, so an index is always made of the whole list at once.

Main statements: the look-ups are filters of the list of rules (`lexicalFor_eq`, `unaryOver_eq`),
in its order.
-/

namespace ChartParse

inductive RuleKind where
  | lexical
  | unary
  | binary
  deriving DecidableEq, Repr

variable {σ : Type}

def Rule.kind? (isNonterminal : String → Bool) (rule : Rule σ) : Option RuleKind :=
  match rule.rhs with
  | [] => none
  | [_, _] => some .binary
  | symbol :: _ => some (if isNonterminal symbol then .unary else .lexical)

def Rule.child (rule : Rule σ) : String :=
  rule.rhs.headD ""

def tabulate (key : Rule σ → String) (rules : List (Rule σ)) :
    Std.TreeMap String (List (Rule σ)) :=
  -- From the right, since each rule goes in front of those of its key.
  rules.foldr (fun rule table => table.insert (key rule) (rule :: table.getD (key rule) [])) ∅

theorem getD_tabulate (key : Rule σ → String) (rules : List (Rule σ)) (symbol : String) :
    (tabulate key rules).getD symbol [] = rules.filter (key · = symbol) := by
  induction rules with
  | nil => simp [tabulate]
  | cons rule rest ih =>
    change (((tabulate key rest).insert (key rule)
      (rule :: (tabulate key rest).getD (key rule) [])).getD symbol []) = _
    rw [Std.TreeMap.getD_insert]
    by_cases same : key rule = symbol
    · subst same
      simp [ih]
    · simp [same, ih]

structure Index (σ : Type) where
  nonterminals : Std.TreeSet String
  lexical : List (Rule σ)
  unary : List (Rule σ)
  binary : List (Rule σ)
  lexicalByWord : Std.TreeMap String (List (Rule σ))
  unaryByChild : Std.TreeMap String (List (Rule σ))

namespace Index

def ofRules (rules : List (Rule σ)) : Index σ :=
  -- The kind of every rule depends on these, so they come first.
  let nonterminals := Std.TreeSet.ofList (rules.map Rule.lhs)
  let ofKind (kind : RuleKind) := rules.filter (·.kind? nonterminals.contains = some kind)
  let lexical := ofKind .lexical
  let unary := ofKind .unary
  { nonterminals, lexical, unary
    binary := ofKind .binary
    lexicalByWord := tabulate Rule.child lexical
    unaryByChild := tabulate Rule.child unary }

def isNonterminal (index : Index σ) (symbol : String) : Bool :=
  index.nonterminals.contains symbol

def lexicalFor (index : Index σ) (word : String) : List (Rule σ) :=
  index.lexicalByWord.getD word []

def unaryOver (index : Index σ) (symbol : String) : List (Rule σ) :=
  index.unaryByChild.getD symbol []

/-! ### What an index holds -/

theorem isNonterminal_ofRules (rules : List (Rule σ)) (symbol : String) :
    (ofRules rules).isNonterminal symbol = decide (symbol ∈ rules.map Rule.lhs) := by
  simp only [isNonterminal, ofRules, Std.TreeSet.contains_ofList]
  exact List.contains_eq_mem symbol (rules.map Rule.lhs)

theorem lexical_ofRules (rules : List (Rule σ)) :
    (ofRules rules).lexical =
      rules.filter (·.kind? (ofRules rules).isNonterminal = some .lexical) := rfl

theorem unary_ofRules (rules : List (Rule σ)) :
    (ofRules rules).unary =
      rules.filter (·.kind? (ofRules rules).isNonterminal = some .unary) := rfl

theorem binary_ofRules (rules : List (Rule σ)) :
    (ofRules rules).binary =
      rules.filter (·.kind? (ofRules rules).isNonterminal = some .binary) := rfl

theorem lexicalFor_eq (rules : List (Rule σ)) (word : String) :
    (ofRules rules).lexicalFor word = (ofRules rules).lexical.filter (·.child = word) :=
  getD_tabulate Rule.child _ word

theorem unaryOver_eq (rules : List (Rule σ)) (symbol : String) :
    (ofRules rules).unaryOver symbol = (ofRules rules).unary.filter (·.child = symbol) :=
  getD_tabulate Rule.child _ symbol

end Index

end ChartParse
