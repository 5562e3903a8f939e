import ChartParse.Scale

/-!
Rules of a weighted grammar: a left-hand side, the symbols it expands to, and a weight, of which
higher is better.
-/

namespace ChartParse

structure Rule (σ : Type) where
  lhs : String
  rhs : List String
  weight : σ
  deriving DecidableEq, BEq, Repr

namespace Rule

variable {σ : Type}

/-- A rule as messages show it: `S → NP VP (-0.5)`. -/
def text (scale : Scale σ) (rule : Rule σ) : String :=
  rule.lhs ++ " → " ++ " ".intercalate rule.rhs ++ " (" ++ scale.write rule.weight ++ ")"

/-- For each rule of a list, the place of the first rule equal to it. A weight that differs from
itself makes a rule equal to no other, so its place is its own. -/
def firstEqual [BEq σ] (rules : List (Rule σ)) : List Nat :=
  rules.zipIdx.map fun (rule, place) => (rules.findIdx? (· == rule)).getD place

end Rule

end ChartParse
