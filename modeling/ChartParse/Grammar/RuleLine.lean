import ChartParse.Rule
import ChartParse.Text.Fields
import ChartParse.Text.Quoted

/-!
Rules as lines of text: a weight, a left-hand side and the right-hand symbols, in three columns
separated by tabs. The symbols are separated by blanks; there are one or two of them.

The columns are checked first, then the weight, then, where weights are given as probabilities,
that it is one, and the symbols last.
-/

namespace ChartParse.RuleLine

inductive Error (σ : Type) where
  | columns (line : List Char)
  | notNumber (weight : List Char)
  | notProbability (weight : σ)
  | symbols (line : List Char)
  deriving DecidableEq, Repr

variable {σ : Type}

def Error.cause (scale : Scale σ) : Error σ → String
  | columns line => "expected <weight>\\t<lhs>\\t<rhs>, got " ++ Text.quoted line
  | notNumber weight => "weight " ++ Text.quoted weight ++ " is not a number"
  | notProbability weight => "probability must be in (0, 1], got " ++ scale.write weight
  | symbols line =>
    "a rule needs a left-hand side and one or two right-hand-side symbols, got " ++
      Text.quoted line

def Error.message (scale : Scale σ) (location : String) (error : Error σ) : String :=
  location ++ ": " ++ error.cause scale

/-- The weight that a first column gives: itself, or the logarithm of a probability. -/
def readWeight (scale : Scale σ) (probabilities : Bool) (column : List Char) :
    Except (Error σ) σ :=
  match scale.read? column with
  | none => .error (.notNumber column)
  | some weight =>
    if !probabilities then .ok weight
    else if scale.isProbability weight then .ok (scale.log weight)
    else .error (.notProbability weight)

def read (scale : Scale σ) (probabilities : Bool) (line : List Char) :
    Except (Error σ) (Rule σ) :=
  match Text.fields (· == '\t') line with
  | [first, second, third] => do
    let weight ← readWeight scale probabilities first
    let lhs := Text.trim second
    let rhs := Text.words third
    if lhs.isEmpty || !(rhs.length = 1 || rhs.length = 2) then .error (.symbols line)
    return ⟨String.ofList lhs, rhs.map String.ofList, weight⟩
  | _ => .error (.columns line)

end ChartParse.RuleLine
