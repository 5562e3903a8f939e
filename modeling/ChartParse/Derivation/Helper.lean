import ChartParse.Derivation.Rendering
import ChartParse.Text.Digit

/-!
Helper nonterminals. Making a grammar binary introduces symbols that its author never wrote: a
fixed stem with a number, such as `X12`. Trees can be shown without them.
-/

namespace ChartParse

/-- Whether a symbol is the stem followed by one or more decimal digits. -/
def isHelper (stem symbol : String) : Bool :=
  let number := symbol.toList.drop stem.toList.length
  stem.toList.isPrefixOf symbol.toList && !number.isEmpty && number.all Text.isDigit

/-- How derivations are shown: with all their nodes, or without the helpers of the given stem. -/
structure Presentation where
  hideHelpers : Bool := false
  stem : String := "X"
  deriving DecidableEq, Repr

def Presentation.hides (presentation : Presentation) (label : String) : Bool :=
  presentation.hideHelpers && isHelper presentation.stem label

def Presentation.line {σ : Type} (presentation : Presentation) (scale : Scale σ) :
    Option (Derivation σ) → String
  | some best => best.line scale presentation.hides
  | none => Derivation.noParse

end ChartParse
