import ChartParse.Derivation.Basic
import ChartParse.Rule
import ChartParse.Text.Quoted
import ChartParse.Work.Traced

/-!
The events of filling a chart. The list of all events of a run, in order, is its record: the log
lines and the tally of counters are two views of it.
-/

namespace ChartParse

inductive Event (σ : Type) where
  -- The cell of a span is about to be filled.
  | filling (first last : Nat)
  -- The cells of the two parts of a span are read; the left part ends at `mid`.
  | children (first mid last : Nat)
  -- A lexical rule has been offered to the cell of its word.
  | lexical (offered : Derivation σ)
  -- No lexical rule has the word at this position.
  | uncovered (position : Nat) (word : String)
  -- A binary rule has found both its children and is offered to the cell.
  | combined (offered : Derivation σ)
  -- What a binary rule made was stored.
  | stored (rule : Rule σ) (score : σ)
  -- A derivation was stored; so many unary rules extend it.
  | extended (stored : Derivation σ) (rules : Nat)
  -- A derivation that would have been stored was refused because it repeats its label.
  | cycle (refused : Derivation σ)
  -- The beam dropped labels of a cell.
  | pruned (kept first last dropped : Nat)
  deriving DecidableEq, Repr

def spanText (first last : Nat) : String :=
  "(" ++ toString first ++ ", " ++ toString last ++ ")"

/-- The log line of an event. The filling of a single word's cell is not worth one. -/
def Event.text? {σ : Type} (scale : Scale σ) : Event σ → Option String
  | filling first last =>
    if first < last then some ("Filling cell " ++ spanText first last) else none
  | children first mid last =>
    some ("\tchildren: " ++ spanText first mid ++ " - " ++ spanText (mid + 1) last)
  | uncovered position word =>
    some ("No lexical rule covers word " ++ toString position ++ ": " ++ Text.quoted word.toList)
  | stored rule score => some ("\t\t" ++ rule.text scale ++ " => " ++ scale.write score)
  | cycle refused =>
    some ("\tUnary cycle through " ++ refused.label ++ " ignored at " ++
      scale.write refused.score)
  | pruned kept first last dropped =>
    some ("\tBeam kept " ++ toString kept ++ " labels in " ++ spanText first last ++ ", dropped " ++
      toString dropped)
  | lexical _ | combined _ | extended _ _ => none

end ChartParse
