import ChartParse.Cell.Closure

/-!
Charts. The chart of a sentence has a cell for every span of its words, and the cell holds the best
derivation of each label over the span.

The cells of single words are filled from the lexical rules. The cell of a wider span is filled
from the cells of its parts: every split into two adjacent spans, leftmost first, is combined with
every binary rule. Spans are filled by width, so the cells of the parts are final when they are
read. With a beam, a cell is pruned as soon as it is filled.

A beam is an approximation: a label that scores badly over a short span may be what the best parse
needed.
-/

namespace ChartParse

/-- The words of a sentence and the cells of its spans, by width and then by first word: the spans
of one width make a diagonal. -/
structure Chart (σ : Type) where
  words : List String
  diagonals : Array (Array (Cell σ))

structure SpanError where
  first : Int
  last : Int
  words : Nat
  deriving DecidableEq, Repr

def SpanError.message (error : SpanError) : String :=
  "span (" ++ toString error.first ++ ", " ++ toString error.last ++
    ") is outside a chart over " ++ toString error.words ++ " words"

namespace Chart

variable {σ : Type}

def size (chart : Chart σ) : Nat :=
  chart.words.length

def cellIn (diagonals : Array (Array (Cell σ))) (first last : Nat) : Option (Cell σ) := do
  if last < first then none
  let diagonal ← diagonals[last - first]?
  diagonal[first]?

/-- The cell of the words from `first` to `last`, both included. -/
def cell? (chart : Chart σ) (first last : Nat) : Option (Cell σ) :=
  cellIn chart.diagonals first last

def cell (chart : Chart σ) (first last : Int) : Except SpanError (Cell σ) :=
  let error := SpanError.mk first last chart.size
  if 0 ≤ first && first ≤ last && last < chart.size then
    match chart.cell? first.toNat last.toNat with
    | some found => .ok found
    | none => .error error
  else .error error

/-- The best derivation of a symbol over the whole sentence. A sentence without words has none. -/
def best? (chart : Chart σ) (symbol : String) : Option (Derivation σ) := do
  if chart.words.isEmpty then none
  let whole ← chart.cell? 0 (chart.size - 1)
  whole.get? symbol

/-- The spans of a sentence in the order in which they are filled. -/
def schedule (words : Nat) : List (Nat × Nat) :=
  (List.range words).flatMap fun reach =>
    (List.range (words - reach)).map fun first => (first, first + reach)

/-! ### Filling -/

variable [LT σ] [DecidableLT σ]

/-- How many labels each cell keeps. A width of zero is no beam at all. -/
def beamOfWidth (width : Int) : Option Int :=
  if width = 0 then none else some width

def limit (beam : Option Int) (first last : Nat) (cell : Cell σ) : Traced (Event σ) (Cell σ) :=
  match beam with
  | none => pure cell
  | some width => do
    let (kept, dropped) := cell.prune width
    if dropped ≠ 0 then Traced.record (.pruned kept.size first last dropped)
    return kept

variable [Zero σ] [Add σ]

def offerLexical (grammar : Grammar σ) (word : String) (cell : Cell σ) (rule : Rule σ) :
    Traced (Event σ) (Cell σ) := do
  let offered := .unary rule.lhs (0 + rule.weight) (.leaf word 0)
  let (cell, _) ← cell.add grammar offered
  Traced.record (.lexical offered)
  return cell

def lexicalCell (grammar : Grammar σ) (beam : Option Int) (position : Nat) (word : String) :
    Traced (Event σ) (Cell σ) := do
  Traced.record (.filling position position)
  let cell ← (grammar.lexicalRulesFor word).foldlM (offerLexical grammar word) .empty
  if cell.isEmpty then Traced.record (.uncovered position word)
  limit beam position position cell

omit [Zero σ] in
def offerBinary (grammar : Grammar σ) (left right : Cell σ) (cell : Cell σ) (rule : Rule σ) :
    Traced (Event σ) (Cell σ) := do
  -- An index lists only rules with two symbols as binary.
  let [leftLabel, rightLabel] := rule.rhs | return cell
  let some leftBest := left.get? leftLabel | return cell
  let some rightBest := right.get? rightLabel | return cell
  let score := leftBest.score + rightBest.score + rule.weight
  let offered := .binary rule.lhs score leftBest rightBest
  Traced.record (.combined offered)
  let (cell, isStored) ← cell.add grammar offered
  if isStored then Traced.record (.stored rule score)
  return cell

omit [Zero σ] in
/-- Offers everything that ends its left part at `mid`. -/
def offerSplit (grammar : Grammar σ) (diagonals : Array (Array (Cell σ))) (first last : Nat)
    (cell : Cell σ) (mid : Nat) : Traced (Event σ) (Cell σ) := do
  Traced.record (.children first mid last)
  -- Both parts are shorter, so their diagonals are there.
  let some left := cellIn diagonals first mid | return cell
  let some right := cellIn diagonals (mid + 1) last | return cell
  if left.isEmpty || right.isEmpty then return cell
  grammar.binaryRules.foldlM (offerBinary grammar left right) cell

omit [Zero σ] in
def combinedCell (grammar : Grammar σ) (beam : Option Int) (diagonals : Array (Array (Cell σ)))
    (first last : Nat) : Traced (Event σ) (Cell σ) := do
  Traced.record (.filling first last)
  let cell ← (List.range' first (last - first)).foldlM
    (offerSplit grammar diagonals first last) .empty
  limit beam first last cell

def lexicalDiagonal (grammar : Grammar σ) (beam : Option Int) (words : List String) :
    Traced (Event σ) (Array (Cell σ)) := do
  let cells ← words.zipIdx.mapM fun (word, position) => lexicalCell grammar beam position word
  return cells.toArray

omit [Zero σ] in
/-- The cells of the spans that reach `reach` words beyond their first. -/
def wideDiagonal (grammar : Grammar σ) (beam : Option Int) (words : Nat)
    (diagonals : Array (Array (Cell σ))) (reach : Nat) : Traced (Event σ) (Array (Cell σ)) := do
  let cells ← (List.range (words - reach)).mapM fun first =>
    combinedCell grammar beam diagonals first (first + reach)
  return cells.toArray

def fill (grammar : Grammar σ) (beam : Option Int) (words : List String) :
    Traced (Event σ) (Chart σ) := do
  let shortest ← lexicalDiagonal grammar beam words
  let diagonals ← (List.range' 1 (words.length - 1)).foldlM (fun diagonals reach => do
    return diagonals.push (← wideDiagonal grammar beam words.length diagonals reach)) #[shortest]
  return ⟨words, diagonals⟩

def parse (grammar : Grammar σ) (beam : Option Int) (words : List String) :
    Traced (Event σ) (Option (Derivation σ)) := do
  return (← fill grammar beam words).best? grammar.start

end Chart

end ChartParse
