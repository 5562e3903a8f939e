import ChartParse.Chart.Basic
import ChartParse.Derivation.Helper
import ChartParse.Text.Fields
import ChartParse.Work.Tally

/-!
Sentences: lines of text whose words are separated by blanks, and their parses. A line without
words has no parse.
-/

namespace ChartParse

/-- What parsing a sentence gives: its best derivation, and the record of the work. -/
structure Parse (σ : Type) where
  sentence : List Char
  best : Option (Derivation σ)
  work : List (Event σ)

namespace Parse

variable {σ : Type}

def wordsOf (sentence : List Char) : List String :=
  (Text.words sentence).map String.ofList

def ofLine [Zero σ] [Add σ] [LT σ] [DecidableLT σ] (grammar : Grammar σ) (beam : Option Int)
    (line : List Char) : Parse σ :=
  let sentence := Text.trim line
  let parsed := Chart.parse grammar beam (wordsOf sentence)
  ⟨sentence, parsed.value, parsed.work⟩

def line (scale : Scale σ) (presentation : Presentation) (parse : Parse σ) : String :=
  presentation.line scale parse.best

def log (scale : Scale σ) (parse : Parse σ) : List String :=
  [String.ofList (List.replicate 70 '='), "Parsing sentence: " ++ String.ofList parse.sentence]
    ++ parse.work.filterMap (Event.text? scale)
    ++ ["Profile of work done: " ++ (Tally.ofWork parse.work).text]

end Parse

end ChartParse
