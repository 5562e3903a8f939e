import ChartParse.Files.Tree
import ChartParse.Sentence.Parse
import ChartParse.Text.Lines

/-!
Files of sentences: one sentence a line, and one line of output for each. A file that cannot be
read to its end still gives the parses of the lines before the fault.
-/

namespace ChartParse

inductive ReadError where
  | unreadable (error : OpenError)
  | malformed (error : Text.Utf8.Malformed)
  deriving DecidableEq, Repr

def ReadError.message : ReadError → String
  | unreadable error => error.message
  | malformed error => error.message

/-- The parses that a file gives, and what is wrong with it after them. -/
structure ParsedFile (σ : Type) where
  parses : List (Parse σ)
  failure : Option ReadError

namespace ParsedFile

variable {σ : Type} [Zero σ] [Add σ] [LT σ] [DecidableLT σ]

def ofReading (grammar : Grammar σ) (beam : Option Int) (reading : Text.Reading) : ParsedFile σ :=
  ⟨reading.lines.map (Parse.ofLine grammar beam), reading.failure.map .malformed⟩

def ofFile (files : FileReader) (grammar : Grammar σ) (beam : Option Int) (path : Path) :
    ParsedFile σ :=
  match files path with
  | .error fault => ⟨[], some (.unreadable ⟨path, fault⟩)⟩
  | .ok bytes => ofReading grammar beam (Text.readLines bytes)

omit [Zero σ] [Add σ] [LT σ] [DecidableLT σ] in
def lines (scale : Scale σ) (presentation : Presentation) (parsed : ParsedFile σ) : List String :=
  parsed.parses.map (Parse.line scale presentation)

omit [Zero σ] [Add σ] [LT σ] [DecidableLT σ] in
def log (scale : Scale σ) (parsed : ParsedFile σ) : List String :=
  parsed.parses.flatMap (Parse.log scale)

end ParsedFile

end ChartParse
