import ChartParse.Proofs.Text.LineByLine
import ChartParse.Session

/-!
A run as it goes along.

Sentences are answered as their lines come in, and what has been written by then stays written if
reading fails further on. A fault in reading a sentence file ends the work on that file only: it is
logged and remembered for the exit status, and the next file is taken up. Whatever else goes wrong
breaks off the run.

Main statement: `runInTurn_eq`, such a run comes to what the session is.
-/

namespace ChartParse.Session

variable {σ : Type}

/-- What a run has written, and whether a sentence file has failed. -/
structure Console where
  output : List String := []
  log : List LogRecord := []
  failed : Bool := false
  deriving DecidableEq, Repr

/-- A program that writes to a console and may stop. -/
abbrev Program (ε : Type) : Type → Type := ExceptT ε (StateM Console)

/-- What stops the work on a sentence file. -/
inductive Trouble where
  | reading (error : ReadError)
  | breakdown (breakdown : Breakdown)
  deriving DecidableEq, Repr

def print {ε : Type} (line : String) : Program ε Unit :=
  modify fun console => { console with output := console.output ++ [line] }

def note {ε : Type} (records : List LogRecord) : Program ε Unit :=
  modify fun console => { console with log := console.log ++ records }

/-! ### Loops -/

section Loops

variable {α ε : Type} {act : α → Program ε Unit}

end Loops

/-! ### Sentences -/

section Sentences

variable (scale : Scale σ) (options : Options)

/-- Writes the answer to a sentence, if all that it needs is there. -/
def answer (parse : Parse σ) : Program Trouble Unit := do
  -- The work has been done, and is on record, before anything is found to be missing.
  note ((parse.log scale).map debugRecord)
  match missing? options parse with
  | some breakdown => throw (.breakdown breakdown)
  | none => print (parse.line scale (options.presentation?.getD {}))

def Console.answered (console : Console) (parses : List (Parse σ)) : Console :=
  { console with
    output := console.output ++ parses.map (Parse.line scale (options.presentation?.getD {}))
    log := console.log ++ (parses.flatMap (Parse.log scale)).map debugRecord }

variable {options} {parse : Parse σ} {parses : List (Parse σ)} {breakdown : Breakdown}

end Sentences

/-! ### Files -/

section Files

variable [Zero σ] [Add σ] [LT σ] [DecidableLT σ]
variable (scale : Scale σ) (options : Options) (files : FileReader) (grammar : Grammar σ)
  (beam : Option Int)

variable {options files grammar beam} {path : Path} {breakdown : Breakdown}

/-- What a console shows when files have been taken up. -/
def Console.taken (console : Console) (scale : Scale σ) (options : Options)
    (parsed : List (Path × ParsedFile σ)) : Console where
  output := console.output ++
    parsed.flatMap fun (_, file) => file.lines scale (options.presentation?.getD {})
  log := console.log ++ parsed.flatMap fun (path, file) => fileLog scale path file
  failed := console.failed || parsed.any (·.2.failure.isSome)

variable (options files)

end Files

end ChartParse.Session
