import ChartParse.Grammar.Basic
import ChartParse.Grammar.RuleLine
import ChartParse.Files.Tree
import ChartParse.Text.Lines

/-!
Files of rules: one rule a line. A number sign starts a comment, and lines that are empty without
comment and surrounding blanks are passed over, but they count in the numbering of lines.

A file either gives all its rules or, at its first fault, none: the first line that holds no rule,
or bytes that are not UTF-8, whichever is met first.
-/

namespace ChartParse

inductive LoadError (σ : Type) where
  | unreadable (error : OpenError)
  | malformed (path : Path) (line : Nat) (error : RuleLine.Error σ)
  | notUtf8 (path : Path) (fault : Text.Utf8.Fault)
  | arity (error : ArityError σ)
  deriving DecidableEq, Repr

variable {σ : Type}

def LoadError.message (scale : Scale σ) : LoadError σ → String
  | unreadable error => error.message
  | malformed path line error => error.message scale (path.text ++ ":" ++ toString line)
  | notUtf8 path fault => path.text ++ ": not valid UTF-8 (" ++ fault.reason ++ ")"
  | arity error => error.message scale

namespace RuleFile

/-- The lines that have content, stripped of comments and blanks, with their numbers. -/
def contentLines (lines : List (List Char)) : List (Nat × List Char) :=
  (lines.zipIdx 1).filterMap fun (line, number) =>
    let content := Text.trim (Text.cutAt '#' line)
    if content.isEmpty then none else some (number, content)

def rules (scale : Scale σ) (probabilities : Bool) (path : Path) (bytes : List UInt8) :
    Except (LoadError σ) (List (Rule σ)) := do
  let reading := Text.readLines bytes
  let rules ← (contentLines reading.lines).mapM fun (number, content) =>
    (RuleLine.read scale probabilities content).mapError (.malformed path number)
  -- A line without a rule was met before the bytes that are not UTF-8.
  match reading.failure with
  | some malformed => .error (.notUtf8 path malformed.fault)
  | none => return rules

end RuleFile

/-! ### Loading -/

/-- Something that adds rules to a grammar: a list of them or a file. -/
inductive Batch (σ : Type) where
  | rules (rules : List (Rule σ))
  | file (path : Path)

namespace Grammar

def rulesOf (scale : Scale σ) (probabilities : Bool) (files : FileReader) :
    Batch σ → Except (LoadError σ) (List (Rule σ))
  | .rules rules => .ok rules
  | .file path =>
    match files path with
    | .error fault => .error (.unreadable ⟨path, fault⟩)
    | .ok bytes => RuleFile.rules scale probabilities path bytes

def load (scale : Scale σ) (probabilities : Bool) (files : FileReader) (grammar : Grammar σ)
    (batch : Batch σ) : Except (LoadError σ) (Grammar σ) := do
  let rules ← rulesOf scale probabilities files batch
  (grammar.addRules rules).mapError .arity

/-- Loads a batch if it can be loaded, and leaves the grammar as it is if not. -/
def tryLoad (scale : Scale σ) (probabilities : Bool) (files : FileReader) (grammar : Grammar σ)
    (batch : Batch σ) : Grammar σ × Option (LoadError σ) :=
  match grammar.load scale probabilities files batch with
  | .ok loaded => (loaded, none)
  | .error error => (grammar, some error)

/-- A grammar made of several batches, the first fault of which makes it fail. -/
def loadAll (scale : Scale σ) (probabilities : Bool) (files : FileReader) (start : String)
    (batches : List (Batch σ)) : Except (LoadError σ) (Grammar σ) :=
  batches.foldlM (load scale probabilities files) (empty start)

end Grammar

end ChartParse
