import ChartParse.CommandLine.BeamWidth
import ChartParse.CommandLine.Flag
import ChartParse.Derivation.Helper
import ChartParse.Files.Path

/-!
What a command line asks for, and why it cannot be used.
-/

namespace ChartParse

inductive Verbosity where
  | normal
  | verbose
  | quiet
  deriving DecidableEq, Repr

/-- What the options set, with what holds if they are not given. An option that is given without a
value sets none. -/
structure Settings where
  startSymbol : Option String := some "S"
  beam : Option Nat := some 0
  hideHelpers : Bool := false
  helperStem : Option String := some "X"
  probabilities : Bool := false
  progress : Bool := false
  verbosity : Verbosity := .normal
  deriving DecidableEq, Repr

/-- How derivations are to be shown. Helpers cannot be hidden without a stem to tell them by. -/
def Settings.presentation? (settings : Settings) : Option Presentation :=
  if settings.hideHelpers then settings.helperStem.map fun stem => ⟨true, stem⟩ else some {}

structure Options extends Settings where
  grammar : Path
  sentences : List Path
  deriving DecidableEq, Repr

inductive UsageError where
  | ambiguous (argument : List Char) (spellings : List (List Char))
  | unexpectedValue (flag : Flag) (value : List Char)
  | missingValue (flag : Flag)
  | conflict (flag earlier : Flag)
  | beam (text : List Char) (error : BeamWidth.Error)
  | missing (names : List String)
  | unrecognized (arguments : List (List Char))
  deriving DecidableEq, Repr

namespace UsageError

/-- A text that is no number is shown as it is; a number that is no beam width is explained. -/
def beamMessage (text : List Char) : BeamWidth.Error → String
  | error@(.negative _) => error.message
  | _ => "invalid beam_width value: " ++ Text.quoted text

def message : UsageError → String
  | ambiguous argument spellings =>
    "ambiguous option: " ++ String.ofList argument ++ " could match " ++
      ", ".intercalate (spellings.map String.ofList)
  | unexpectedValue flag value =>
    "argument " ++ flag.title ++ ": ignored explicit argument " ++ Text.quoted value
  | missingValue flag => "argument " ++ flag.title ++ ": expected one argument"
  | conflict flag earlier =>
    "argument " ++ flag.title ++ ": not allowed with argument " ++ earlier.title
  | beam text error => "argument " ++ Flag.beam.title ++ ": " ++ beamMessage text error
  | missing names => "the following arguments are required: " ++ ", ".intercalate names
  | unrecognized arguments =>
    "unrecognized arguments: " ++ " ".intercalate (arguments.map String.ofList)

end UsageError

/-- Why a command line leads to no run: it asks for help, or it is wrong. -/
inductive Stop where
  | help
  | usage (error : UsageError)
  deriving DecidableEq, Repr

end ChartParse
