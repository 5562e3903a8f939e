/-!
The options of the command line and how they are spelled.
-/

namespace ChartParse

inductive Flag where
  | help
  | startSymbol
  | beam
  | hideHelpers
  | helperStem
  | probabilities
  | progress
  | verbose
  | quiet
  deriving DecidableEq, Repr

namespace Flag

def all : List Flag :=
  [help, startSymbol, beam, hideHelpers, helperStem, probabilities, progress, verbose, quiet]

def spellings : Flag → List String
  | help => ["-h", "--help"]
  | startSymbol => ["-s", "--start_symbol"]
  | beam => ["-beam", "--beam"]
  | hideHelpers => ["-original", "--original"]
  | helperStem => ["--helper_prefix"]
  | probabilities => ["--probabilities"]
  | progress => ["--progress"]
  | verbose => ["-v", "--verbose"]
  | quiet => ["-q", "--quiet"]

def takesValue : Flag → Bool
  | startSymbol | beam | helperStem => true
  | _ => false

def title (flag : Flag) : String :=
  "/".intercalate flag.spellings

def table : List (List Char × Flag) :=
  all.flatMap fun flag => flag.spellings.map fun spelling => (spelling.toList, flag)

def spelled? (text : List Char) : Option Flag :=
  table.lookup text

end Flag

end ChartParse
