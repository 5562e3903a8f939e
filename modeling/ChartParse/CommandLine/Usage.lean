import ChartParse.CommandLine.Options

/-!
The usage and help texts, and what a command line that leads to no run answers.
-/

namespace ChartParse

namespace CommandLine

/-- How the program is called. The later lines are set below the end of its name. -/
def usage (program : String) : List String :=
  let opening := "usage: " ++ program ++ " "
  let indent := String.ofList (List.replicate opening.length ' ')
  [ opening ++ "[-h] [-s START_SYMBOL] [-beam BEAM] [-original]",
    indent ++ "[--helper_prefix HELPER_PREFIX] [--probabilities] [--progress]",
    indent ++ "[-v | -q]",
    indent ++ "grammar sentences [sentences ...]" ]

def help (program : String) : List String :=
  usage program ++
  [ "",
    "Find the highest-weight parse of each given sentence under a weighted CFG,",
    "using the CKY algorithm with Viterbi backpointers, unary closure and optional",
    "beam pruning.",
    "",
    "positional arguments:",
    "  grammar               Path to .gr file containing a weighted grammar",
    "  sentences             Path(s) to .sen files containing one sentence per line",
    "",
    "options:",
    "  -h, --help            show this help message and exit",
    "  -s START_SYMBOL, --start_symbol START_SYMBOL",
    "                        Start symbol of the grammar (default is S)",
    "  -beam BEAM, --beam BEAM",
    "                        Keep only the N best constituents per chart cell",
    "                        (default 0, no pruning)",
    "  -original, --original",
    "                        Print trees without the helper nonterminals introduced",
    "                        by binarization",
    "  --helper_prefix HELPER_PREFIX",
    "                        Prefix of helper nonterminals hidden by -original",
    "                        (default is X, as in X1, X2, ...)",
    "  --probabilities       The first grammar column is a probability p; use",
    "                        log2(p) as the rule weight",
    "  --progress            Display a progress bar",
    "  -v, --verbose",
    "  -q, --quiet" ]

end CommandLine

/-- What a program leaves behind: its exit status and the lines that it has written. -/
structure Transcript where
  exit : Nat
  output : List String
  log : List String
  deriving DecidableEq, Repr

/-- Help goes to the output; an error goes to the log, below the usage. -/
def Stop.transcript (program : String) : Stop → Transcript
  | help => ⟨0, CommandLine.help program, []⟩
  | usage error =>
    ⟨2, [], CommandLine.usage program ++ [program ++ ": error: " ++ error.message]⟩

end ChartParse
