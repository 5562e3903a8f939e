import ChartParse.CommandLine.Parser
import ChartParse.CommandLine.Usage
import ChartParse.Grammar.RuleFile
import ChartParse.Sentence.File

/-!
A whole run of the program, as a function of its arguments and the files it can read. A grammar
that cannot be loaded ends the run. A sentence file that cannot be read to its end does not: the
lines before the fault are answered, the fault is logged, and the next file is taken up; the exit
status tells at the end. Only a path with a null character breaks a run off.
-/

namespace ChartParse

inductive Severity where
  | debug
  | error
  deriving DecidableEq, Repr

def Severity.name : Severity → String
  | debug => "DEBUG"
  | error => "ERROR"

structure LogRecord where
  severity : Severity
  text : String
  deriving DecidableEq, Repr

def LogRecord.line (record : LogRecord) : String :=
  record.severity.name ++ ":cky:" ++ record.text

/-- Errors are always shown, the rest only to those who ask for it. -/
def LogRecord.isShown (verbosity : Verbosity) (record : LogRecord) : Bool :=
  record.severity = .error || verbosity = .verbose

/-- Why a run breaks off without an answer. -/
inductive Breakdown where
  | path (error : OpenError)
  | noStartSymbol
  | noHelperStem
  deriving DecidableEq, Repr

def Breakdown.message : Breakdown → String
  | path error => error.message
  | noStartSymbol => "unhashable type: 'list'"
  | noHelperStem => "decoding to str: need a bytes-like object, list found"

namespace Session

variable {σ : Type}

def errorRecord (text : String) : LogRecord :=
  ⟨.error, text⟩

def debugRecord (text : String) : LogRecord :=
  ⟨.debug, text⟩

def grammarLog (path : Path) (grammar : Grammar σ) : List LogRecord :=
  [ debugRecord ("Indexed " ++ toString grammar.lexicalRules.length ++ " lexical, " ++
      toString grammar.unaryTargets.length ++ " unary and " ++
      toString grammar.binaryRules.length ++ " binary rules"),
    debugRecord ("Read " ++ toString grammar.rules.length ++ " rules from " ++ path.text) ]

def fileLog (scale : Scale σ) (path : Path) (parsed : ParsedFile σ) : List LogRecord :=
  (parsed.log scale).map debugRecord ++
    parsed.failure.toList.map fun failure =>
      errorRecord ("Could not read sentences from " ++ path.text ++ ": " ++ failure.message)

def shownLines (verbosity : Verbosity) (records : List LogRecord) : List String :=
  (records.filter (LogRecord.isShown verbosity)).map LogRecord.line

/-- What a sentence needs that the options leave out: a start symbol if it has words, and a stem of
the helpers if it has a derivation to be shown without them. -/
def missing? (options : Options) (parse : Parse σ) : Option Breakdown :=
  if options.startSymbol.isNone && !(Parse.wordsOf parse.sentence).isEmpty then
    some .noStartSymbol
  else if options.presentation?.isNone && parse.best.isSome then some .noHelperStem
  else none

/-- Why a sentence file breaks the run off, if it does. -/
def breakdown? (options : Options) (parsed : ParsedFile σ) : Option Breakdown :=
  match parsed.failure with
  | some (.unreadable error) => if error.isRefusal then some (.path error) else none
  | _ => parsed.parses.findSome? (missing? options)

def rejected (scale : Scale σ) (options : Options) (error : LoadError σ) : Transcript :=
  ⟨1, [], shownLines options.verbosity
    [errorRecord ("Could not load grammar: " ++ error.message scale)]⟩

def answered (scale : Scale σ) (options : Options) (grammar : Grammar σ)
    (parsed : List (Path × ParsedFile σ)) : Transcript where
  exit := if parsed.any (·.2.failure.isSome) then 1 else 0
  -- Without a presentation there is no derivation to be shown.
  output := parsed.flatMap fun (_, file) => file.lines scale (options.presentation?.getD {})
  log := shownLines options.verbosity
    (grammarLog options.grammar grammar ++
      parsed.flatMap fun (path, file) => fileLog scale path file)

variable [Zero σ] [Add σ] [LT σ] [DecidableLT σ]

def runOptions (scale : Scale σ) (files : FileReader) (options : Options) :
    Except Breakdown Transcript :=
  -- Without a start symbol no derivation is looked up, so any symbol stands in for it.
  match Grammar.loadAll scale options.probabilities files (options.startSymbol.getD "")
      [.file options.grammar] with
  | .error (.unreadable error) =>
    if error.isRefusal then .error (.path error)
    else .ok (rejected scale options (.unreadable error))
  | .error error => .ok (rejected scale options error)
  | .ok grammar =>
    let beam := options.beam.bind fun width => Chart.beamOfWidth width
    let parsed := options.sentences.map fun path =>
      (path, ParsedFile.ofFile files grammar beam path)
    match parsed.findSome? (breakdown? options ·.2) with
    | some breakdown => .error breakdown
    | none => .ok (answered scale options grammar parsed)

def run (scale : Scale σ) (program : String) (files : FileReader) (arguments : List String) :
    Except Breakdown Transcript :=
  match CommandLine.parse arguments with
  | .error stop => .ok (stop.transcript program)
  | .ok options => runOptions scale files options

end Session

end ChartParse
