import ChartParse.CommandLine.Argument

/-!
Reading a command line. Options take effect from left to right. The values between them go to the
grammar file and the sentence files: the first run of values gives the grammar and, if it has more
than one, all the sentence files too; otherwise the next run gives those. Whatever is left over is
refused at the end, but a missing file is refused before it.
-/

namespace ChartParse.CommandLine

def divider : List Char := ['-', '-']

/-! ### Options -/

/-- An option with its value. There is none if the option takes none. -/
structure Use where
  flag : Flag
  value : Option (List Char)
  deriving DecidableEq, Repr

def Use.plain (flag : Flag) : Use :=
  ⟨flag, none⟩

def Use.withText (flag : Flag) (text : List Char) : Use :=
  -- A divider is no text of its own.
  ⟨flag, if text = divider then none else some text⟩

/-- What one argument says: its uses of options, and the last option if its value must be the next
argument. -/
structure Cluster where
  uses : List Use
  awaiting : Option Flag
  deriving DecidableEq, Repr

/-- An option with the letters behind it in the same argument. They are its value if it takes one,
and further options of one letter if not. -/
def clusterOf (flag : Flag) : List Char → Except UsageError Cluster
  | [] => .ok (if flag.takesValue then ⟨[], some flag⟩ else ⟨[.plain flag], none⟩)
  | letter :: rest =>
    if flag.takesValue then .ok ⟨[.withText flag (letter :: rest)], none⟩
    else
      match Flag.spelled? ['-', letter] with
      | none => .error (.unexpectedValue flag (letter :: rest))
      | some next => do
        let cluster ← clusterOf next rest
        return { cluster with uses := .plain flag :: cluster.uses }

def Cluster.ofSpelled (spelled : Spelled) : Except UsageError Cluster :=
  match spelled.attached with
  | none => clusterOf spelled.flag []
  | some text =>
    if spelled.flag.takesValue then .ok ⟨[.withText spelled.flag text], none⟩
    -- Without a value, only letters for further options may be attached, behind a single dash.
    else if text.isEmpty || divider.isPrefixOf spelled.spelling then
      .error (.unexpectedValue spelled.flag text)
    else clusterOf spelled.flag text

/-! ### State -/

def Use.apply (settings : Settings) (use : Use) : Except Stop Settings :=
  match use.flag with
  | .help => .error .help
  | .startSymbol => .ok { settings with startSymbol := use.value.map String.ofList }
  | .beam =>
    match use.value with
    | none => .ok { settings with beam := none }
    | some text =>
      match BeamWidth.ofText text with
      | .ok width => .ok { settings with beam := some width }
      | .error error => .error (.usage (.beam text error))
  | .hideHelpers => .ok { settings with hideHelpers := true }
  | .helperStem => .ok { settings with helperStem := use.value.map String.ofList }
  | .probabilities => .ok { settings with probabilities := true }
  | .progress => .ok { settings with progress := true }
  -- A run cannot be both verbose and quiet.
  | .verbose =>
    if settings.verbosity = .quiet then .error (.usage (.conflict .verbose .quiet))
    else .ok { settings with verbosity := .verbose }
  | .quiet =>
    if settings.verbosity = .verbose then .error (.usage (.conflict .quiet .verbose))
    else .ok { settings with verbosity := .quiet }

structure State where
  settings : Settings := {}
  grammar : Option Path := none
  sentences : Option (List Path) := none
  leftOver : List (List Char) := []
  deriving DecidableEq, Repr

def State.leave (state : State) (texts : List (List Char)) : State :=
  { state with leftOver := state.leftOver ++ texts }

def textsOf (run : List Argument) : List (List Char) :=
  (run.map Argument.text).erase divider

/-- A run of values up to the second value. -/
def splitSecond (run : List Argument) : List Argument × List Argument :=
  let (lead, rest) := run.span (!·.isValue)
  let (trail, others) := (rest.drop 1).span (!·.isValue)
  (lead ++ rest.take 1 ++ trail, others)

/-- A run of values goes to the files that are still missing. -/
def State.takeRun (state : State) (run : List Argument) : State :=
  let pathOf := fun text => Path.ofText (String.ofList text)
  let values := run.countP Argument.isValue
  if values = 0 then state.leave (run.map Argument.text)
  else
    match state.grammar, state.sentences with
    | none, _ =>
      -- The sentence files may still follow in the next run.
      let (first, others) := splitSecond run
      let state := { state with grammar := (textsOf first).head?.map pathOf }
      if values = 1 then state else { state with sentences := some ((textsOf others).map pathOf) }
    | some _, none => { state with sentences := some ((textsOf run).map pathOf) }
    | some _, some _ => state.leave (run.map Argument.text)

/-! ### The command line -/

/-- Gives an option that lacks its value the next argument, which must be a value. -/
def Cluster.complete (cluster : Cluster) (rest : List Argument) :
    Except UsageError (List Use × List Argument) :=
  match cluster.awaiting, rest with
  | none, rest => .ok (cluster.uses, rest)
  | some flag, .value text :: rest => .ok (cluster.uses ++ [.withText flag text], rest)
  | some flag, _ => .error (.missingValue flag)

theorem length_of_complete {cluster : Cluster} {rest later : List Argument} {uses : List Use}
    (completed : cluster.complete rest = .ok (uses, later)) : later.length ≤ rest.length := by
  unfold Cluster.complete at completed
  split at completed
  · simp_all
  · simp_all
  · contradiction

def State.read (state : State) (arguments : List Argument) : Except Stop State :=
  match arguments with
  | [] => .ok state
  | .unknown text :: rest => State.read (state.leave [text]) rest
  | .option spelled :: rest =>
    match Cluster.ofSpelled spelled with
    | .error error => .error (.usage error)
    | .ok cluster =>
      match _ : cluster.complete rest with
      | .error error => .error (.usage error)
      | .ok (uses, later) =>
        -- None of the options takes effect before all of the argument has been read.
        match uses.foldlM Use.apply state.settings with
        | .error stop => .error stop
        | .ok settings => State.read { state with settings } later
  | first :: rest =>
    let run := first :: rest.takeWhile (!·.isOption)
    State.read (state.takeRun run) (rest.dropWhile (!·.isOption))
termination_by arguments.length
decreasing_by
  · simp
  · have := length_of_complete ‹_›
    simp only [List.length_cons]
    omega
  · have := (List.dropWhile_sublist (!·.isOption) (l := rest)).length_le
    simp only [List.length_cons]
    omega

def State.finish (state : State) : Except Stop Options :=
  match state.grammar, state.sentences with
  | some grammar, some sentences =>
    if !state.leftOver.isEmpty then .error (.usage (.unrecognized state.leftOver))
    else .ok { state.settings with grammar, sentences }
  | grammar, sentences =>
    .error (.usage (.missing ((if grammar.isNone then ["grammar"] else [])
      ++ if sentences.isNone then ["sentences"] else [])))

def parse (arguments : List String) : Except Stop Options :=
  match Argument.classifyAll (arguments.map String.toList) with
  | .error error => .error (.usage error)
  | .ok classified => do
    let state ← State.read {} classified
    state.finish

end ChartParse.CommandLine
