import ChartParse.Proofs.Grammar.Loading
import ChartParse.Proofs.Grammar.Partition

/-!
Grammars that are loaded in place.

Here a grammar is a set of registers, and loading is a program that writes one register after
another: it puts the new rules behind the others, empties the index and files every rule anew. A
load that breaks off leaves whatever it has written by then.

Main statements: a load in place leaves the registers of the grammar that loading makes
(`run_load_of_ok`), or a fault and the registers as they were (`run_load_of_fault?`).
-/

namespace ChartParse

variable {σ : Type}

/-- The parts of a grammar that a load writes, each on its own. A table gives no rules for a symbol
that is not in it. -/
structure Registers (σ : Type) where
  start : String
  rules : List (Rule σ)
  isNonterminal : String → Bool
  lexical : List (Rule σ)
  binary : List (Rule σ)
  lexicalByWord : String → List (Rule σ)
  unaryByChild : String → List (Rule σ)

namespace Registers

def ofGrammar (grammar : Grammar σ) : Registers σ where
  start := grammar.start
  rules := grammar.rules
  isNonterminal := grammar.isNonterminal
  lexical := grammar.lexicalRules
  binary := grammar.binaryRules
  lexicalByWord := grammar.lexicalRulesFor
  unaryByChild := grammar.unaryRules

/-! ### Filing rules -/

/-- Puts a rule behind those that a table has for its symbol. -/
def enter (rule : Rule σ) (table : String → List (Rule σ)) (symbol : String) : List (Rule σ) :=
  if rule.child = symbol then table symbol ++ [rule] else table symbol

/-- Files a rule where it belongs by the nonterminals as they stand. -/
def file (registers : Registers σ) (rule : Rule σ) : Registers σ :=
  match rule.kind? registers.isNonterminal with
  | some .lexical => { registers with
      lexical := registers.lexical ++ [rule]
      lexicalByWord := enter rule registers.lexicalByWord }
  | some .unary => { registers with unaryByChild := enter rule registers.unaryByChild }
  | some .binary => { registers with binary := registers.binary ++ [rule] }
  -- No grammar has a rule without a kind.
  | none => registers

/-- Takes the nonterminals from the rules, empties the rest of the index and files all rules. -/
def reindex (registers : Registers σ) : Registers σ :=
  registers.rules.foldl file { registers with
    isNonterminal := fun symbol => registers.rules.any (·.lhs = symbol)
    lexical := []
    binary := []
    lexicalByWord := fun _ => []
    unaryByChild := fun _ => [] }

theorem enter_append_filter (rule : Rule σ) (later : List (Rule σ))
    (table : String → List (Rule σ)) (symbol : String) :
    enter rule table symbol ++ later.filter (·.child = symbol) =
      table symbol ++ (rule :: later).filter (·.child = symbol) := by
  by_cases here : rule.child = symbol <;> simp [enter, here]

/-- Filing rules puts those of each kind behind what the registers hold of it. -/
theorem foldl_file (rules : List (Rule σ)) (registers : Registers σ) :
    rules.foldl file registers =
      let ofKind (kind : RuleKind) := rules.filter (·.kind? registers.isNonterminal = some kind)
      { registers with
        lexical := registers.lexical ++ ofKind .lexical
        binary := registers.binary ++ ofKind .binary
        lexicalByWord := fun word =>
          registers.lexicalByWord word ++ (ofKind .lexical).filter (·.child = word)
        unaryByChild := fun symbol =>
          registers.unaryByChild symbol ++ (ofKind .unary).filter (·.child = symbol) } := by
  induction rules generalizing registers with
  | nil => simp
  | cons rule rest ih =>
    rw [List.foldl_cons, ih]
    cases known : rule.kind? registers.isNonterminal with
    | none => simp [file, known]
    | some kind =>
      cases kind <;>
        simp [file, known, enter_append_filter, -List.filter_filter]

/-- Whatever the index held before, it is then that of the rules. -/
theorem reindex_eq {registers : Registers σ} {grammar : Grammar σ}
    (start : registers.start = grammar.start) (rules : registers.rules = grammar.rules) :
    registers.reindex = ofGrammar grammar := by
  have nonterminals : (fun symbol => grammar.rules.any (·.lhs = symbol)) =
      grammar.isNonterminal := by
    funext symbol
    rw [Bool.eq_iff_iff, Grammar.isNonterminal_iff]
    simp
  rw [reindex, foldl_file, start, rules, nonterminals]
  simp only [List.nil_append, ofGrammar, Grammar.lexicalRules_eq, Grammar.binaryRules_eq,
    funext grammar.lexicalRulesFor_eq, funext grammar.unaryRules_eq]
  rfl

/-! ### Programs -/

/-- A program that writes registers and may break off. -/
abbrev Program (σ : Type) : Type → Type := ExceptT (LoadError σ) (StateM (Registers σ))

def checkArity (rule : Rule σ) : Program σ Unit :=
  if rule.hasArity then pure () else throw (.arity ⟨rule⟩)

def addRules (batch : List (Rule σ)) : Program σ Unit := do
  forM batch checkArity
  modify fun registers => { registers with rules := registers.rules ++ batch }
  modify reindex

def load (scale : Scale σ) (probabilities : Bool) (loading : Loading σ) : Program σ Unit := do
  -- The rules of a file are read into a list of their own.
  let rules ← liftExcept (Grammar.rulesOf scale probabilities loading.files loading.batch)
  addRules rules

theorem run_forM_checkArity (batch : List (Rule σ)) (registers : Registers σ) :
    (forM batch checkArity : Program σ Unit).run.run registers =
      match batch.find? (!Rule.hasArity ·) with
      | some rule => (.error (.arity ⟨rule⟩), registers)
      | none => (.ok (), registers) := by
  induction batch with
  | nil => rfl
  | cons rule rest ih =>
    rw [List.forM_cons, ExceptT.run_bind, StateT.run_bind, checkArity]
    cases fits : rule.hasArity with
    | true =>
      rw [List.find?_cons_of_neg (by simp [fits])]
      exact ih
    | false =>
      rw [List.find?_cons_of_pos (by simp [fits])]
      rfl

/-- The arity of all rules is checked before the first register is written. -/
theorem run_addRules (batch : List (Rule σ)) (registers : Registers σ) :
    (addRules batch).run.run registers =
      match batch.find? (!Rule.hasArity ·) with
      | some rule => (.error (.arity ⟨rule⟩), registers)
      | none => (.ok (), reindex { registers with rules := registers.rules ++ batch }) := by
  have checked := run_forM_checkArity batch registers
  rw [addRules, ExceptT.run_bind, StateT.run_bind, checked]
  cases batch.find? (!Rule.hasArity ·) <;> rfl

section Loads

variable {scale : Scale σ} {probabilities : Bool} {loading : Loading σ}

/-- A load that fails has not written anything, whatever the registers hold. -/
theorem run_load_of_fault? {fault : LoadError σ}
    (faulty : loading.fault? scale probabilities = some fault) (registers : Registers σ) :
    (load scale probabilities loading).run.run registers = (.error fault, registers) := by
  unfold Loading.fault? Loading.rules? at faulty
  rw [load]
  cases read : Grammar.rulesOf scale probabilities loading.files loading.batch with
  | error error =>
    simp only [read, Option.some.injEq] at faulty
    subst faulty
    rfl
  | ok rules =>
    simp only [read, Option.map_eq_some_iff] at faulty
    obtain ⟨rule, misfit, rfl⟩ := faulty
    have added := run_addRules rules registers
    rw [misfit] at added
    exact added

theorem run_load_of_rules? {rules : List (Rule σ)}
    (read : loading.rules? scale probabilities = .ok rules)
    (arity : ∀ rule ∈ rules, rule.hasArity) (registers : Registers σ) :
    (load scale probabilities loading).run.run registers =
      (.ok (), reindex { registers with rules := registers.rules ++ rules }) := by
  have added := run_addRules rules registers
  rw [Grammar.find?_misfit_eq_none_iff.2 arity] at added
  unfold Loading.rules? at read
  rw [load, read]
  exact added

/-- A load that succeeds leaves the registers of the grammar that it makes. -/
theorem run_load_of_ok {grammar loaded : Grammar σ}
    (done : grammar.load scale probabilities loading.files loading.batch = .ok loaded) :
    (load scale probabilities loading).run.run (ofGrammar grammar) = (.ok (), ofGrammar loaded) := by
  obtain ⟨rules, read, added⟩ := Grammar.load_eq_ok_iff.1 done
  obtain ⟨arity, start, whole⟩ := Grammar.addRules_eq_ok_iff.1 added
  rw [run_load_of_rules? read arity, reindex_eq start.symm whole.symm]

theorem eq_of_run_load {registers after : Registers σ} {error : LoadError σ}
    (failed : (load scale probabilities loading).run.run registers = (.error error, after)) :
    loading.fault? scale probabilities = some error ∧ after = registers := by
  cases fault : loading.fault? scale probabilities with
  | some found =>
    cases (run_load_of_fault? fault registers).symm.trans failed
    exact ⟨rfl, rfl⟩
  | none =>
    obtain ⟨rules, read, arity⟩ := Loading.fault?_eq_none_iff.1 fault
    cases (run_load_of_rules? read arity registers).symm.trans failed

end Loads

/-! ### Sequences of loads -/

section Sequences

variable {scale : Scale σ} {probabilities : Bool}

theorem run_forM_load {grammar loaded : Grammar σ} {loadings : List (Loading σ)}
    (done : grammar.loadInTurn scale probabilities loadings = .ok loaded) :
    (forM loadings (load scale probabilities) : Program σ Unit).run.run (ofGrammar grammar) =
      (.ok (), ofGrammar loaded) := by
  induction loadings generalizing grammar with
  | nil =>
    obtain ⟨⟩ := done
    rfl
  | cons loading rest ih =>
    rw [Grammar.loadInTurn, List.foldlM_cons] at done
    obtain ⟨between, first, later⟩ := bind_eq_ok_iff.1 done
    rw [List.forM_cons, ExceptT.run_bind, StateT.run_bind, run_load_of_ok first]
    exact ih later

/-- Loads a batch and says what was wrong with it, if anything. -/
def attempt (scale : Scale σ) (probabilities : Bool) (loading : Loading σ) :
    StateM (Registers σ) (Option (LoadError σ)) := do
  match ← (load scale probabilities loading).run with
  | .ok () => return none
  | .error error => return some error

theorem run_attempt (loading : Loading σ) (grammar : Grammar σ) :
    (attempt scale probabilities loading).run (ofGrammar grammar) =
      (loading.fault? scale probabilities,
        ofGrammar (grammar.tryLoad scale probabilities loading.files loading.batch).1) := by
  rw [attempt, StateT.run_bind]
  cases fault : loading.fault? scale probabilities with
  | some error =>
    rw [run_load_of_fault? fault, Grammar.tryLoad_of_fault? fault]
    rfl
  | none =>
    obtain ⟨loaded, done, tried⟩ := Grammar.exists_tryLoad_eq fault grammar
    rw [run_load_of_ok done, tried]
    rfl

theorem run_mapM_attempt (loadings : List (Loading σ)) (grammar : Grammar σ) :
    (loadings.mapM (attempt scale probabilities)).run (ofGrammar grammar) =
      (loadings.map (Loading.fault? scale probabilities),
        ofGrammar (grammar.attemptInTurn scale probabilities loadings)) := by
  induction loadings generalizing grammar with
  | nil => rfl
  | cons loading rest ih =>
    have later := ih (grammar.tryLoad scale probabilities loading.files loading.batch).1
    simp only [List.mapM_cons, bind_pure_comp, StateT.run_bind, StateT.run_map, run_attempt]
    change _ <$> _ = _
    rw [later]
    rfl

end Sequences

end Registers

/-! ### Main results -/

namespace Grammar

/-- After any sequence of loads that succeed, the grammar is the one that is made by adding all their
rules in one batch, and its look-ups sort all these rules, those of earlier batches by what later
ones have on the left as well. Loading in place leaves just these look-ups in the registers. -/
theorem sorts_of_loadInTurn {scale : Scale σ} {probabilities : Bool} {start : String}
    {loadings : List (Loading σ)} {grammar : Grammar σ}
    (loaded : (empty start).loadInTurn scale probabilities loadings = .ok grammar) :
    ∃ batches, loadings.mapM (Loading.rules? scale probabilities) = .ok batches ∧
      (empty start).addRules batches.flatten = .ok grammar ∧
      grammar.Sorts batches.flatten ∧
      (forM loadings (Registers.load scale probabilities) : Registers.Program σ Unit).run.run
          (.ofGrammar (empty start)) = (.ok (), .ofGrammar grammar) := by
  obtain ⟨batches, read, added⟩ := loadInTurn_eq_ok_iff.1 loaded
  have rules : grammar.rules = batches.flatten := (addRules_eq_ok_iff.1 added).2.2
  exact ⟨batches, read, added, rules ▸ grammar.sorts, Registers.run_forM_load loaded⟩

/-- A file of one rule over `A`, which is a word until the rule that is loaded next. -/
def lateNonterminal : List (Loading Float) :=
  [⟨fun _ => .ok [0x30, 0x09, 0x53, 0x09, 0x41, 0x0A], .file ⟨"", ["s.gr"]⟩⟩,
    ⟨fun _ => .error .notFound, .rules [⟨"A", ["a"], -1⟩]⟩]

theorem sorts_of_loadInTurn_lateNonterminal :
    ∃ grammar, (empty "S").loadInTurn Scale.binary64 false lateNonterminal = .ok grammar ∧
      grammar.rules = [⟨"S", ["A"], 0⟩, ⟨"A", ["a"], -1⟩] ∧
      grammar.unaryRules "A" = [⟨"S", ["A"], 0⟩] ∧ grammar.lexicalRulesFor "A" = [] ∧
      grammar.lexicalRules = [⟨"A", ["a"], -1⟩] := by
  have lines : Text.readLines [0x30, 0x09, 0x53, 0x09, 0x41, 0x0A] =
      ⟨[['0', '\t', 'S', '\t', 'A']], none⟩ := by decide +kernel
  have content : RuleFile.contentLines [['0', '\t', 'S', '\t', 'A']] =
      [(1, ['0', '\t', 'S', '\t', 'A'])] := by decide +kernel
  have file : RuleFile.rules Scale.binary64 false ⟨"", ["s.gr"]⟩
      [0x30, 0x09, 0x53, 0x09, 0x41, 0x0A] = .ok [⟨"S", ["A"], 0⟩] := by
    rw [RuleFile.rules_eq_ok_iff, lines, content]
    exact ⟨.cons rfl .nil, rfl⟩
  have read : lateNonterminal.mapM (Loading.rules? Scale.binary64 false) =
      .ok [[⟨"S", ["A"], 0⟩], [⟨"A", ["a"], -1⟩]] :=
    mapM_eq_ok_iff.2 (.cons file (.cons rfl .nil))
  have loaded : (empty "S").loadInTurn Scale.binary64 false lateNonterminal =
      .ok ((empty "S").extend [⟨"S", ["A"], 0⟩, ⟨"A", ["a"], -1⟩] (by decide)) :=
    loadInTurn_eq_ok_iff.2 ⟨_, read, addRules_eq_ok_iff.2 ⟨by decide, rfl, rfl⟩⟩
  obtain ⟨batches, given, -, sorted, -⟩ := sorts_of_loadInTurn loaded
  obtain rfl := Except.ok.inj (given.symm.trans read)
  refine ⟨_, loaded, rfl, ?_, ?_, ?_⟩
  · simp [sorted.unary_eq]
  · simp [sorted.lexicalFor_eq]
  · simp [sorted.lexical_eq, Rule.child]

/-- A load that fails changes nothing, whatever the registers hold, and it fails just if its batch
is faulty. After any loads, some of which fail, the grammar is what the others make of it in turn,
and that is what the registers hold. -/
theorem loadInTurn_of_attempts (scale : Scale σ) (probabilities : Bool) :
    (∀ loading registers error after,
      (Registers.load scale probabilities loading).run.run registers = (.error error, after) →
        after = registers) ∧
    (∀ loading registers, loading.Faulty scale probabilities ↔ ∃ error,
      (Registers.load scale probabilities loading).run.run registers = (.error error, registers)) ∧
    ∀ (grammar : Grammar σ) loadings, ∃ loaded,
      grammar.loadInTurn scale probabilities
          (loadings.filter fun loading => (loading.fault? scale probabilities).isNone) =
        .ok loaded ∧
      grammar.attemptInTurn scale probabilities loadings = loaded ∧
      (loadings.mapM (Registers.attempt scale probabilities)).run (.ofGrammar grammar) =
        (loadings.map (Loading.fault? scale probabilities), .ofGrammar loaded) := by
  refine ⟨fun loading registers error after failed => (Registers.eq_of_run_load failed).2,
    fun loading registers => ?_, fun grammar loadings => ?_⟩
  · rw [Loading.faulty_iff, Option.ne_none_iff_exists']
    refine exists_congr fun error => ⟨fun fault => Registers.run_load_of_fault? fault registers, ?_⟩
    exact fun failed => (Registers.eq_of_run_load failed).1
  · exact ⟨_, loadInTurn_filter grammar loadings, rfl, Registers.run_mapM_attempt loadings grammar⟩

/-- A good line and then a byte that begins no character. -/
def undecodable : List UInt8 := [0x30, 0x09, 0x53, 0x09, 0x41, 0x0A, 0xFF]

theorem loadInTurn_of_attempts_mixed :
    let nowhere : FileReader := fun _ => .error .notFound
    let first : Loading Float := ⟨nowhere, .rules [⟨"S", ["A"], 0⟩]⟩
    let broken : Loading Float := ⟨fun _ => .ok undecodable, .file ⟨"", ["s.gr"]⟩⟩
    let absent : Loading Float := ⟨nowhere, .file ⟨"", ["s.gr"]⟩⟩
    let misfit : Loading Float :=
      ⟨nowhere, .rules [⟨"A", ["B"], 0⟩, ⟨"A", ["B", "C", "D"], 0⟩]⟩
    let last : Loading Float := ⟨nowhere, .rules [⟨"A", ["a"], -1⟩]⟩
    (∀ registers, ∃ error, (Registers.load Scale.binary64 false broken).run.run registers =
      (.error error, registers)) ∧
    ∃ loaded, (empty "S").loadInTurn Scale.binary64 false [first, last] = .ok loaded ∧
      (empty "S").attemptInTurn Scale.binary64 false [first, broken, absent, misfit, last] =
        loaded ∧
      loaded.rules = [⟨"S", ["A"], 0⟩, ⟨"A", ["a"], -1⟩] := by
  intro nowhere first broken absent misfit last
  obtain ⟨-, faults, attempts⟩ := loadInTurn_of_attempts Scale.binary64 false
  have bad : (Text.readLines undecodable).failure = some ⟨6, [0xFF], .invalidStart⟩ := by
    decide +kernel
  have brokenFault : broken.Faulty Scale.binary64 false := .notUtf8 rfl bad
  have absentFault : absent.Faulty Scale.binary64 false := .unreadable rfl
  have misfitFault : misfit.Faulty Scale.binary64 false :=
    .arity (List.mem_cons_of_mem _ List.mem_cons_self) (by decide)
  have firstFits : first.fault? Scale.binary64 false = none :=
    Loading.fault?_eq_none_iff.2 ⟨_, rfl, by decide⟩
  have lastFits : last.fault? Scale.binary64 false = none :=
    Loading.fault?_eq_none_iff.2 ⟨_, rfl, by decide⟩
  have kept : [first, broken, absent, misfit, last].filter
      (fun loading => (loading.fault? Scale.binary64 false).isNone) = [first, last] := by
    simp [firstFits, lastFits, Loading.faulty_iff.1 brokenFault, Loading.faulty_iff.1 absentFault,
      Loading.faulty_iff.1 misfitFault]
  obtain ⟨loaded, inTurn, attempted, -⟩ := attempts (empty "S") [first, broken, absent, misfit, last]
  rw [kept] at inTurn
  refine ⟨fun registers => (faults broken registers).1 brokenFault, loaded, inTurn, attempted, ?_⟩
  obtain ⟨batches, read, added⟩ := loadInTurn_eq_ok_iff.1 inTurn
  cases read
  exact (addRules_eq_ok_iff.1 added).2.2

end Grammar

end ChartParse
