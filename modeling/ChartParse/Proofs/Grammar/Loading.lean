import ChartParse.Grammar.RuleFile
import Mathlib.Data.List.Forall2

/-!
Loading batches into a grammar, one after another.

Whether a batch can be loaded, and what is wrong with it if not, is a matter of the batch and the
files, not of the grammar (`Grammar.load_eq_error_iff`). Loading batches in turn is adding all their
rules at once (`Grammar.loadInTurn_eq_ok_iff`).
-/

namespace ChartParse

variable {σ : Type}

theorem bind_eq_ok_iff {ε α β : Type} {first : Except ε α} {next : α → Except ε β} {result : β} :
    first >>= next = .ok result ↔ ∃ value, first = .ok value ∧ next value = .ok result := by
  cases first with
  | error error => exact ⟨nofun, nofun⟩
  | ok value => exact ⟨fun done => ⟨value, rfl, done⟩, fun ⟨_, rfl, done⟩ => done⟩

/-- A loop that can fail gives results exactly if each of its steps does. -/
theorem mapM_eq_ok_iff {ε α β : Type} {step : α → Except ε β} {items : List α}
    {results : List β} :
    items.mapM step = .ok results ↔
      List.Forall₂ (fun item result => step item = .ok result) items results := by
  induction items generalizing results with
  | nil =>
    rw [List.forall₂_nil_left_iff]
    exact ⟨fun done => (Except.ok.inj done).symm, fun none => congrArg Except.ok none.symm⟩
  | cons item rest ih =>
    rw [List.mapM_cons, bind_eq_ok_iff, List.forall₂_cons_left_iff]
    refine exists_congr fun result => ?_
    simp only [bind_eq_ok_iff, ih, exists_and_left]
    refine and_congr_right fun _ => exists_congr fun later => and_congr_right fun _ => ?_
    exact ⟨fun done => (Except.ok.inj done).symm, fun whole => congrArg Except.ok whole.symm⟩

theorem exists_forall₂_iff {α β : Type} {related : α → β → Prop} {items : List α} :
    (∃ results, List.Forall₂ related items results) ↔
      ∀ item ∈ items, ∃ result, related item result := by
  induction items with
  | nil => simp
  | cons item rest ih => simp [List.forall₂_cons_left_iff, ← ih]

/-- A loop fails exactly if one of its steps does, and all before it give results. -/
theorem mapM_eq_error_iff {ε α β : Type} {step : α → Except ε β} {items : List α} {error : ε} :
    items.mapM step = .error error ↔
      ∃ before item after, items = before ++ item :: after ∧
        (∀ other ∈ before, ∃ result, step other = .ok result) ∧ step item = .error error := by
  constructor
  · intro failed
    induction items with
    | nil => cases failed
    | cons item rest ih =>
      rw [List.mapM_cons] at failed
      cases first : step item with
      | error met =>
        rw [first] at failed
        cases failed
        exact ⟨[], item, rest, rfl, List.forall_mem_nil _, first⟩
      | ok result =>
        rw [first] at failed
        cases later : rest.mapM step with
        | error met =>
          rw [later] at failed
          cases failed
          obtain ⟨before, other, after, rfl, sound, stopped⟩ := ih later
          exact ⟨item :: before, other, after, rfl,
            List.forall_mem_cons.2 ⟨⟨result, first⟩, sound⟩, stopped⟩
        | ok results =>
          rw [later] at failed
          cases failed
  · rintro ⟨before, item, after, rfl, sound, stopped⟩
    obtain ⟨results, given⟩ := exists_forall₂_iff.2 sound
    rw [List.mapM_append, mapM_eq_ok_iff.2 given, List.mapM_cons, stopped]
    rfl

theorem exists_of_forall₂ {α β : Type} {related : α → β → Prop} {items : List α}
    {results : List β} (pairs : List.Forall₂ related items results) :
    ∀ result ∈ results, ∃ item ∈ items, related item result := by
  induction pairs with
  | nil => exact List.forall_mem_nil _
  | cons first _ ih =>
    refine List.forall_mem_cons.2 ⟨⟨_, List.mem_cons_self, first⟩, fun result member => ?_⟩
    obtain ⟨item, there, later⟩ := ih result member
    exact ⟨item, List.mem_cons_of_mem _ there, later⟩

/-- A batch to be added to a grammar, with the files as they are at the time. -/
structure Loading (σ : Type) where
  files : FileReader
  batch : Batch σ

namespace Loading

variable (scale : Scale σ) (probabilities : Bool)

def rules? (loading : Loading σ) : Except (LoadError σ) (List (Rule σ)) :=
  Grammar.rulesOf scale probabilities loading.files loading.batch

/-- What is wrong with a batch, whatever grammar it is to be added to. -/
def fault? (loading : Loading σ) : Option (LoadError σ) :=
  match loading.rules? scale probabilities with
  | .error error => some error
  | .ok rules => (rules.find? (!Rule.hasArity ·)).map (.arity ⟨·⟩)

/-- A batch that cannot be loaded: a list with a rule that has neither one nor two symbols on the
right, or a file that cannot be opened, has a line with content that is no rule, or has bytes that
are not UTF-8. -/
inductive Faulty : Loading σ → Prop
  | arity {files : FileReader} {rules : List (Rule σ)} {rule : Rule σ} (member : rule ∈ rules)
      (other : rule.rhs.length ≠ 1 ∧ rule.rhs.length ≠ 2) : Faulty ⟨files, .rules rules⟩
  | unreadable {files : FileReader} {path : Path} {fault : OpenFault}
      (failed : files path = .error fault) : Faulty ⟨files, .file path⟩
  | malformed {files : FileReader} {path : Path} {bytes : List UInt8} {line : Nat × List Char}
      {error : RuleLine.Error σ} (opened : files path = .ok bytes)
      (member : line ∈ RuleFile.contentLines (Text.readLines bytes).lines)
      (refused : RuleLine.read scale probabilities line.2 = .error error) :
      Faulty ⟨files, .file path⟩
  | notUtf8 {files : FileReader} {path : Path} {bytes : List UInt8}
      {malformed : Text.Utf8.Malformed} (opened : files path = .ok bytes)
      (failed : (Text.readLines bytes).failure = some malformed) : Faulty ⟨files, .file path⟩

end Loading

/-- A line gives a rule exactly if it has three columns, with the weight in the first, the left-hand
side in the second and one or two symbols in the third. -/
theorem RuleLine.read_eq_ok_iff {scale : Scale σ} {probabilities : Bool} {line : List Char}
    {rule : Rule σ} :
    RuleLine.read scale probabilities line = .ok rule ↔
      ∃ first second third, Text.fields (· == '\t') line = [first, second, third] ∧
        RuleLine.readWeight scale probabilities first = .ok rule.weight ∧
        Text.trim second ≠ [] ∧
        ((Text.words third).length = 1 ∨ (Text.words third).length = 2) ∧
        rule.lhs = String.ofList (Text.trim second) ∧
        rule.rhs = (Text.words third).map String.ofList := by
  obtain ⟨lhs, rhs, weight⟩ := rule
  unfold RuleLine.read
  constructor
  · intro read
    split at read
    next first second third columns =>
      obtain ⟨weight, weighs, read⟩ := bind_eq_ok_iff.1 read
      simp only at read
      split at read
      next => cases read
      next fits =>
        cases read
        simp only [Bool.or_eq_true, List.isEmpty_iff, Bool.not_eq_true', Bool.or_eq_false_iff,
          decide_eq_false_iff_not, not_or, not_and_or, not_not] at fits
        exact ⟨first, second, third, columns, weighs, fits.1, fits.2, rfl, rfl⟩
    next => cases read
  · rintro ⟨first, second, third, columns, weighs, named, few, rfl, rfl⟩
    simp only [columns, weighs, bind, Except.bind]
    rw [if_neg (by simpa [named, or_iff_not_imp_left] using few)]
    rfl

theorem RuleLine.hasArity_of_read {scale : Scale σ} {probabilities : Bool} {line : List Char}
    {rule : Rule σ} (read : RuleLine.read scale probabilities line = .ok rule) : rule.hasArity := by
  obtain ⟨_, _, third, _, _, _, few, _, rhs⟩ := RuleLine.read_eq_ok_iff.1 read
  simpa [Rule.hasArity, rhs] using few

/-! ### Faults -/

section Faults

variable {scale : Scale σ} {probabilities : Bool}

theorem mapError_eq_ok_iff {ε δ α : Type} {f : ε → δ} {result : Except ε α} {value : α} :
    result.mapError f = .ok value ↔ result = .ok value := by
  cases result <;> simp [Except.mapError]

theorem mapError_eq_error_iff {ε δ α : Type} {f : ε → δ} {result : Except ε α} {error : δ} :
    result.mapError f = .error error ↔ ∃ met, result = .error met ∧ error = f met := by
  cases result <;> simp [Except.mapError, eq_comm]

/-- A file gives rules exactly if each of its lines with content does and all of it is UTF-8. -/
theorem RuleFile.rules_eq_ok_iff {path : Path} {bytes : List UInt8} {rules : List (Rule σ)} :
    RuleFile.rules scale probabilities path bytes = .ok rules ↔
      (List.Forall₂ (fun line rule => RuleLine.read scale probabilities line.2 = .ok rule)
        (RuleFile.contentLines (Text.readLines bytes).lines) rules) ∧
        (Text.readLines bytes).failure = none := by
  simp only [RuleFile.rules, bind_eq_ok_iff, mapM_eq_ok_iff, mapError_eq_ok_iff]
  cases (Text.readLines bytes).failure with
  | some malformed => simp
  | none =>
    constructor
    · rintro ⟨_, given, ⟨⟩⟩
      exact ⟨given, rfl⟩
    · rintro ⟨given, _⟩
      exact ⟨rules, given, rfl⟩

/-- Every rule of a file was read off one of its lines with content. -/
theorem RuleFile.exists_line_of_mem {path : Path} {bytes : List UInt8} {rules : List (Rule σ)}
    (read : RuleFile.rules scale probabilities path bytes = .ok rules) :
    ∀ rule ∈ rules, ∃ line ∈ RuleFile.contentLines (Text.readLines bytes).lines,
      RuleLine.read scale probabilities line.2 = .ok rule :=
  exists_of_forall₂ (RuleFile.rules_eq_ok_iff.1 read).1

theorem RuleFile.hasArity_of_rules {path : Path} {bytes : List UInt8} {rules : List (Rule σ)}
    (read : RuleFile.rules scale probabilities path bytes = .ok rules) :
    ∀ rule ∈ rules, rule.hasArity := by
  intro rule member
  obtain ⟨line, -, given⟩ := RuleFile.exists_line_of_mem read rule member
  exact RuleLine.hasArity_of_read given

theorem RuleFile.exists_rules_iff {path : Path} {bytes : List UInt8} :
    (∃ rules, RuleFile.rules scale probabilities path bytes = .ok rules) ↔
      (∀ line ∈ RuleFile.contentLines (Text.readLines bytes).lines,
        ∃ rule, RuleLine.read scale probabilities line.2 = .ok rule) ∧
        (Text.readLines bytes).failure = none := by
  simp only [RuleFile.rules_eq_ok_iff, exists_and_right, exists_forall₂_iff]

namespace Loading

theorem fault?_eq_none_iff {loading : Loading σ} :
    loading.fault? scale probabilities = none ↔
      ∃ rules, loading.rules? scale probabilities = .ok rules ∧ ∀ rule ∈ rules, rule.hasArity := by
  unfold fault?
  cases loading.rules? scale probabilities <;> simp

theorem rules?_of_opened {files : FileReader} {path : Path} {bytes : List UInt8}
    (opened : files path = .ok bytes) :
    rules? scale probabilities ⟨files, .file path⟩ =
      RuleFile.rules scale probabilities path bytes := by
  simp only [rules?, Grammar.rulesOf, opened]

theorem not_faulty_of_fault? {loading : Loading σ}
    (sound : loading.fault? scale probabilities = none) :
    ¬ loading.Faulty scale probabilities := by
  obtain ⟨rules, read, arity⟩ := fault?_eq_none_iff.1 sound
  intro faulty
  cases faulty with
  | @arity _ listed rule member other =>
    obtain rfl : listed = rules := Except.ok.inj read
    have fits := arity rule member
    simp [Rule.hasArity, other] at fits
  | unreadable failed => simp [rules?, Grammar.rulesOf, failed] at read
  | malformed opened member refused =>
    rw [rules?_of_opened opened] at read
    obtain ⟨rule, given⟩ := (RuleFile.exists_rules_iff.1 ⟨rules, read⟩).1 _ member
    cases refused.symm.trans given
  | notUtf8 opened failed =>
    rw [rules?_of_opened opened] at read
    cases failed.symm.trans (RuleFile.exists_rules_iff.1 ⟨rules, read⟩).2

theorem fault?_eq_none_of_not_faulty {loading : Loading σ}
    (sound : ¬ loading.Faulty scale probabilities) :
    loading.fault? scale probabilities = none := by
  rw [fault?_eq_none_iff]
  obtain ⟨files, rules | path⟩ := loading
  · refine ⟨rules, rfl, fun rule member => ?_⟩
    by_contra other
    exact sound (.arity member (by simpa [Rule.hasArity] using other))
  · cases opened : files path with
    | error fault => exact absurd (.unreadable opened) sound
    | ok bytes =>
      have complete : (Text.readLines bytes).failure = none :=
        Option.eq_none_iff_forall_ne_some.2 fun malformed failed => sound (.notUtf8 opened failed)
      have lines (line) (member : line ∈ RuleFile.contentLines (Text.readLines bytes).lines) :
          ∃ rule, RuleLine.read scale probabilities line.2 = .ok rule := by
        cases result : RuleLine.read scale probabilities line.2 with
        | ok rule => exact ⟨rule, rfl⟩
        | error error => exact absurd (.malformed opened member result) sound
      obtain ⟨rules, read⟩ := RuleFile.exists_rules_iff.2 ⟨lines, complete⟩
      exact ⟨rules, (rules?_of_opened opened).trans read, RuleFile.hasArity_of_rules read⟩

/-- What is wrong with a batch is one of the four kinds of faults. -/
theorem faulty_iff {loading : Loading σ} :
    loading.Faulty scale probabilities ↔ loading.fault? scale probabilities ≠ none :=
  ⟨fun faulty sound => not_faulty_of_fault? sound faulty,
    fun fault => not_not.1 fun sound => fault (fault?_eq_none_of_not_faulty sound)⟩

end Loading

end Faults

namespace Grammar

/-! ### Adding rules -/

theorem eq_of_rules {grammar other : Grammar σ} (start : grammar.start = other.start)
    (rules : grammar.rules = other.rules) : grammar = other := by
  obtain ⟨_, _, _, index, rfl⟩ := grammar
  obtain ⟨_, _, _, index, rfl⟩ := other
  cases start
  cases rules
  rfl

theorem addRules_eq_error_iff {grammar : Grammar σ} {batch : List (Rule σ)}
    {error : ArityError σ} :
    grammar.addRules batch = .error error ↔ batch.find? (!Rule.hasArity ·) = some error.rule := by
  obtain ⟨rule⟩ := error
  unfold addRules
  split
  next misfit found => simp [found]
  next fits =>
    constructor
    · exact nofun
    · intro found
      cases fits.symm.trans found

theorem find?_misfit_eq_none_iff {batch : List (Rule σ)} :
    batch.find? (!Rule.hasArity ·) = none ↔ ∀ rule ∈ batch, rule.hasArity := by
  simp

theorem addRules_eq_ok_iff {grammar extended : Grammar σ} {batch : List (Rule σ)} :
    grammar.addRules batch = .ok extended ↔
      (∀ rule ∈ batch, rule.hasArity) ∧ extended.start = grammar.start ∧
        extended.rules = grammar.rules ++ batch := by
  constructor
  · intro added
    have rules := rules_of_addRules added
    refine ⟨fun rule member => extended.arity rule ?_, rules⟩
    rw [rules.2]
    exact List.mem_append_right _ member
  · rintro ⟨arity, start, rules⟩
    unfold addRules
    split
    next misfit found => cases (find?_misfit_eq_none_iff.2 arity).symm.trans found
    next => exact congrArg _ (eq_of_rules start.symm rules.symm)

/-- Adding two batches is adding them as one. -/
theorem addRules_append_eq_ok_iff {grammar extended : Grammar σ} {first second : List (Rule σ)} :
    grammar.addRules (first ++ second) = .ok extended ↔
      ∃ between, grammar.addRules first = .ok between ∧
        between.addRules second = .ok extended := by
  simp only [addRules_eq_ok_iff, List.forall_mem_append]
  constructor
  · rintro ⟨⟨firstFits, secondFits⟩, start, rules⟩
    refine ⟨grammar.extend first firstFits, ⟨firstFits, rfl, rfl⟩, secondFits, start, ?_⟩
    rw [rules, extend, List.append_assoc]
  · rintro ⟨between, ⟨firstFits, firstStart, firstRules⟩, secondFits, start, rules⟩
    refine ⟨⟨firstFits, secondFits⟩, start.trans firstStart, ?_⟩
    rw [rules, firstRules, List.append_assoc]

/-! ### Loading -/

variable {scale : Scale σ} {probabilities : Bool}

theorem load_eq_ok_iff {grammar loaded : Grammar σ} {loading : Loading σ} :
    grammar.load scale probabilities loading.files loading.batch = .ok loaded ↔
      ∃ rules, loading.rules? scale probabilities = .ok rules ∧
        grammar.addRules rules = .ok loaded := by
  rw [load, bind_eq_ok_iff]
  refine exists_congr fun rules => and_congr_right fun _ => ?_
  cases grammar.addRules rules with
  | error error => exact ⟨nofun, nofun⟩
  | ok extended => exact ⟨fun | rfl => rfl, fun | rfl => rfl⟩

/-- A load fails with the fault of its batch, if it has one, whatever the grammar. -/
theorem load_eq_error_iff {grammar : Grammar σ} {loading : Loading σ} {error : LoadError σ} :
    grammar.load scale probabilities loading.files loading.batch = .error error ↔
      loading.fault? scale probabilities = some error := by
  unfold load Loading.fault? Loading.rules?
  cases rulesOf scale probabilities loading.files loading.batch with
  | error fault => simp [bind, Except.bind]
  | ok rules =>
    change (grammar.addRules rules).mapError LoadError.arity = .error error ↔
      (rules.find? (!Rule.hasArity ·)).map (LoadError.arity ⟨·⟩) = some error
    cases added : grammar.addRules rules with
    | error misfit =>
      rw [addRules_eq_error_iff.1 added]
      simp [Except.mapError]
    | ok extended =>
      rw [find?_misfit_eq_none_iff.2 (addRules_eq_ok_iff.1 added).1]
      simp [Except.mapError]

/-- Loads batches one after another, up to the first that cannot be loaded. -/
def loadInTurn (scale : Scale σ) (probabilities : Bool) (grammar : Grammar σ)
    (loadings : List (Loading σ)) : Except (LoadError σ) (Grammar σ) :=
  loadings.foldlM (fun grammar loading =>
    grammar.load scale probabilities loading.files loading.batch) grammar

/-- Loading batches one after another is adding the rules of all of them in one batch. -/
theorem loadInTurn_eq_ok_iff {grammar loaded : Grammar σ} {loadings : List (Loading σ)} :
    grammar.loadInTurn scale probabilities loadings = .ok loaded ↔
      ∃ batches, loadings.mapM (Loading.rules? scale probabilities) = .ok batches ∧
        grammar.addRules batches.flatten = .ok loaded := by
  induction loadings generalizing grammar with
  | nil =>
    have nothing : grammar.addRules [] = .ok grammar :=
      addRules_eq_ok_iff.2 ⟨List.forall_mem_nil _, rfl, (List.append_nil _).symm⟩
    constructor
    · rintro ⟨⟩
      exact ⟨[], rfl, nothing⟩
    · rintro ⟨_, ⟨⟩, added⟩
      cases nothing.symm.trans added
      rfl
  | cons loading rest ih =>
    rw [loadInTurn, List.foldlM_cons, bind_eq_ok_iff]
    constructor
    · rintro ⟨between, first, later⟩
      obtain ⟨rules, read, added⟩ := load_eq_ok_iff.1 first
      obtain ⟨batches, readLater, addedLater⟩ := ih.1 later
      refine ⟨rules :: batches, ?_, addRules_append_eq_ok_iff.2 ⟨between, added, addedLater⟩⟩
      rw [List.mapM_cons, read, readLater]
      rfl
    · rintro ⟨batches, readAll, added⟩
      rw [List.mapM_cons] at readAll
      obtain ⟨rules, read, readRest⟩ := bind_eq_ok_iff.1 readAll
      obtain ⟨later, readLater, ⟨⟩⟩ := bind_eq_ok_iff.1 readRest
      obtain ⟨between, first, addedLater⟩ := addRules_append_eq_ok_iff.1 added
      exact ⟨between, load_eq_ok_iff.2 ⟨rules, read, first⟩, ih.2 ⟨later, readLater, addedLater⟩⟩

/-! ### Attempts -/

theorem tryLoad_of_fault? {loading : Loading σ} {fault : LoadError σ}
    (faulty : loading.fault? scale probabilities = some fault) (grammar : Grammar σ) :
    grammar.tryLoad scale probabilities loading.files loading.batch = (grammar, some fault) := by
  rw [tryLoad, load_eq_error_iff.2 faulty]

theorem exists_tryLoad_eq {loading : Loading σ}
    (sound : loading.fault? scale probabilities = none) (grammar : Grammar σ) :
    ∃ loaded, grammar.load scale probabilities loading.files loading.batch = .ok loaded ∧
      grammar.tryLoad scale probabilities loading.files loading.batch = (loaded, none) := by
  cases result : grammar.load scale probabilities loading.files loading.batch with
  | error error => cases sound.symm.trans (load_eq_error_iff.1 result)
  | ok loaded => exact ⟨loaded, rfl, by rw [tryLoad, result]⟩

/-- Attempts to load batches one after another, each of which is given up if it fails. -/
def attemptInTurn (scale : Scale σ) (probabilities : Bool) (grammar : Grammar σ)
    (loadings : List (Loading σ)) : Grammar σ :=
  loadings.foldl (fun grammar loading =>
    (grammar.tryLoad scale probabilities loading.files loading.batch).1) grammar

/-- After any attempts the grammar is what those that succeed make of it in turn. -/
theorem loadInTurn_filter (grammar : Grammar σ) (loadings : List (Loading σ)) :
    grammar.loadInTurn scale probabilities
        (loadings.filter fun loading => (loading.fault? scale probabilities).isNone) =
      .ok (grammar.attemptInTurn scale probabilities loadings) := by
  induction loadings generalizing grammar with
  | nil => rfl
  | cons loading rest ih =>
    rw [attemptInTurn, List.foldl_cons]
    cases fault : loading.fault? scale probabilities with
    | some error =>
      rw [List.filter_cons_of_neg (by simp [fault]), tryLoad_of_fault? fault]
      exact ih grammar
    | none =>
      obtain ⟨loaded, done, tried⟩ := exists_tryLoad_eq fault grammar
      rw [List.filter_cons_of_pos (by simp [fault]), loadInTurn, List.foldlM_cons, done, tried]
      exact ih loaded

end Grammar

end ChartParse
