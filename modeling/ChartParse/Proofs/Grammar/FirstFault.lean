import ChartParse.Proofs.Grammar.Layout

/-!
Which files of rules are accepted, and what is said of those that are not.

A line with content either holds a rule or has a fault (`RuleLine.Holds`, `RuleLine.Faults`), and it
is read as the one or refused for the other (`RuleLine.read_eq_ok_iff_holds`,
`RuleLine.read_eq_error_iff`). A file is refused for its first line with a fault, with the number
that the line has among all lines (`RuleFile.rules_eq_error_iff`). The lines that hold no content do
not appear in what is read, but their numbers are used up.

Main statement: `Grammar.load_first_fault`.
-/

namespace ChartParse

open Text

/-! ### Columns of a line -/

namespace RuleLine

/-- The line is three columns with tabs between them. -/
structure Split (line first second third : List Char) : Prop where
  joined : line = first ++ '\t' :: (second ++ '\t' :: third)
  first : '\t' ∉ first
  second : '\t' ∉ second
  third : '\t' ∉ third

section Columns

variable {line first second third : List Char}

theorem Split.fields_eq (split : Split line first second third) :
    fields (· == '\t') line = [first, second, third] := by
  have free {column : List Char} (absent : '\t' ∉ column) : ∀ c ∈ column, (c == '\t') = false :=
    fun c member => beq_eq_false_iff_ne.2 (ne_of_mem_of_not_mem member absent)
  rw [split.joined, fields_append_cons _ (free split.first) rfl,
    fields_append_cons _ (free split.second) rfl, fields_eq_singleton _ (free split.third)]

theorem exists_split_iff :
    (∃ first second third, Split line first second third) ↔ line.count '\t' = 2 := by
  constructor
  · rintro ⟨first, second, third, split⟩
    have columns := length_fields (· == '\t') line
    rw [split.fields_eq] at columns
    exact (Nat.succ.inj columns).symm
  · intro two
    have tab (rest : List Char) (more : rest.count '\t' ≠ 0) : '\t' ∈ rest :=
      List.count_pos_iff.1 (Nat.pos_of_ne_zero more)
    -- The first tab ends the first column, and the first of those behind it the second.
    obtain ⟨first, rest, rfl, noTab⟩ := List.eq_append_cons_of_mem (tab line (by omega))
    rw [List.count_append, List.count_eq_zero.2 noTab, List.count_cons_self] at two
    obtain ⟨second, third, rfl, noTabEither⟩ := List.eq_append_cons_of_mem (tab rest (by omega))
    rw [List.count_append, List.count_eq_zero.2 noTabEither, List.count_cons_self] at two
    exact ⟨first, second, third, rfl, noTab, noTabEither, List.count_eq_zero.1 (by omega)⟩

theorem read_of_count {σ : Type} {scale : Scale σ} {probabilities : Bool}
    (other : line.count '\t' ≠ 2) : read scale probabilities line = .error (.columns line) := by
  unfold read
  split
  next first second third columns =>
    -- Three fields have two tabs between them.
    have counted := length_fields (· == '\t') line
    rw [columns] at counted
    exact absurd (Nat.succ.inj counted).symm other
  next => rfl

theorem exists_visible_iff {text : List Char} :
    (∃ c ∈ text, isBlank c = false) ↔ trim text ≠ [] := by
  constructor
  · rintro ⟨c, member, visible⟩ nothing
    obtain ⟨before, after, whole, leading, trailing⟩ := exists_eq_trim text
    rw [whole, nothing, List.append_nil] at member
    have blank := (List.mem_append.1 member).elim (leading c) (trailing c)
    rw [visible] at blank
    contradiction
  · intro something
    by_contra invisible
    exact something (trim_eq_nil (by simpa using invisible))

end Columns

/-! ### What a line holds -/

/-- The line holds the rule: a weight that is a number, and one above zero and at most one where
weights are given as probabilities, a left-hand side that is not blank, and one or two symbols. -/
inductive Holds (probabilities : Bool) : List Char → Rule Float → Prop
  | intro {line first second third : List Char} {number : Float}
      (split : Split line first second third) (reads : Decimal.ofText? first = some number)
      (inRange : probabilities = true → 0 < number ∧ number ≤ 1)
      (named : ∃ c ∈ second, isBlank c = false)
      (few : (words third).length = 1 ∨ (words third).length = 2) :
      Holds probabilities line ⟨String.ofList (trim second), (words third).map String.ofList,
        if probabilities then number.log2 else number⟩

/-- What is wrong with the line: the number of its columns, or else its weight, that it is no number
or, where it should be a probability, that it is none, or else its symbols. -/
inductive Faults (probabilities : Bool) : List Char → Error Float → Prop
  | columns {line : List Char} (other : line.count '\t' ≠ 2) :
      Faults probabilities line (.columns line)
  | notNumber {line first second third : List Char} (split : Split line first second third)
      (refused : Decimal.ofText? first = none) : Faults probabilities line (.notNumber first)
  | notProbability {line first second third : List Char} {number : Float}
      (split : Split line first second third) (reads : Decimal.ofText? first = some number)
      (asked : probabilities = true) (outside : ¬ (0 < number ∧ number ≤ 1)) :
      Faults probabilities line (.notProbability number)
  | symbols {line first second third : List Char} {number : Float}
      (split : Split line first second third) (reads : Decimal.ofText? first = some number)
      (inRange : probabilities = true → 0 < number ∧ number ≤ 1)
      (misfit : (∀ c ∈ second, isBlank c = true) ∨
        ((words third).length ≠ 1 ∧ (words third).length ≠ 2)) :
      Faults probabilities line (.symbols line)

section Reading

variable {probabilities : Bool} {line : List Char}

theorem readWeight_of_inRange {column : List Char} {number : Float}
    (reads : Decimal.ofText? column = some number)
    (inRange : probabilities = true → 0 < number ∧ number ≤ 1) :
    readWeight Scale.binary64 probabilities column =
      .ok (if probabilities then number.log2 else number) := by
  cases probabilities with
  | false => exact readWeight_eq_ok_iff.2 reads
  | true =>
    refine readWeight_probability_eq_ok_iff.2 ⟨number, reads, ?_, rfl⟩
    simpa [Scale.binary64] using inRange rfl

theorem readWeight_of_outside {column : List Char} {number : Float}
    (reads : Decimal.ofText? column = some number) (outside : ¬ (0 < number ∧ number ≤ 1)) :
    readWeight Scale.binary64 true column = .error (.notProbability number) := by
  have read : Scale.binary64.read? column = some number := reads
  have none : Scale.binary64.isProbability number = false := by
    simpa [Scale.binary64] using outside
  simp [readWeight, read, none]

theorem Holds.read {rule : Rule Float} (holds : Holds probabilities line rule) :
    RuleLine.read Scale.binary64 probabilities line = .ok rule := by
  cases holds with
  | intro split reads inRange named few =>
    exact read_eq_ok_iff.2 ⟨_, _, _, split.fields_eq, readWeight_of_inRange reads inRange,
      exists_visible_iff.1 named, few, rfl, rfl⟩

theorem Faults.read {fault : Error Float} (faults : Faults probabilities line fault) :
    RuleLine.read Scale.binary64 probabilities line = .error fault := by
  cases faults with
  | columns other => exact read_of_count other
  | notNumber split refused =>
    have read : Scale.binary64.read? _ = none := refused
    simp [RuleLine.read, split.fields_eq, readWeight, read, bind, Except.bind]
  | notProbability split reads asked outside =>
    subst asked
    simp [RuleLine.read, split.fields_eq, readWeight_of_outside reads outside, bind, Except.bind]
  | @symbols first second third number split reads inRange misfit =>
    have refused : ((trim second).isEmpty ||
        !((words third).length = 1 || (words third).length = 2)) = true := by
      rw [Bool.or_eq_true, List.isEmpty_iff]
      exact misfit.imp trim_eq_nil fun many => by simp [many]
    simp only [RuleLine.read, split.fields_eq, readWeight_of_inRange reads inRange, bind,
      Except.bind, refused, if_true]

theorem holds_or_faults (probabilities : Bool) (line : List Char) :
    (∃ rule, Holds probabilities line rule) ∨ ∃ fault, Faults probabilities line fault := by
  -- The tests are made in this order, and each fault supposes that those before it are passed.
  by_cases two : line.count '\t' = 2
  · obtain ⟨first, second, third, split⟩ := exists_split_iff.2 two
    cases reads : Decimal.ofText? first with
    | none => exact Or.inr ⟨_, .notNumber split reads⟩
    | some number =>
      by_cases inRange : probabilities = true → 0 < number ∧ number ≤ 1
      · by_cases fits : (∃ c ∈ second, isBlank c = false) ∧
          ((words third).length = 1 ∨ (words third).length = 2)
        · exact Or.inl ⟨_, .intro split reads inRange fits.1 fits.2⟩
        · refine Or.inr ⟨_, .symbols split reads inRange ?_⟩
          exact (not_and_or.1 fits).imp (fun blank => by simpa using blank) not_or.1
      · obtain ⟨asked, outside⟩ := Classical.not_imp.1 inRange
        exact Or.inr ⟨_, .notProbability split reads asked outside⟩
  · exact Or.inr ⟨_, .columns two⟩

theorem read_eq_ok_iff_holds {rule : Rule Float} :
    RuleLine.read Scale.binary64 probabilities line = .ok rule ↔
      Holds probabilities line rule := by
  refine ⟨fun read => ?_, Holds.read⟩
  rcases holds_or_faults probabilities line with ⟨other, holds⟩ | ⟨fault, faults⟩
  · obtain rfl := Except.ok.inj (read.symm.trans holds.read)
    exact holds
  · cases read.symm.trans faults.read

theorem read_eq_error_iff {fault : Error Float} :
    RuleLine.read Scale.binary64 probabilities line = .error fault ↔
      Faults probabilities line fault := by
  refine ⟨fun read => ?_, Faults.read⟩
  rcases holds_or_faults probabilities line with ⟨rule, holds⟩ | ⟨other, faults⟩
  · cases read.symm.trans holds.read
  · obtain rfl := Except.error.inj (read.symm.trans faults.read)
    exact faults

end Reading

end RuleLine

/-! ### Numbers of lines -/

namespace RuleFile

/-- A line with content stands where it does among the lines. -/
theorem numbered_eq_append_cons_iff {number : Nat} {lines : List (List Char)}
    {before after : List (Nat × List Char)} {item : Nat × List Char} :
    numbered number lines = before ++ item :: after ↔
      ∃ earlier line later content, lines = earlier ++ line :: later ∧
        content? line = some content ∧ item = (number + earlier.length, content) ∧
        before = numbered number earlier ∧
        after = numbered (number + earlier.length + 1) later := by
  constructor
  · intro same
    obtain ⟨head, tail, whole, rfl, rest⟩ := List.filterMap_eq_append_iff.1 same
    obtain ⟨bare, ⟨line, place⟩, others, rfl, none, given, rfl⟩ := List.filterMap_eq_cons_iff.1 rest
    -- Lines without content may stand between the contents before this one and its line.
    rw [← List.append_assoc] at whole
    obtain ⟨earlier, more, rfl, heads, tails⟩ := List.zipIdx_eq_append_iff.1 whole
    obtain ⟨line, later, rfl, ⟨⟩, rfl⟩ := List.zipIdx_eq_cons_iff.1 tails.symm
    obtain ⟨content, found, rfl⟩ := Option.map_eq_some_iff.1 given
    refine ⟨earlier, line, later, content, rfl, found, rfl, ?_, rfl⟩
    rw [numbered, ← heads, List.filterMap_append, List.filterMap_eq_nil_iff.2 none, List.append_nil]
  · rintro ⟨earlier, line, later, content, rfl, found, rfl, rfl, rfl⟩
    simp [numbered, List.zipIdx_append, List.filterMap_append, found]

variable {σ : Type} {scale : Scale σ} {probabilities : Bool} {path : Path} {text : List Char}

/-- A text is refused exactly for the first of its lines with content that holds no rule. -/
theorem rules_eq_error_iff {error : LoadError σ} :
    rules scale probabilities path (Utf8.encode text) = .error error ↔
      ∃ earlier line later content fault, lines text = earlier ++ line :: later ∧
        (∀ other ∈ earlier.filterMap content?,
          ∃ rule, RuleLine.read scale probabilities other = .ok rule) ∧
        content? line = some content ∧
        RuleLine.read scale probabilities content = .error fault ∧
        error = .malformed path (earlier.length + 1) fault := by
  have loop : rules scale probabilities path (Utf8.encode text) =
      (numbered 1 (lines text)).mapM fun line =>
        (RuleLine.read scale probabilities line.2).mapError (.malformed path line.1) := by
    -- All the bytes are read, so nothing is left to fail after the loop.
    rw [rules, readLines_encode, contentLines_eq_numbered]
    exact bind_pure _
  rw [loop, mapM_eq_error_iff]
  simp only [numbered_eq_append_cons_iff, mapError_eq_ok_iff, mapError_eq_error_iff]
  constructor
  · rintro ⟨_, _, _, ⟨earlier, line, later, content, whole, found, rfl, rfl, rfl⟩, sound, fault,
      refused, rfl⟩
    refine ⟨earlier, line, later, content, fault, whole, ?_, found, refused, ?_⟩
    · rw [← map_snd_numbered 1, List.forall_mem_map]
      exact sound
    · rw [Nat.add_comm]
  · rintro ⟨earlier, line, later, content, fault, whole, sound, found, refused, rfl⟩
    rw [← map_snd_numbered 1, List.forall_mem_map] at sound
    refine ⟨_, _, _, ⟨earlier, line, later, content, whole, found, rfl, rfl, rfl⟩, sound, fault,
      refused, ?_⟩
    rw [Nat.add_comm]

/-- A text gives rules exactly if each of its lines with content holds one. -/
theorem rules_eq_ok_iff_holds {rules : List (Rule Float)} :
    RuleFile.rules Scale.binary64 probabilities path (Utf8.encode text) = .ok rules ↔
      List.Forall₂ (RuleLine.Holds probabilities) ((lines text).filterMap content?) rules := by
  rw [rules_eq_ok_iff, readLines_encode, ← map_snd_contentLines, List.forall₂_map_left_iff]
  simp only [RuleLine.read_eq_ok_iff_holds, and_true]

end RuleFile

/-! ### Loading a file -/

namespace Grammar

section Files

variable {σ : Type} {scale : Scale σ} {probabilities : Bool} {files : FileReader} {path : Path}
  {bytes : List UInt8} (opened : files path = .ok bytes) {grammar : Grammar σ}
include opened

theorem load_file_eq_ok_iff {loaded : Grammar σ} :
    grammar.load scale probabilities files (.file path) = .ok loaded ↔
      ∃ rules, RuleFile.rules scale probabilities path bytes = .ok rules ∧
        loaded.start = grammar.start ∧ loaded.rules = grammar.rules ++ rules := by
  let loading : Loading σ := ⟨files, .file path⟩
  have loads : grammar.load scale probabilities loading.files loading.batch = .ok loaded ↔
      ∃ rules, loading.rules? scale probabilities = .ok rules ∧
        grammar.addRules rules = .ok loaded := load_eq_ok_iff
  refine loads.trans (exists_congr fun rules => ?_)
  rw [Loading.rules?_of_opened opened, addRules_eq_ok_iff]
  exact and_congr_right fun read => and_iff_right (RuleFile.hasArity_of_rules read)

/-- What is wrong with a file was found in reading it: each of its rules has one or two symbols, so
that none is refused when they are added. -/
theorem load_file_eq_error_iff {error : LoadError σ} :
    grammar.load scale probabilities files (.file path) = .error error ↔
      RuleFile.rules scale probabilities path bytes = .error error := by
  let loading : Loading σ := ⟨files, .file path⟩
  have fails : grammar.load scale probabilities loading.files loading.batch = .error error ↔
      loading.fault? scale probabilities = some error := load_eq_error_iff
  refine fails.trans ?_
  rw [Loading.fault?, Loading.rules?_of_opened opened]
  cases read : RuleFile.rules scale probabilities path bytes with
  | error met => simp
  | ok rules => simp [find?_misfit_eq_none_iff.2 (RuleFile.hasArity_of_rules read)]

end Files

/-! ### Main result -/

/-- A file that is UTF-8 is loaded exactly if each of its lines with content holds a rule. If so,
these rules are put behind those of the grammar, in their order; if not, the first line without a
rule is named, with its number among all lines, and the first that is wrong with it. -/
theorem load_first_fault {files : FileReader} {path : Path} {text : List Char}
    (opened : files path = .ok (Utf8.encode text)) (probabilities : Bool)
    (grammar : Grammar Float) :
    let outcome := grammar.load Scale.binary64 probabilities files (.file path)
    let contents := (lines text).filterMap RuleFile.content?
    ((∃ loaded, outcome = .ok loaded) ↔
      ∀ content ∈ contents, ∃ rule, RuleLine.Holds probabilities content rule) ∧
    (∀ loaded, outcome = .ok loaded → loaded.start = grammar.start ∧
      ∃ rules, loaded.rules = grammar.rules ++ rules ∧
        List.Forall₂ (RuleLine.Holds probabilities) contents rules) ∧
    ∀ error, outcome = .error error ↔
      ∃ earlier line later content fault, lines text = earlier ++ line :: later ∧
        (∀ other ∈ earlier.filterMap RuleFile.content?,
          ∃ rule, RuleLine.Holds probabilities other rule) ∧
        RuleFile.content? line = some content ∧ RuleLine.Faults probabilities content fault ∧
        error = .malformed path (earlier.length + 1) fault ∧
        error.message Scale.binary64 = path.text ++ ":" ++ toString (earlier.length + 1) ++ ": " ++
          fault.cause Scale.binary64 := by
  intro outcome contents
  have loads (loaded : Grammar Float) : outcome = .ok loaded ↔ ∃ rules,
      List.Forall₂ (RuleLine.Holds probabilities) contents rules ∧
        loaded.start = grammar.start ∧ loaded.rules = grammar.rules ++ rules := by
    refine (load_file_eq_ok_iff opened).trans (exists_congr fun rules => and_congr_left fun _ => ?_)
    exact RuleFile.rules_eq_ok_iff_holds
  refine ⟨⟨?_, fun sound => ?_⟩, fun loaded done => ?_, fun error => ?_⟩
  · rintro ⟨loaded, done⟩
    obtain ⟨rules, holds, -⟩ := (loads loaded).1 done
    exact exists_forall₂_iff.1 ⟨rules, holds⟩
  · obtain ⟨rules, holds⟩ := exists_forall₂_iff.2 sound
    have read : RuleFile.rules Scale.binary64 probabilities path (Utf8.encode text) = .ok rules :=
      RuleFile.rules_eq_ok_iff_holds.2 holds
    exact ⟨_, (loads (grammar.extend rules (RuleFile.hasArity_of_rules read))).2
      ⟨rules, holds, rfl, rfl⟩⟩
  · obtain ⟨rules, holds, start, appended⟩ := (loads loaded).1 done
    exact ⟨start, rules, appended, holds⟩
  · rw [load_file_eq_error_iff opened, RuleFile.rules_eq_error_iff]
    simp only [RuleLine.read_eq_ok_iff_holds, RuleLine.read_eq_error_iff]
    constructor
    · rintro ⟨earlier, line, later, content, fault, whole, sound, found, faults, rfl⟩
      exact ⟨earlier, line, later, content, fault, whole, sound, found, faults, rfl, rfl⟩
    · rintro ⟨earlier, line, later, content, fault, whole, sound, found, faults, rfl, -⟩
      exact ⟨earlier, line, later, content, fault, whole, sound, found, faults, rfl⟩

/-- A comment, an empty line and line ends of two kinds, a weight that is no probability, and a line
that has the tabs it should only until it is stripped. -/
def faultyText : String :=
  "# sentences\r\n0.5\tS\tA B # two\n\n nan\tA\ta\n1\tB\t\n"

theorem load_first_fault_faultyText :
    let files : FileReader := fun _ => .ok (Utf8.encode faultyText.toList)
    let path : Path := ⟨"", ["s.gr"]⟩
    ((empty "S").load Scale.binary64 false files (.file path) =
      .error (.malformed path 5 (.columns "1\tB".toList))) ∧
    ((empty "S").load Scale.binary64 true files (.file path) =
      .error (.malformed path 4 (.notProbability (0 / 0)))) := by
  intro files path
  have opened : files path = .ok (Utf8.encode faultyText.toList) := rfl
  have half : Decimal.ofText? "0.5".toList = some 0.5 := by decide +kernel
  have nan : Decimal.ofText? "nan".toList = some (0 / 0) := by decide +kernel
  have sentence : RuleLine.Split "0.5\tS\tA B".toList "0.5".toList "S".toList "A B".toList :=
    ⟨by decide +kernel, by decide +kernel, by decide +kernel, by decide +kernel⟩
  have word : RuleLine.Split "nan\tA\ta".toList "nan".toList "A".toList "a".toList :=
    ⟨by decide +kernel, by decide +kernel, by decide +kernel, by decide +kernel⟩
  have inRange : (0 : Float) < 0.5 ∧ (0.5 : Float) ≤ 1 := by decide +kernel
  have visible : isBlank 'S' = false ∧ isBlank 'A' = false := by decide
  have first (probabilities : Bool) :
      ∃ rule, RuleLine.Holds probabilities "0.5\tS\tA B".toList rule :=
    ⟨_, .intro sentence half (fun _ => inRange) ⟨'S', by decide +kernel, visible.1⟩
      (by decide +kernel)⟩
  have third : ∃ rule, RuleLine.Holds false "nan\tA\ta".toList rule :=
    ⟨_, .intro word nan nofun ⟨'A', by decide +kernel, visible.2⟩ (by decide +kernel)⟩
  have whole : lines faultyText.toList = ["# sentences".toList, "0.5\tS\tA B # two".toList, []] ++
      " nan\tA\ta".toList :: ["1\tB\t".toList] := by decide +kernel
  have before : ["# sentences".toList, "0.5\tS\tA B # two".toList, []].filterMap RuleFile.content? =
      ["0.5\tS\tA B".toList] := by decide +kernel
  have fourth : RuleFile.content? " nan\tA\ta".toList = some "nan\tA\ta".toList := by
    decide +kernel
  have fifth : RuleFile.content? "1\tB\t".toList = some "1\tB".toList := by decide +kernel
  constructor
  · obtain ⟨-, -, fails⟩ := load_first_fault opened false (empty "S")
    refine (fails _).2 ⟨_, _, [], _, _, whole.trans (List.append_cons _ _ _), ?_, fifth,
      .columns (by decide +kernel), rfl, rfl⟩
    rw [List.filterMap_append, before, List.filterMap_cons_some fourth]
    exact List.forall_mem_cons.2 ⟨first false, List.forall_mem_singleton.2 third⟩
  · obtain ⟨-, -, fails⟩ := load_first_fault opened true (empty "S")
    refine (fails _).2 ⟨_, _, _, _, _, whole, ?_, fourth,
      .notProbability word nan rfl (by decide +kernel), rfl, rfl⟩
    rw [before]
    exact List.forall_mem_singleton.2 (first true)

end Grammar

end ChartParse
