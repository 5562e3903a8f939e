import ChartParse.Proofs.Grammar.Loading
import ChartParse.Proofs.Text.Lines

/-!
Where the rules of a grammar come from.

A grammar that files have been loaded into, or attempted to be, has the rules that it had and those
of the files that could be loaded (`Grammar.FromFiles.load`, `Grammar.FromFiles.attemptInTurn`). Each
of them was read off a line, and what the reader of lines has tested is true of it.
-/

namespace ChartParse

variable {σ : Type} {scale : Scale σ} {probabilities : Bool}

/-- The rule is one of those that some file gives. -/
def Rule.FromFile (scale : Scale σ) (probabilities : Bool) (rule : Rule σ) : Prop :=
  ∃ path bytes rules, RuleFile.rules scale probabilities path bytes = .ok rules ∧ rule ∈ rules

/-- Such a rule was read off a line of some text. -/
theorem Rule.FromFile.exists_line {rule : Rule σ} (fromFile : rule.FromFile scale probabilities) :
    ∃ text, ∃ line ∈ RuleFile.contentLines (Text.lines text),
      RuleLine.read scale probabilities line.2 = .ok rule := by
  obtain ⟨path, bytes, rules, read, member⟩ := fromFile
  obtain ⟨text, same⟩ := Text.exists_lines_of_complete (RuleFile.rules_eq_ok_iff.1 read).2
  exact ⟨text, same ▸ RuleFile.exists_line_of_mem read rule member⟩

/-! ### Weights -/

namespace RuleLine

theorem readWeight_eq_ok_iff {column : List Char} {weight : σ} :
    readWeight scale false column = .ok weight ↔ scale.read? column = some weight := by
  unfold readWeight
  cases scale.read? column with
  | none => exact ⟨nofun, nofun⟩
  | some given => simp

/-- Where weights are given as probabilities, what is read is the logarithm of one. -/
theorem readWeight_probability_eq_ok_iff {column : List Char} {weight : σ} :
    readWeight scale true column = .ok weight ↔
      ∃ p, scale.read? column = some p ∧ scale.isProbability p = true ∧ weight = scale.log p := by
  unfold readWeight
  cases scale.read? column with
  | none => simp
  | some p =>
    cases checked : scale.isProbability p with
    | false => simp [checked]
    | true =>
      simp only [Bool.not_true, Bool.false_eq_true, if_false, checked, if_true, Except.ok.injEq,
        Option.some.injEq]
      constructor
      · rintro rfl
        exact ⟨p, rfl, checked, rfl⟩
      · rintro ⟨_, rfl, _, weight⟩
        exact weight.symm

end RuleLine

theorem Rule.FromFile.exists_probability {rule : Rule σ} (fromFile : rule.FromFile scale true) :
    ∃ p, scale.isProbability p = true ∧ rule.weight = scale.log p := by
  obtain ⟨_, line, _, read⟩ := fromFile.exists_line
  obtain ⟨_, _, _, _, weighs, _⟩ := RuleLine.read_eq_ok_iff.1 read
  obtain ⟨p, _, checked, weight⟩ := RuleLine.readWeight_probability_eq_ok_iff.1 weighs
  exact ⟨p, checked, weight⟩

/-! ### Loading files -/

namespace Grammar

def FromFiles (scale : Scale σ) (probabilities : Bool) (grammar : Grammar σ) : Prop :=
  ∀ rule ∈ grammar.rules, rule.FromFile scale probabilities

theorem fromFiles_empty (start : String) : (empty start).FromFiles scale probabilities :=
  List.forall_mem_nil _

theorem FromFiles.load {grammar loaded : Grammar σ}
    (before : grammar.FromFiles scale probabilities) {files : FileReader} {path : Path}
    (done : grammar.load scale probabilities files (.file path) = .ok loaded) :
    loaded.FromFiles scale probabilities := by
  let loading : Loading σ := ⟨files, .file path⟩
  have loads : grammar.load scale probabilities loading.files loading.batch = .ok loaded := done
  obtain ⟨rules, read, added⟩ := load_eq_ok_iff.1 loads
  obtain ⟨-, -, appended⟩ := addRules_eq_ok_iff.1 added
  rw [FromFiles, appended]
  refine List.forall_mem_append.2 ⟨before, fun rule member => ?_⟩
  cases opened : files path with
  | error fault => simp [loading, Loading.rules?, rulesOf, opened] at read
  | ok bytes =>
    rw [Loading.rules?_of_opened opened] at read
    exact ⟨path, bytes, rules, read, member⟩

theorem FromFiles.attemptInTurn {grammar : Grammar σ}
    (before : grammar.FromFiles scale probabilities) {loadings : List (Loading σ)}
    (files : ∀ loading ∈ loadings, ∃ path, loading.batch = .file path) :
    (grammar.attemptInTurn scale probabilities loadings).FromFiles scale probabilities := by
  induction loadings generalizing grammar with
  | nil => exact before
  | cons loading rest ih =>
    obtain ⟨⟨path, batch⟩, later⟩ := List.forall_mem_cons.1 files
    rw [Grammar.attemptInTurn, List.foldl_cons]
    refine ih ?_ later
    cases fault : loading.fault? scale probabilities with
    | some error =>
      rw [tryLoad_of_fault? fault]
      exact before
    | none =>
      obtain ⟨loaded, done, tried⟩ := exists_tryLoad_eq fault grammar
      rw [tried]
      rw [batch] at done
      exact before.load done

end Grammar

end ChartParse
