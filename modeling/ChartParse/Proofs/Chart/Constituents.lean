import ChartParse.Chart.Span
import ChartParse.Proofs.Cell.Closing
import ChartParse.Proofs.Derivation.Tree

/-!
The constituents of a list of words: all that is offered to its cell by the lexical rules, if it is
one word, or by the binary rules and the cells of its parts.

Main statements: a cell is what closing makes of its constituents in one go, pruned to the beam
(`cellOf_eq`), and `mem_constituents_iff` says what they are.
-/

namespace ChartParse

variable {σ : Type}

namespace Chart

/-! ### What cells are offered -/

variable [Add σ]

/-- What a binary rule makes of two adjacent cells that hold its symbols. -/
def binaryConstituent? (left right : Cell σ) (rule : Rule σ) : Option (Derivation σ) :=
  match rule.rhs with
  | [leftLabel, rightLabel] => do
    let leftBest ← left.get? leftLabel
    let rightBest ← right.get? rightLabel
    return .binary rule.lhs (leftBest.score + rightBest.score + rule.weight) leftBest rightBest
  | _ => none

theorem binaryConstituent?_eq_some_iff {left right : Cell σ} {rule : Rule σ}
    {tree : Derivation σ} :
    binaryConstituent? left right rule = some tree ↔
      ∃ leftBest ∈ left.entries, ∃ rightBest ∈ right.entries,
        rule.rhs = [leftBest.label, rightBest.label] ∧
          tree = .binary rule.lhs (leftBest.score + rightBest.score + rule.weight)
            leftBest rightBest := by
  constructor
  · intro made
    unfold binaryConstituent? at made
    split at made
    next leftLabel rightLabel expands =>
      simp only [Option.bind_eq_bind, Option.bind_eq_some_iff, Option.pure_def,
        Option.some.injEq] at made
      obtain ⟨leftBest, onLeft, rightBest, onRight, rfl⟩ := made
      obtain ⟨leftMember, rfl⟩ := Cell.get?_eq_some_iff.1 onLeft
      obtain ⟨rightMember, rfl⟩ := Cell.get?_eq_some_iff.1 onRight
      exact ⟨leftBest, leftMember, rightBest, rightMember, expands, rfl⟩
    next => cases made
  · rintro ⟨leftBest, leftMember, rightBest, rightMember, expands, rfl⟩
    have onLeft := Cell.get?_eq_some_iff.2 ⟨leftMember, rfl⟩
    have onRight := Cell.get?_eq_some_iff.2 ⟨rightMember, rfl⟩
    simp [binaryConstituent?, expands, onLeft, onRight]

/-- There is nothing to find in an empty cell. -/
theorem filterMap_binaryConstituent?_eq_nil (rules : List (Rule σ)) {left right : Cell σ}
    (bare : (left.isEmpty || right.isEmpty) = true) :
    rules.filterMap (binaryConstituent? left right) = [] := by
  rw [List.filterMap_eq_nil_iff]
  intro rule _
  rw [Option.eq_none_iff_forall_ne_some]
  intro tree made
  obtain ⟨leftBest, onLeft, rightBest, onRight, _⟩ := binaryConstituent?_eq_some_iff.1 made
  rcases Bool.or_eq_true_iff.1 bare with empty | empty
  · rw [List.isEmpty_iff.1 empty] at onLeft
    cases onLeft
  · rw [List.isEmpty_iff.1 empty] at onRight
    cases onRight

variable [LT σ] [DecidableLT σ]

theorem value_offerBinary (grammar : Grammar σ) (left right cell : Cell σ) (rule : Rule σ) :
    (offerBinary grammar left right cell rule).value =
      (cell.close grammar (binaryConstituent? left right rule).toList).value := by
  obtain ⟨lhs, rhs, weight⟩ := rule
  match rhs with
  | [] | [_] | _ :: _ :: _ :: _ => simp [offerBinary, binaryConstituent?]
  | [leftLabel, rightLabel] =>
    cases onLeft : left.get? leftLabel with
    | none => simp [offerBinary, binaryConstituent?, onLeft]
    | some leftBest =>
      cases onRight : right.get? rightLabel with
      | none => simp [offerBinary, binaryConstituent?, onLeft, onRight]
      | some rightBest =>
        simp only [offerBinary, binaryConstituent?, onLeft, onRight, Option.bind_eq_bind,
          Option.bind_some, Option.pure_def, Option.toList_some, ← Cell.value_add,
          Traced.value_bind]
        split <;> rfl

/-- Two adjacent cells offer what the binary rules make of them. That nothing is tried if one of
them is empty makes no difference. -/
theorem combine_eq (grammar : Grammar σ) (left right cell : Cell σ) :
    combine grammar left right cell =
      (cell.close grammar (grammar.binaryRules.filterMap (binaryConstituent? left right))).value := by
  unfold combine
  split
  next bare =>
    rw [filterMap_binaryConstituent?_eq_nil _ bare, Cell.close_nil]
    rfl
  next =>
    rw [Traced.value_foldlM, List.filterMap_eq_flatMap_toList, ← Cell.foldl_close]
    simp only [value_offerBinary]

variable [Zero σ]

theorem value_offerLexical (grammar : Grammar σ) (word : String) (cell : Cell σ) (rule : Rule σ) :
    (offerLexical grammar word cell rule).value =
      (cell.close grammar [.unary rule.lhs (0 + rule.weight) (.leaf word 0)]).value := by
  rw [← Cell.value_add]
  rfl

/-- All that is offered to the cell of some words, in order. -/
def constituents (grammar : Grammar σ) (beam : Option Int) (words : List String) :
    List (Derivation σ) :=
  match words with
  | [] => []
  | [word] => (grammar.lexicalRulesFor word).map fun rule =>
      .unary rule.lhs (0 + rule.weight) (.leaf word 0)
  | _ => (List.range' 1 (words.length - 1)).flatMap fun cut =>
      grammar.binaryRules.filterMap
        (binaryConstituent? (cellOf grammar beam (words.take cut))
          (cellOf grammar beam (words.drop cut)))

theorem constituents_of_two_le (grammar : Grammar σ) (beam : Option Int) {words : List String}
    (long : 2 ≤ words.length) :
    constituents grammar beam words = (List.range' 1 (words.length - 1)).flatMap fun cut =>
      grammar.binaryRules.filterMap
        (binaryConstituent? (cellOf grammar beam (words.take cut))
          (cellOf grammar beam (words.drop cut))) := by
  match words, long with
  | first :: second :: rest, _ => rfl

/-- The words of a span have as constituents what the cells of its parts make, split by split. -/
theorem constituents_slice (grammar : Grammar σ) (beam : Option Int) {words : List String}
    {first reach : Nat} (wide : 0 < reach) (inside : first + reach < words.length) :
    constituents grammar beam (slice words first reach) =
      (List.range reach).flatMap fun cut => grammar.binaryRules.filterMap
        (binaryConstituent? (cellOf grammar beam (slice words first cut))
          (cellOf grammar beam (slice words (first + cut + 1) (reach - cut - 1)))) := by
  have length := length_slice inside
  rw [constituents_of_two_le grammar beam (by omega), length, Nat.add_sub_cancel,
    List.range'_eq_map_range, List.flatMap_map]
  apply List.flatMap_congr
  intro cut member
  have narrow := List.mem_range.1 member
  rw [Nat.add_comm 1 cut, take_slice words (Nat.le_of_lt narrow), drop_slice words narrow]

theorem value_foldlM_offerLexical (grammar : Grammar σ) (beam : Option Int) (word : String) :
    ((grammar.lexicalRulesFor word).foldlM (offerLexical grammar word) .empty).value =
      (Cell.close grammar .empty (constituents grammar beam [word])).value := by
  rw [Traced.value_foldlM, constituents, List.map_eq_flatMap, ← Cell.foldl_close]
  simp only [value_offerLexical]

theorem foldl_combine (grammar : Grammar σ) (beam : Option Int) {words : List String}
    (long : 2 ≤ words.length) :
    (List.range' 1 (words.length - 1)).foldl (fun cell cut =>
        combine grammar (cellOf grammar beam (words.take cut))
          (cellOf grammar beam (words.drop cut)) cell) .empty =
      (Cell.close grammar .empty (constituents grammar beam words)).value := by
  rw [constituents_of_two_le grammar beam long, ← Cell.foldl_close]
  simp only [combine_eq]

/-- A cell is its constituents closed under the unary rules, all at once, and pruned. -/
theorem cellOf_eq (grammar : Grammar σ) (beam : Option Int) {words : List String}
    (nonempty : words ≠ []) :
    cellOf grammar beam words =
      limited beam (Cell.close grammar .empty (constituents grammar beam words)).value := by
  match words, nonempty with
  | [word], _ => rw [cellOf, value_lexicalCell, value_foldlM_offerLexical grammar beam]
  | first :: second :: rest, _ =>
    have long : 2 ≤ (first :: second :: rest).length := by simp
    rw [cellOf_of_two_le grammar beam long, foldl_combine grammar beam long]

theorem ne_nil_of_mem_cellOf {grammar : Grammar σ} {beam : Option Int} {words : List String}
    {tree : Derivation σ} (member : tree ∈ (cellOf grammar beam words).entries) : words ≠ [] := by
  rintro rfl
  rw [cellOf_nil] at member
  cases member

/-- A tree is a constituent of some words: a lexical rule over the only word, or a binary rule over
what the cells of the two parts hold for some cut. -/
inductive Constituent (grammar : Grammar σ) (beam : Option Int) :
    List String → Derivation σ → Prop
  | lexical {rule : Rule σ} {word : String} (member : rule ∈ grammar.rules)
      (kind : grammar.kind? rule = some .lexical) (expands : rule.rhs = [word]) :
      Constituent grammar beam [word] (.unary rule.lhs (0 + rule.weight) (.leaf word 0))
  | binary {rule : Rule σ} {left right : Derivation σ} {words : List String} {cut : Nat}
      (low : 0 < cut) (high : cut < words.length) (member : rule ∈ grammar.rules)
      (expands : rule.rhs = [left.label, right.label])
      (onLeft : left ∈ (cellOf grammar beam (words.take cut)).entries)
      (onRight : right ∈ (cellOf grammar beam (words.drop cut)).entries) :
      Constituent grammar beam words
        (.binary rule.lhs (left.score + right.score + rule.weight) left right)

theorem mem_constituents_iff {grammar : Grammar σ} {beam : Option Int} {words : List String}
    {tree : Derivation σ} :
    tree ∈ constituents grammar beam words ↔ Constituent grammar beam words tree := by
  constructor
  · intro offered
    match words with
    | [] => cases offered
    | [word] =>
      obtain ⟨rule, listed, rfl⟩ := List.mem_map.1 offered
      obtain ⟨member, kind, expands⟩ := Grammar.mem_lexicalRulesFor_iff.1 listed
      exact .lexical member kind expands
    | first :: second :: rest =>
      rw [constituents_of_two_le grammar beam (by simp)] at offered
      obtain ⟨cut, inRange, made⟩ := List.mem_flatMap.1 offered
      obtain ⟨rule, listed, made⟩ := List.mem_filterMap.1 made
      obtain ⟨left, onLeft, right, onRight, expands, rfl⟩ := binaryConstituent?_eq_some_iff.1 made
      obtain ⟨low, high⟩ := List.mem_range'_1.1 inRange
      exact .binary (by omega) (by omega) (Grammar.mem_binaryRules_iff.1 listed).1 expands
        onLeft onRight
  · intro constituent
    -- The rule is listed, and so is the cut if there is one.
    cases constituent with
    | lexical member kind expands =>
      exact List.mem_map.2 ⟨_, Grammar.mem_lexicalRulesFor_iff.2 ⟨member, kind, expands⟩, rfl⟩
    | @binary rule left right _ cut low high member expands onLeft onRight =>
      rw [constituents_of_two_le grammar beam (by omega)]
      refine List.mem_flatMap.2 ⟨cut, List.mem_range'_1.2 (by omega), ?_⟩
      refine List.mem_filterMap.2 ⟨rule, Grammar.mem_binaryRules_iff.2 ⟨member, _, _, expands⟩, ?_⟩
      exact binaryConstituent?_eq_some_iff.2 ⟨left, onLeft, right, onRight, expands, rfl⟩

/-- No unary node stands over another in a constituent. -/
theorem Constituent.beneath_eq_nil {grammar : Grammar σ} {beam : Option Int}
    {words : List String} {tree : Derivation σ}
    (constituent : Constituent grammar beam words tree) : tree.beneath = [] := by
  cases constituent <;> rfl

end Chart

end ChartParse
