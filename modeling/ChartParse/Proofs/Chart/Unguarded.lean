import ChartParse.Proofs.Cell.Guard
import ChartParse.Proofs.Chart.Completeness
import ChartParse.Proofs.Chart.Refusals

/-!
Charts filled without the guard against cycles of unary rules.

`fillUnder` fills a chart with any guard in the place of the one that refuses what repeats its label,
and is `fill` with that one. Without a guard it need not end. Where no cycle gains it does, with the
same chart, and the guard refuses nothing (`fill_without_guard`).
-/

namespace ChartParse

variable {σ : Type}

section Loops

variable {m : Type → Type} [Monad m] [LawfulMonad m] {α β : Type} {xs : List α}

/-- A loop of steps that have no effect has none. -/
theorem foldlM_eq_pure {step : β → α → m β} {total : β → α → β}
    (same : ∀ x ∈ xs, ∀ state, step state x = pure (total state x)) (start : β) :
    xs.foldlM step start = pure (xs.foldl total start) := by
  induction xs generalizing start with
  | nil => rfl
  | cons x rest ih =>
    obtain ⟨first, later⟩ := List.forall_mem_cons.1 same
    rw [List.foldlM_cons, first start, pure_bind]
    exact ih later (total start x)

theorem mapM_eq_pure {f : α → m β} {total : α → β} (same : ∀ x ∈ xs, f x = pure (total x)) :
    xs.mapM f = pure (xs.map total) := by
  induction xs with
  | nil => rfl
  | cons x rest ih =>
    obtain ⟨first, later⟩ := List.forall_mem_cons.1 same
    rw [List.mapM_cons, first, ih later, pure_bind, pure_bind, List.map_cons]

end Loops

namespace Chart

section AnyGuard

variable [LT σ] [DecidableLT σ] [Zero σ] [Add σ]

/-! ### Filling with a guard -/

section Filling

variable (guard : Derivation σ → Bool) (grammar : Grammar σ) (beam : Option Int)

def lexicalCellUnder (word : String) : Part (Cell σ) := do
  let cell ← (grammar.lexicalRulesFor word).foldlM (fun cell rule =>
    cell.closeUnder guard grammar [.unary rule.lhs (0 + rule.weight) (.leaf word 0)]) .empty
  return limited beam cell

def offerSplitUnder (diagonals : Array (Array (Cell σ))) (first last : Nat) (cell : Cell σ)
    (mid : Nat) : Part (Cell σ) := do
  let some left := cellIn diagonals first mid | return cell
  let some right := cellIn diagonals (mid + 1) last | return cell
  if left.isEmpty || right.isEmpty then return cell
  grammar.binaryRules.foldlM (fun cell rule =>
    cell.closeUnder guard grammar (binaryConstituent? left right rule).toList) cell

def combinedCellUnder (diagonals : Array (Array (Cell σ))) (first last : Nat) :
    Part (Cell σ) := do
  let cell ← (List.range' first (last - first)).foldlM
    (offerSplitUnder guard grammar diagonals first last) .empty
  return limited beam cell

def wideDiagonalUnder (words : Nat) (diagonals : Array (Array (Cell σ))) (reach : Nat) :
    Part (Array (Cell σ)) := do
  let cells ← (List.range (words - reach)).mapM fun first =>
    combinedCellUnder guard grammar beam diagonals first (first + reach)
  return cells.toArray

/-- Fills a chart as `fill` does, but with the given guard. -/
def fillUnder (words : List String) : Part (Chart σ) := do
  let shortest ← words.mapM (lexicalCellUnder guard grammar beam)
  let diagonals ← (List.range' 1 (words.length - 1)).foldlM (fun diagonals reach => do
    return diagonals.push (← wideDiagonalUnder guard grammar beam words.length diagonals reach))
    #[shortest.toArray]
  return ⟨words, diagonals⟩

end Filling

/-- Closing a cell over any constituent ends under the guard, with the same cell. -/
def Faithful (guard : Derivation σ → Bool) (grammar : Grammar σ) (beam : Option Int) : Prop :=
  ∀ words tree, Constituent grammar beam words tree → ∀ cell : Cell σ,
    cell.closeUnder guard grammar [tree] = Part.some (cell.close grammar [tree]).value

variable {guard : Derivation σ → Bool} {grammar : Grammar σ} {beam : Option Int}
  {words : List String}

theorem lexicalCellUnder_eq (faithful : Faithful guard grammar beam) (word : String) :
    lexicalCellUnder guard grammar beam word = Part.some (cellOf grammar beam [word]) := by
  have offers : (grammar.lexicalRulesFor word).foldlM (fun cell rule =>
        cell.closeUnder guard grammar [.unary rule.lhs (0 + rule.weight) (.leaf word 0)]) .empty =
      Part.some ((grammar.lexicalRulesFor word).foldlM (offerLexical grammar word) .empty).value := by
    rw [Traced.value_foldlM]
    apply foldlM_eq_pure
    intro rule listed cell
    obtain ⟨member, kind, expands⟩ := Grammar.mem_lexicalRulesFor_iff.1 listed
    rw [value_offerLexical]
    exact faithful [word] _ (.lexical member kind expands) cell
  rw [lexicalCellUnder, offers, Part.bind_eq_bind, Part.bind_some, cellOf, value_lexicalCell]
  rfl

theorem offerSplitUnder_eq (faithful : Faithful guard grammar beam)
    {diagonals : Array (Array (Cell σ))} {first reach cut : Nat}
    (inside : first + reach < words.length)
    (parts : HoldsParts grammar beam words diagonals first reach) (member : cut < reach)
    (cell : Cell σ) :
    offerSplitUnder guard grammar diagonals first (first + reach) cell (first + cut) =
      Part.some (offerSplit grammar diagonals first (first + reach) cell (first + cut)).value := by
  obtain ⟨onLeft, onRight⟩ := parts cut member
  rw [value_offerSplit grammar diagonals cell onLeft onRight, offerSplitUnder, onLeft, onRight]
  simp only [combine]
  split
  next => rfl
  next =>
    rw [Traced.value_foldlM]
    apply foldlM_eq_pure
    intro rule listed cell
    rw [value_offerBinary]
    cases made : binaryConstituent? (cellOf grammar beam (slice words first cut))
        (cellOf grammar beam (slice words (first + cut + 1) (reach - cut - 1))) rule with
    | none =>
      rw [Option.toList_none, Cell.closeUnder_nil, Cell.close_nil, Traced.value_pure]
      rfl
    | some tree =>
      obtain ⟨left, isLeft, right, isRight, expands, rfl⟩ := binaryConstituent?_eq_some_iff.1 made
      rw [← take_slice words (Nat.le_of_lt member)] at isLeft
      rw [← drop_slice words member] at isRight
      have length := length_slice inside
      have high : cut + 1 < (slice words first reach).length := by omega
      have inRules := (Grammar.mem_binaryRules_iff.1 listed).1
      exact faithful (slice words first reach) _
        (.binary (Nat.succ_pos cut) high inRules expands isLeft isRight) cell

theorem combinedCellUnder_eq (faithful : Faithful guard grammar beam)
    {diagonals : Array (Array (Cell σ))} {first reach : Nat}
    (inside : first + reach < words.length)
    (parts : HoldsParts grammar beam words diagonals first reach) :
    combinedCellUnder guard grammar beam diagonals first (first + reach) =
      Part.some (combinedCell grammar beam diagonals first (first + reach)).value := by
  have splits : (List.range' first reach).foldlM
        (offerSplitUnder guard grammar diagonals first (first + reach)) .empty =
      Part.some ((List.range' first reach).foldlM
        (offerSplit grammar diagonals first (first + reach)) .empty).value := by
    rw [Traced.value_foldlM]
    apply foldlM_eq_pure
    intro mid member cell
    obtain ⟨cut, narrow, rfl⟩ := List.mem_range'.1 member
    rw [Nat.one_mul]
    exact offerSplitUnder_eq faithful inside parts narrow cell
  rw [combinedCellUnder, Nat.add_sub_cancel_left, splits, Part.bind_eq_bind, Part.bind_some]
  simp only [combinedCell, Traced.value_bind, value_limit, Nat.add_sub_cancel_left]
  rfl

theorem wideDiagonalUnder_eq (faithful : Faithful guard grammar beam)
    {diagonals : Array (Array (Cell σ))} (filled : Filled grammar beam words diagonals) :
    wideDiagonalUnder guard grammar beam words.length diagonals diagonals.size =
      Part.some (wideDiagonal grammar beam words.length diagonals diagonals.size).value := by
  have cells : (List.range (words.length - diagonals.size)).mapM (fun first =>
        combinedCellUnder guard grammar beam diagonals first (first + diagonals.size)) =
      Part.some ((List.range (words.length - diagonals.size)).map fun first =>
        (combinedCell grammar beam diagonals first (first + diagonals.size)).value) := by
    apply mapM_eq_pure
    intro first member
    have inside : first + diagonals.size < words.length := by
      have := List.mem_range.1 member
      omega
    exact combinedCellUnder_eq faithful inside (filled.holdsParts (Nat.le_refl _) inside)
  rw [wideDiagonalUnder, cells, Part.bind_eq_bind, Part.bind_some]
  simp only [wideDiagonal, Traced.value_bind, Traced.value_pure, Traced.value_mapM]
  rfl

theorem foldlM_wideDiagonalUnder_eq (faithful : Faithful guard grammar beam)
    (words : List String) (count : Nat) :
    (List.range' 1 count).foldlM (fun diagonals reach => do
        return diagonals.push (← wideDiagonalUnder guard grammar beam words.length diagonals reach))
        #[(lexicalDiagonal grammar beam words).value] =
      Part.some (diagonalsUpTo grammar beam words count) := by
  induction count with
  | zero => rfl
  | succ count ih =>
    obtain ⟨size, filled⟩ := filled_diagonalsUpTo grammar beam words count
    have next := wideDiagonalUnder_eq faithful filled
    rw [size, Nat.add_comm] at next
    have grown : diagonalsUpTo grammar beam words (count + 1) =
        (diagonalsUpTo grammar beam words count).push (wideDiagonal grammar beam words.length
          (diagonalsUpTo grammar beam words count) (1 + count)).value := by
      simp [diagonalsUpTo, List.range'_1_concat]
    rw [List.range'_1_concat, List.foldlM_append, ih, grown]
    simp [next]

theorem fillUnder_eq (faithful : Faithful guard grammar beam) (words : List String) :
    fillUnder guard grammar beam words = Part.some (fill grammar beam words).value := by
  have shortest : words.mapM (lexicalCellUnder guard grammar beam) =
      Part.some (words.map fun word => cellOf grammar beam [word]) :=
    mapM_eq_pure fun word _ => lexicalCellUnder_eq faithful word
  have wider := foldlM_wideDiagonalUnder_eq faithful words (words.length - 1)
  rw [value_lexicalDiagonal, ← diagonals_fill] at wider
  rw [fillUnder, shortest, Part.bind_eq_bind, Part.bind_some, wider, Part.bind_eq_bind,
    Part.bind_some]
  rfl

/-- With the guard that refuses what repeats its label, filling is filling. -/
theorem fillUnder_repeatsLabel (grammar : Grammar σ) (beam : Option Int) (words : List String) :
    fillUnder Derivation.repeatsLabel grammar beam words = Part.some (fill grammar beam words).value :=
  fillUnder_eq (fun _ _ _ cell => cell.closeUnder_repeatsLabel grammar _) words

end AnyGuard

/-! ### Without a guard -/

/-- Where derivations lose as they go round cycles, a chart refuses nothing for it. -/
theorem refusals_fill_of_sinking [LT σ] [DecidableLT σ] [Zero σ] [Add σ] {grammar : Grammar σ}
    {below : σ → σ → Prop} (sinking : grammar.Sinking below) (beam : Option Int)
    (words : List String) : refusals (fill grammar beam words) = [] := by
  rw [refusals_fill, List.flatMap_eq_nil_iff]
  intro span _
  rw [List.eq_nil_iff_forall_not_mem]
  intro refused member
  refine Cell.cycle_notMem_work_of_supports sinking .empty ?_ refused (mem_refusals_iff.1 member)
  intro tree offered
  exact supports_of_mem_constituents below Cell.empty offered

variable [LinearOrder σ] [Zero σ] [Add σ] [AddLeftMono σ] [AddRightMono σ] {grammar : Grammar σ}

/-- Where no cycle gains, filling without a guard ends, with the same chart. -/
theorem fillUnder_never (cycles : grammar.CyclesNeverGain) (beam : Option Int)
    (words : List String) :
    fillUnder (fun _ => false) grammar beam words = Part.some (fill grammar beam words).value := by
  refine fillUnder_eq ?_ words
  intro span tree constituent cell
  have supported := supports_of_mem_constituents (· ≤ ·) cell (mem_constituents_iff.2 constituent)
  exact Cell.closeUnder_never cycles cell (List.forall_mem_singleton.2 supported)

omit [AddLeftMono σ] [AddRightMono σ] in
theorem refusals_fill_eq_nil (cycles : grammar.CyclesNeverGain) (beam : Option Int)
    (words : List String) : refusals (fill grammar beam words) = [] :=
  refusals_fill_of_sinking (Grammar.sinking_le cycles) beam words

/-- Where no cycle of unary rules gains, the guard against cycles makes no difference, with any
beam: nothing that passes the test of its score is refused as a cycle, none is counted, and the chart
is the one that is filled without the guard. -/
theorem fill_without_guard (cycles : grammar.CyclesNeverGain) (width : Option Int)
    (words : List String) :
    (∀ refused, .cycle refused ∉ (fill grammar (width.bind beamOfWidth) words).work) ∧
    (Tally.ofWork (fill grammar (width.bind beamOfWidth) words).work).total .cycle = 0 ∧
    fillUnder Derivation.repeatsLabel grammar (width.bind beamOfWidth) words =
      Part.some (fill grammar (width.bind beamOfWidth) words).value ∧
    fillUnder (fun _ => false) grammar (width.bind beamOfWidth) words =
      Part.some (fill grammar (width.bind beamOfWidth) words).value := by
  have none := refusals_fill_eq_nil cycles (width.bind beamOfWidth) words
  refine ⟨?_, ?_, fillUnder_repeatsLabel grammar _ words, fillUnder_never cycles _ words⟩
  · intro refused recorded
    have member := mem_refusals_iff.2 recorded
    rw [none] at member
    cases member
  · rw [total_cycle, none, List.length_nil]

/-- Two symbols expand to each other here, for nothing. -/
def level : Grammar Int where
  start := "S"
  rules := [⟨"S", ["A", "B"], 0⟩, ⟨"A", ["C"], 0⟩, ⟨"C", ["A"], 0⟩, ⟨"C", ["a"], -3⟩,
    ⟨"A", ["a"], -2⟩, ⟨"B", ["b"], -1⟩]
  arity := by decide

theorem fill_without_guard_level : level.CyclesNeverGain ∧
    (∀ refused, .cycle refused ∉ (fill level (some 1) ["a", "b"]).work) ∧
    fillUnder (fun _ => false) level (some 1) ["a", "b"] =
      Part.some (fill level (some 1) ["a", "b"]).value := by
  have cycles : level.CyclesNeverGain := Grammar.cyclesNeverGain_of_nonpos (by decide +kernel)
  obtain ⟨unrecorded, _, _, unguarded⟩ := fill_without_guard cycles (some 1) ["a", "b"]
  exact ⟨cycles, unrecorded, unguarded⟩

end Chart

end ChartParse
