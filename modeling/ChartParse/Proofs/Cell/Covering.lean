import ChartParse.Proofs.Cell.Closing
import ChartParse.Proofs.Derivation.Tree

/-!
Cells that cover what is offered to them: for every offer they come to hold a derivation of its
label that is worth no less.

What "worth no less" means is left open. Any comparison will do with which adding, storing, refusing
and going round a cycle of unary rules agree (`Grammar.Dominance`). The order of the scores is one
if no cycle gains. The comparison that always holds is another, for any scores whatever, and under
it a cell that covers a derivation is one that holds its label.

Main statement: `Cell.settling_covers`, whatever is offered to a cell that is being closed is covered
from then on, because the nodes under it are covered when its turn comes.
-/

namespace ChartParse

variable {σ : Type}

/-- A comparison of scores with which storing agrees: what replaces another is worth no less. -/
structure Cell.Rising [LT σ] (below : σ → σ → Prop) : Prop where
  refl (score : σ) : below score score
  trans {low middle high : σ} : below low middle → below middle high → below low high
  of_lt {low high : σ} : low < high → below low high

/-- A comparison with which, besides, adding agrees, and refusing: what is refused for its score is
worth no more than what is held, and what went round a cycle no more than what the cycle began
with. -/
structure Grammar.Dominance [Add σ] [LT σ] (grammar : Grammar σ) (below : σ → σ → Prop) : Prop
    extends Cell.Rising below where
  add {low high more most : σ} : below low high → below more most →
    below (low + more) (high + most)
  of_not_lt {low high : σ} : ¬ high < low → below low high
  of_cycle {symbol : String} {weights : List σ} : grammar.UnaryPath symbol weights symbol →
    ∀ score, below (Grammar.climb score weights) score

theorem Grammar.dominance_le [Add σ] [LinearOrder σ] [AddLeftMono σ] [AddRightMono σ]
    {grammar : Grammar σ} (cycles : grammar.CyclesNeverGain) : grammar.Dominance (· ≤ ·) where
  refl := le_refl
  trans := le_trans
  of_lt := le_of_lt
  add := add_le_add
  of_not_lt := le_of_not_gt
  of_cycle path score := cycles _ _ path score

-- Nothing is asked of the scores here, nor of the cycles.
theorem Grammar.dominance_true [Add σ] [LT σ] (grammar : Grammar σ) :
    grammar.Dominance (fun _ _ => True) := by
  refine { refl := ?_, trans := ?_, of_lt := ?_, add := ?_, of_not_lt := ?_, of_cycle := ?_ }
  all_goals intros; trivial

namespace Cell

/-- The cell holds a derivation of the same label that is worth no less. -/
def Covers (below : σ → σ → Prop) (cell : Cell σ) (tree : Derivation σ) : Prop :=
  ∃ held ∈ cell.entries, held.label = tree.label ∧ below tree.score held.score

/-! ### Storing -/

section Storing

variable [LT σ] {below : σ → σ → Prop}

theorem Covers.weaken (rising : Rising below) {cell : Cell σ} {tree other : Derivation σ}
    (covered : cell.Covers below tree) (label : tree.label = other.label)
    (worse : below other.score tree.score) : cell.Covers below other := by
  obtain ⟨held, member, same, above⟩ := covered
  exact ⟨held, member, same.trans label, rising.trans worse above⟩

theorem covers_store_self (rising : Rising below) (cell : Cell σ) (stored : Derivation σ) :
    (cell.store stored).Covers below stored := by
  have found : (cell.store stored).get? stored.label = some stored := by
    rw [get?_store, if_pos rfl]
  exact ⟨stored, mem_entries_of_get? found, rfl, rising.refl _⟩

variable [DecidableLT σ]

theorem lt_of_improves {cell : Cell σ} {stored held : Derivation σ}
    (improves : cell.judge stored = .improves) (member : held ∈ cell.entries)
    (same : held.label = stored.label) : held.score < stored.score := by
  by_contra worse
  have rival := rivals_iff.2 ⟨held, get?_eq_some_iff.2 ⟨member, same⟩, worse⟩
  rw [(judge_eq_improves_iff.1 improves).1] at rival
  contradiction

theorem Covers.store (rising : Rising below) {cell : Cell σ} {stored other : Derivation σ}
    (improves : cell.judge stored = .improves) (covered : cell.Covers below other) :
    (cell.store stored).Covers below other := by
  obtain ⟨held, member, same, above⟩ := covered
  by_cases replaced : held.label = stored.label
  · -- What takes the place of the old derivation covers all that the old one did.
    have gains := lt_of_improves improves member replaced
    exact (covers_store_self rising cell stored).weaken rising (replaced.symm.trans same)
      (rising.trans above (rising.of_lt gains))
  · have kept : (cell.store stored).get? held.label = some held := by
      rw [get?_store, if_neg (Ne.symm replaced)]
      exact get?_eq_some_iff.2 ⟨member, rfl⟩
    exact ⟨held, mem_entries_of_get? kept, same, above⟩

end Storing

/-! ### Offering -/

variable [Add σ] [LT σ] {grammar : Grammar σ} {below : σ → σ → Prop}

/-- What went round a cycle is covered by what covers the node where the cycle began. -/
theorem covers_of_repeatsLabel (dominance : grammar.Dominance below) {cell : Cell σ}
    {refused : Derivation σ} (climbs : grammar.Climbs refused)
    (repeated : refused.repeatsLabel = true)
    (covered : ∀ node ∈ refused.beneath, cell.Covers below node) :
    cell.Covers below refused := by
  obtain ⟨node, lower, label⟩ := Derivation.exists_of_repeatsLabel repeated
  obtain ⟨weights, _, path, climbed⟩ := climbs node lower
  rw [label] at path
  have lost : below refused.score node.score := climbed ▸ dominance.of_cycle path node.score
  exact (covered node lower).weaken dominance.toRising label lost

variable [DecidableLT σ]

theorem covers_of_rivals (dominance : grammar.Dominance below) {cell : Cell σ}
    {refused : Derivation σ} (rival : cell.rivals refused = true) : cell.Covers below refused := by
  obtain ⟨held, found, worse⟩ := rivals_iff.1 rival
  exact ⟨held, mem_entries_of_get? found, label_of_get? found, dominance.of_not_lt worse⟩

/-- The nodes under whatever is offered in a run are covered if those under its first offers are:
the extensions of a derivation stand on it and on what it stood on. -/
theorem offering_covers_beneath (rising : Rising below) (grammar : Grammar σ) :
    Closing.Offering grammar
      (fun cell tree => ∀ node ∈ tree.beneath, cell.Covers below node) where
  lasts improves covered node lower := (covered node lower).store rising improves
  extend := by
    intro cell stored improves covered extension above node lower
    obtain ⟨rule, _, _, _, rfl⟩ := mem_extensions_iff.1 above
    rcases Derivation.mem_spine lower with rfl | deeper
    · exact covers_store_self rising cell node
    · exact (covered node deeper).store rising improves

/-- The cell covers the nodes over the same words under the top of the tree, and unary rules lead up
from each of them. -/
def Bears (grammar : Grammar σ) (below : σ → σ → Prop) (cell : Cell σ) (tree : Derivation σ) :
    Prop :=
  grammar.Climbs tree ∧ ∀ node ∈ tree.beneath, cell.Covers below node

omit [LT σ] [DecidableLT σ] in
/-- A tree that has no such nodes needs nothing to stand on. -/
theorem bears_of_beneath_eq_nil (cell : Cell σ) {tree : Derivation σ} (bare : tree.beneath = []) :
    Bears grammar below cell tree :=
  ⟨Grammar.climbs_of_beneath_eq_nil bare, bare ▸ List.forall_mem_nil _⟩

theorem offering_bears (rising : Rising below) (grammar : Grammar σ) :
    Closing.Offering grammar (Bears grammar below) where
  lasts improves borne :=
    ⟨borne.1, (offering_covers_beneath rising grammar).lasts improves borne.2⟩
  extend := by
    rintro cell stored improves ⟨climbs, covered⟩ extension above
    have beneath := (offering_covers_beneath rising grammar).extend improves covered
    refine ⟨?_, beneath extension above⟩
    obtain ⟨rule, member, kind, expands, rfl⟩ := mem_extensions_iff.1 above
    exact climbs.rise member kind expands

/-- Neither the test of the score nor that of the cycle refuses what is not covered. -/
theorem settling_covers (dominance : grammar.Dominance below) :
    Closing.Settling grammar (Bears grammar below) (Covers below) where
  toOffering := offering_bears dominance.toRising grammar
  settled_lasts improves settled := settled.store dominance.toRising improves
  store _ := covers_store_self dominance.toRising _ _
  refuse := by
    rintro cell refused verdict ⟨climbs, covered⟩
    by_cases rival : cell.rivals refused = true
    · exact covers_of_rivals dominance rival
    · by_cases repeated : refused.repeatsLabel = true
      · exact covers_of_repeatsLabel dominance climbs repeated covered
      · -- Then it would have been stored.
        have improves : cell.judge refused = .improves :=
          judge_eq_improves_iff.2 ⟨by simpa using rival, by simpa using repeated⟩
        exact absurd improves verdict

/-! ### Derivations -/

variable [Zero σ]

/-- The tree is a derivation, and the cell covers the nodes over the same words under its top. -/
def Supports (grammar : Grammar σ) (below : σ → σ → Prop) (cell : Cell σ) (tree : Derivation σ) :
    Prop :=
  (∃ words, grammar.Derives tree words) ∧ ∀ node ∈ tree.beneath, cell.Covers below node

theorem offering_supports (rising : Rising below) (grammar : Grammar σ) :
    Closing.Offering grammar (Supports grammar below) where
  lasts improves supported :=
    ⟨supported.1, (offering_covers_beneath rising grammar).lasts improves supported.2⟩
  extend := by
    rintro cell stored improves ⟨⟨words, derives⟩, covered⟩ extension above
    have beneath := (offering_covers_beneath rising grammar).extend improves covered
    refine ⟨⟨words, ?_⟩, beneath extension above⟩
    obtain ⟨rule, member, kind, expands, rfl⟩ := mem_extensions_iff.1 above
    exact .unary member kind expands derives

end Cell

end ChartParse
