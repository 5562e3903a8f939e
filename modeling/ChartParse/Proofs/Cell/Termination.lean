import ChartParse.Proofs.Cell.Closing
import Mathlib.Algebra.Order.Ring.Nat
import Mathlib.Data.List.Dedup
import Mathlib.Data.List.Perm.Subperm

/-!
Closing a cell comes to an end.

Neither the agenda nor the cell says how far it is from its end: whatever is stored puts its
extensions on the agenda, and one label may be stored again and again. What counts is the height of
a derivation over the one that was added. The guard lets no label come twice on the way up, so the
way is no longer than there are labels for unary rules to lead to (`Ascent.length_le`), and the
agenda costs less with each turn (`Step.cost_lt`).

Main statement: `Cell.add_ends`. Nothing is asked of the scores, their sum or their comparison.
-/

namespace ChartParse

variable {σ : Type}

/-! ### Trees above a tree -/

namespace Grammar

theorem mem_unaryTargets_iff {grammar : Grammar σ} {symbol : String} :
    symbol ∈ grammar.unaryTargets ↔
      ∃ rule ∈ grammar.rules, grammar.kind? rule = some .unary ∧ rule.lhs = symbol := by
  rw [unaryTargets, grammar.index_eq, Index.unary_ofRules]
  simp [← kind?_eq, and_assoc]

variable [Add σ]

/-- A tree made from another by unary rules, one upon the other, with the labels of the nodes that
they have put on top, from the top down. -/
inductive Ascent (grammar : Grammar σ) (base : Derivation σ) : List String → Derivation σ → Prop
  | stay : Ascent grammar base [] base
  | rise {rule : Rule σ} {labels : List String} {child : Derivation σ}
      (below : Ascent grammar base labels child) (member : rule ∈ grammar.rules)
      (kind : grammar.kind? rule = some .unary) (expands : rule.rhs = [child.label]) :
      Ascent grammar base (rule.lhs :: labels)
        (.unary rule.lhs (child.score + rule.weight) child)

namespace Ascent

variable {grammar : Grammar σ} {base tree : Derivation σ} {labels : List String}

theorem subset_unaryLabels (ascent : grammar.Ascent base labels tree) :
    labels ⊆ tree.unaryLabels := by
  induction ascent with
  | stay => exact List.nil_subset _
  | rise _ _ _ _ ih => exact List.cons_subset_cons _ ih

theorem subset_unaryTargets (ascent : grammar.Ascent base labels tree) :
    labels ⊆ grammar.unaryTargets := by
  induction ascent with
  | stay => exact List.nil_subset _
  | rise _ member kind _ ih =>
    exact List.cons_subset.2 ⟨mem_unaryTargets_iff.2 ⟨_, member, kind, rfl⟩, ih⟩

/-- If the tree does not repeat its label, no label comes twice if none does below the top. -/
theorem nodup (ascent : grammar.Ascent base labels tree) (simple : tree.repeatsLabel = false)
    (below : labels.tail.Nodup) : labels.Nodup := by
  cases ascent with
  | stay => exact List.nodup_nil
  | rise lower _ _ _ =>
    refine List.nodup_cons.2 ⟨fun repeated => ?_, below⟩
    have known := lower.subset_unaryLabels repeated
    simp [Derivation.repeatsLabel, known] at simple

theorem length_le (ascent : grammar.Ascent base labels tree) (nodup : labels.Nodup) :
    labels.length ≤ grammar.unaryTargets.dedup.length :=
  (List.subperm_of_subset nodup fun _ member =>
    List.mem_dedup.2 (ascent.subset_unaryTargets member)).length_le

end Ascent

end Grammar

/-! ### Turns -/

variable [Add σ] [LT σ] [DecidableLT σ]

namespace Closing

variable {grammar : Grammar σ}

/-- The tree was made from another by unary rules, and no label comes twice below its top: what is
offered is so when its turn comes. -/
theorem offering_ascent (grammar : Grammar σ) (base : Derivation σ) :
    Offering grammar fun _ tree =>
      ∃ labels, grammar.Ascent base labels tree ∧ labels.tail.Nodup where
  lasts _ offered := offered
  extend := by
    rintro cell stored improves ⟨labels, ascent, below⟩ extension above
    obtain ⟨rule, member, kind, expands, rfl⟩ := Cell.mem_extensions_iff.1 above
    -- The guard has let it pass, so its own label is new; that of the extension is yet to be tested.
    have simple := Cell.repeatsLabel_of_judge improves
    exact ⟨rule.lhs :: labels, .rise ascent member kind expands, ascent.nodup simple below⟩

/-- Whatever is on the agenda on the way is no higher over what was added than there are labels for
unary rules to lead to, if it gets stored. -/
theorem ascent_of_improves {cell : Cell σ} {offered stored : Derivation σ} {closing : Closing σ}
    (run : Run grammar ⟨cell, [offered]⟩ closing) (pending : stored ∈ closing.agenda)
    (improves : closing.cell.judge stored = .improves) :
    ∃ labels, grammar.Ascent offered labels stored ∧
      labels.length ≤ grammar.unaryTargets.dedup.length := by
  have waiting : ∀ tree ∈ closing.agenda,
      ∃ labels, grammar.Ascent offered labels tree ∧ labels.tail.Nodup :=
    run.invariant (fun closing => ∀ tree ∈ closing.agenda,
        ∃ labels, grammar.Ascent offered labels tree ∧ labels.tail.Nodup)
      (offering_ascent grammar offered).step
      (List.forall_mem_singleton.2 ⟨[], .stay, List.nodup_nil⟩)
  obtain ⟨labels, ascent, below⟩ := waiting stored pending
  have simple := Cell.repeatsLabel_of_judge improves
  exact ⟨labels, ascent, ascent.length_le (ascent.nodup simple below)⟩

/-! ### Why the turns are numbered -/

def cost (grammar : Grammar σ) (closing : Closing σ) : Nat :=
  Cell.agendaCost grammar.unaryTargets closing.agenda

theorem Step.cost_lt {before after : Closing σ} (next : Step grammar before after) :
    after.cost grammar < before.cost grammar := by
  cases next with
  | refuse => exact Cell.agendaCost_skip _ _ _
  | store improves =>
    exact Cell.agendaCost_extend grammar _ _ (Cell.repeatsLabel_of_judge improves)

/-- Each turn takes at least one off the cost of the agenda. -/
theorem turns_le_cost {states : Nat → Closing σ} {turns : Nat}
    (steps : ∀ turn < turns, Step grammar (states turn) (states (turn + 1))) :
    turns ≤ (states 0).cost grammar := by
  suffices spent : ∀ turn ≤ turns, (states turn).cost grammar + turn ≤ (states 0).cost grammar by
    have := spent turns le_rfl
    omega
  intro turn within
  induction turn with
  | zero => exact le_rfl
  | succ turn ih =>
    have before := ih (by omega)
    have less := (steps turn (by omega)).cost_lt
    omega

omit [Add σ] [LT σ] [DecidableLT σ] in
theorem cost_singleton_le (grammar : Grammar σ) (cell : Cell σ) (offered : Derivation σ) :
    cost grammar ⟨cell, [offered]⟩ ≤
      (grammar.unaryTargets.length + 1) ^ (grammar.unaryTargets.length + 1) := by
  have high : Cell.headroom grammar.unaryTargets offered ≤ grammar.unaryTargets.length + 1 := by
    cases offered with
    | leaf | binary => exact le_rfl
    | unary label score child =>
      by_cases target : label ∈ grammar.unaryTargets
      · exact (Cell.headroom_unary_le _ score child target).trans (Nat.le_succ _)
      · rw [Cell.headroom, if_neg target]
  exact Nat.pow_le_pow_right (Nat.succ_pos _) high

/-! ### One way to go -/

theorem Step.unique {before after other : Closing σ} (next : Step grammar before after)
    (also : Step grammar before other) : after = other := by
  cases next with
  | refuse refused =>
    cases also with
    | refuse => rfl
    | store improves => exact absurd improves refused
  | store improves =>
    cases also with
    | refuse refused => exact absurd improves refused
    | store => rfl

theorem not_step_nil {cell : Cell σ} {after : Closing σ} : ¬ Step grammar ⟨cell, []⟩ after := nofun

/-- From any state on the way to an end there is a way on to it. -/
theorem Run.to_end {start closing : Closing σ} {closed : Cell σ}
    (run : Run grammar start closing) (ending : Run grammar start ⟨closed, []⟩) :
    Run grammar closing ⟨closed, []⟩ := by
  -- There is one way to go at each turn, so one of the runs goes on from where the other stands;
  -- nothing goes on from the end.
  have unique : Relator.RightUnique (Step grammar) := fun _ _ _ => Step.unique
  rcases Relation.ReflTransGen.total_of_right_unique unique run ending with onward | back
  · exact onward
  · rcases back.cases_head with same | ⟨_, next, _⟩
    · exact same ▸ .refl
    · exact absurd next not_step_nil

end Closing

/-! ### Main result -/

/-- Adding a derivation to a cell takes a number of turns that the grammar alone bounds. Whatever
turns have been taken, those that follow lead to an empty agenda and the cell that adding gives; and
if the next of them stores a derivation, that is no more unary rules above what was added than there
are distinct left-hand sides of unary rules. -/
theorem Cell.add_ends (grammar : Grammar σ) (cell : Cell σ) (offered : Derivation σ) :
    (∀ (states : Nat → Closing σ) (turns : Nat), states 0 = ⟨cell, [offered]⟩ →
      (∀ turn < turns, Closing.Step grammar (states turn) (states (turn + 1))) →
        turns ≤ (grammar.unaryTargets.length + 1) ^ (grammar.unaryTargets.length + 1)) ∧
    ∀ closing, Closing.Run grammar ⟨cell, [offered]⟩ closing →
      Closing.Run grammar closing ⟨(cell.add grammar offered).value.1, []⟩ ∧
      ∀ stored pending, closing.agenda = stored :: pending →
        closing.cell.judge stored = .improves →
          ∃ labels, grammar.Ascent offered labels stored ∧
            labels.length ≤ grammar.unaryTargets.dedup.length := by
  refine ⟨fun states turns start steps => ?_, fun closing run => ⟨?_, ?_⟩⟩
  · have bounded := Closing.turns_le_cost steps
    rw [start] at bounded
    exact bounded.trans (Closing.cost_singleton_le grammar cell offered)
  · rw [value_add]
    exact run.to_end (Closing.run_close grammar cell [offered])
  · intro stored pending next improves
    exact Closing.ascent_of_improves run (next ▸ List.mem_cons_self) improves

end ChartParse
