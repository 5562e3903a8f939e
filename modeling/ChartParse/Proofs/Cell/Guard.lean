import ChartParse.Proofs.Cell.Covering
import Mathlib

/-!
The guard against cycles of unary rules, and closing without it.

`Cell.closeUnder` closes a cell with any guard in the place of the one that refuses derivations which
repeat their labels. With that one it is `Cell.close`. With none, nothing ensures that closing ends,
so `closeUnder` is a partial function, with no value where it does not.

Main statements: where derivations lose as they go round cycles of unary rules, those that stand on
what the cell covers are never refused as cycles (`judge_ne_cycle`), so closing without a guard ends,
with the same cell (`closeUnder_never`), and no refusal is on record
(`cycle_notMem_work_of_supports`).
-/

namespace ChartParse.Cell

variable {σ : Type}

section AnyGuard

variable [Add σ] [LT σ] [DecidableLT σ]

/-- What closing with a guard does next. With nothing left on the agenda it ends. Else the first
derivation is taken off, and stored and extended if it passes the test of its score and the guard
does not hold of it. -/
def stepUnder (guard : Derivation σ → Bool) (grammar : Grammar σ) :
    Closing σ → Cell σ ⊕ Closing σ
  | ⟨cell, []⟩ => .inl cell
  | ⟨cell, offered :: pending⟩ =>
    .inr <| if cell.rivals offered || guard offered then ⟨cell, pending⟩
      else ⟨cell.store offered, extensions grammar offered ++ pending⟩

/-- The cell that closing with a guard ends with, if it ends. -/
def closeUnder (guard : Derivation σ → Bool) (grammar : Grammar σ) (cell : Cell σ)
    (agenda : List (Derivation σ)) : Part (Cell σ) :=
  PFun.fix (fun closing => Part.some (stepUnder guard grammar closing)) ⟨cell, agenda⟩

section Steps

variable (guard : Derivation σ → Bool) (grammar : Grammar σ) (cell : Cell σ)

theorem closeUnder_nil : closeUnder guard grammar cell [] = Part.some cell :=
  Part.eq_some_iff.2 (PFun.fix_stop (Part.mem_some _))

theorem closeUnder_of_step {agenda : List (Derivation σ)} {next : Closing σ}
    (step : stepUnder guard grammar ⟨cell, agenda⟩ = .inr next) :
    closeUnder guard grammar cell agenda = closeUnder guard grammar next.cell next.agenda :=
  PFun.fix_fwd_eq (Part.mem_some_iff.2 step.symm)

theorem closeUnder_cons (offered : Derivation σ) (pending : List (Derivation σ)) :
    closeUnder guard grammar cell (offered :: pending) =
      if cell.rivals offered || guard offered then closeUnder guard grammar cell pending
      else closeUnder guard grammar (cell.store offered)
        (extensions grammar offered ++ pending) := by
  rw [closeUnder_of_step guard grammar cell rfl]
  split <;> rfl

end Steps

/-- Closing with a guard is closing if, of whatever is offered and passes the test of its score, the
guard holds exactly where a label is repeated. -/
theorem closeUnder_eq {guard : Derivation σ → Bool} {grammar : Grammar σ}
    {offers : Cell σ → Derivation σ → Prop} (offering : Closing.Offering grammar offers)
    (decides : ∀ cell tree, offers cell tree → cell.rivals tree = false →
      guard tree = tree.repeatsLabel)
    (cell : Cell σ) {agenda : List (Derivation σ)} (pending : ∀ tree ∈ agenda, offers cell tree) :
    closeUnder guard grammar cell agenda = Part.some (cell.close grammar agenda).value := by
  fun_induction close grammar cell agenda with
  | case1 cell => exact closeUnder_nil guard grammar cell
  | case2 cell offered rest verdict ih =>
    have rival := judge_eq_notBetter_iff.1 verdict
    rw [closeUnder_cons, rival, Bool.true_or, if_pos rfl]
    exact ih (List.forall_mem_cons.1 pending).2
  | case3 cell offered rest verdict ih =>
    obtain ⟨first, later⟩ := List.forall_mem_cons.1 pending
    obtain ⟨rival, repeated⟩ := judge_eq_cycle_iff.1 verdict
    rw [closeUnder_cons, decides cell offered first rival, repeated, Bool.or_true, if_pos rfl]
    exact ih later
  | case4 cell offered rest verdict ih =>
    have first := (List.forall_mem_cons.1 pending).1
    obtain ⟨rival, simple⟩ := judge_eq_improves_iff.1 verdict
    rw [closeUnder_cons, decides cell offered first rival, rival, simple, Bool.or_self,
      if_neg Bool.false_ne_true]
    exact ih (offering.step (.store verdict) pending)

/-- Closing is closing with the guard that refuses what repeats its label. -/
theorem closeUnder_repeatsLabel (grammar : Grammar σ) (cell : Cell σ)
    (agenda : List (Derivation σ)) :
    closeUnder Derivation.repeatsLabel grammar cell agenda =
      Part.some (cell.close grammar agenda).value := by
  have anything : Closing.Offering grammar fun _ _ => True := ⟨fun _ _ => trivial, fun _ _ _ _ => trivial⟩
  exact closeUnder_eq anything (fun _ _ _ _ => rfl) cell fun _ _ => trivial

/-- Closing refuses nothing as a cycle if nothing that is offered can be refused so. -/
theorem cycle_notMem_work_close {grammar : Grammar σ} {offers : Cell σ → Derivation σ → Prop}
    (offering : Closing.Offering grammar offers)
    (acyclic : ∀ cell tree, offers cell tree → cell.judge tree ≠ .cycle)
    (cell : Cell σ) {agenda : List (Derivation σ)} (pending : ∀ tree ∈ agenda, offers cell tree)
    (refused : Derivation σ) : Event.cycle refused ∉ (cell.close grammar agenda).work := by
  fun_induction close grammar cell agenda with
  | case1 cell => simp
  | case2 cell offered rest verdict ih => exact ih (List.forall_mem_cons.1 pending).2
  | case3 cell offered rest verdict ih =>
    exact absurd verdict (acyclic cell offered (List.forall_mem_cons.1 pending).1)
  | case4 cell offered rest verdict ih =>
    have later := ih (offering.step (.store verdict) pending)
    simpa using later

end AnyGuard

end ChartParse.Cell

/-! ### Where no cycle gains -/

namespace ChartParse

variable {σ : Type} [Zero σ] [Add σ]

/-- A comparison of scores with which storing agrees, and under which a derivation that repeats its
label is worth no more than the node that had the label before. -/
structure Grammar.Sinking [LT σ] (grammar : Grammar σ) (below : σ → σ → Prop) : Prop
    extends Cell.Rising below where
  not_lt {low high : σ} : below low high → ¬ high < low
  of_repeated {tree : Derivation σ} {words : List String} : grammar.Derives tree words →
    ∀ node ∈ tree.beneath, node.label = tree.label → below tree.score node.score

theorem Grammar.sinking_le [LinearOrder σ] {grammar : Grammar σ}
    (cycles : grammar.CyclesNeverGain) : grammar.Sinking (· ≤ ·) where
  refl := le_refl
  trans := le_trans
  of_lt := le_of_lt
  not_lt := not_lt_of_ge
  of_repeated derives node lower same := by
    obtain ⟨weights, _, path, climbed⟩ := derives.climbs node lower
    rw [same] at path
    exact climbed ▸ cycles _ _ path node.score

namespace Cell

section Sinking

variable [LT σ] [DecidableLT σ] {grammar : Grammar σ} {below : σ → σ → Prop}

/-- What went round a cycle and sank fails the test of its score: the cell holds a derivation of the
label that is worth no less than the node where the cycle began. -/
theorem judge_ne_cycle (sinking : grammar.Sinking below) {cell : Cell σ} {tree : Derivation σ}
    (supported : cell.Supports grammar below tree) : cell.judge tree ≠ .cycle := by
  intro verdict
  obtain ⟨unrivalled, repeated⟩ := judge_eq_cycle_iff.1 verdict
  obtain ⟨⟨words, derives⟩, covered⟩ := supported
  obtain ⟨node, lower, label⟩ := Derivation.exists_of_repeatsLabel repeated
  obtain ⟨held, member, same, above⟩ := covered node lower
  have sunk := sinking.trans (sinking.of_repeated derives node lower label) above
  have found := get?_eq_some_iff.2 ⟨member, same.trans label⟩
  have rival : cell.rivals tree = true := rivals_iff.2 ⟨held, found, sinking.not_lt sunk⟩
  rw [unrivalled] at rival
  contradiction

theorem cycle_notMem_work_of_supports (sinking : grammar.Sinking below) (cell : Cell σ)
    {agenda : List (Derivation σ)} (pending : ∀ tree ∈ agenda, cell.Supports grammar below tree)
    (refused : Derivation σ) : Event.cycle refused ∉ (cell.close grammar agenda).work :=
  cycle_notMem_work_close (offering_supports sinking.toRising grammar)
    (fun _ _ supported => judge_ne_cycle sinking supported) cell pending refused

end Sinking

variable [LinearOrder σ] [AddLeftMono σ] [AddRightMono σ] {grammar : Grammar σ}

/-- Closing without a guard ends, with the same cell. -/
theorem closeUnder_never (cycles : grammar.CyclesNeverGain) (cell : Cell σ)
    {agenda : List (Derivation σ)} (pending : ∀ tree ∈ agenda, cell.Supports grammar (· ≤ ·) tree) :
    closeUnder (fun _ => false) grammar cell agenda = Part.some (cell.close grammar agenda).value := by
  refine closeUnder_eq (offering_supports (grammar.dominance_le cycles).toRising grammar) ?_ cell
    pending
  intro cell tree supported unrivalled
  by_contra repeated
  have verdict := judge_eq_cycle_iff.2 ⟨unrivalled, by simpa using Ne.symm repeated⟩
  exact judge_ne_cycle (Grammar.sinking_le cycles) supported verdict

end Cell

end ChartParse
