import ChartParse.Cell.Basic
import ChartParse.Grammar.Basic
import ChartParse.Work.Event

/-!
Adding derivations to a cell, and closing it under the unary rules.

A derivation is stored if its label is new or the stored one scores less. Whatever is stored is
extended by the unary rules over its label, and the extensions are offered to the cell in turn,
depth first and in the order of the rules. A derivation that would be stored but repeats its label
along its unary nodes is refused: it has gone round a cycle of unary rules that gains on each trip.

The closure ends whatever the weights are. Each refusal takes one derivation off the agenda. A
stored derivation puts its extensions there, but each has one label less to go to than the
derivation it extends (`headroom`).
-/

namespace ChartParse.Cell

variable {σ : Type}

/-- What a cell makes of an offered derivation. -/
inductive Verdict where
  | improves
  | notBetter
  | cycle
  deriving DecidableEq, Repr

/-- Whether a cell already holds a derivation that the offered one does not beat. -/
def rivals [LT σ] [DecidableLT σ] (cell : Cell σ) (offered : Derivation σ) : Bool :=
  (cell.get? offered.label).any fun current => !decide (current.score < offered.score)

def judge [LT σ] [DecidableLT σ] (cell : Cell σ) (offered : Derivation σ) : Verdict :=
  -- Only a derivation that would win is tested for a cycle.
  if cell.rivals offered then .notBetter
  else if offered.repeatsLabel then .cycle
  else .improves

def extensions [Add σ] (grammar : Grammar σ) (stored : Derivation σ) : List (Derivation σ) :=
  (grammar.unaryRules stored.label).map fun rule =>
    .unary rule.lhs (stored.score + rule.weight) stored

/-! ### Why closing ends -/

/-- A bound on the unary rules that can still be stored one on top of the other above a
derivation: the targets of unary rules that its run of unary nodes has not met. -/
def headroom (targets : List String) : Derivation σ → Nat
  | .unary label _ child =>
    if label ∈ targets then targets.countP (· ∉ child.unaryLabels) else targets.length + 1
  | _ => targets.length + 1

theorem headroom_unary_le (targets : List String) {label : String} (score : σ)
    (child : Derivation σ) (member : label ∈ targets) :
    headroom targets (.unary label score child) ≤ targets.length := by
  rw [headroom, if_pos member]
  exact List.countP_le_length

theorem countP_lt_countP {targets : List String} {met more : List String} {label : String}
    (member : label ∈ targets) (fresh : label ∉ met) (added : ∀ x, x ∈ more ↔ x = label ∨ x ∈ met) :
    targets.countP (· ∉ more) < targets.countP (· ∉ met) := by
  induction targets with
  | nil => simp at member
  | cons target rest ih =>
    have weaker : rest.countP (· ∉ more) ≤ rest.countP (· ∉ met) := by
      apply List.countP_mono_left
      intro x _ unmet
      simp_all
    by_cases same : target = label
    · -- The label itself is counted on the right only, and elsewhere the left is no larger.
      subst same
      have inMore : target ∈ more := (added target).2 (Or.inl rfl)
      simp only [List.countP_cons, inMore, fresh, not_true_eq_false, not_false_eq_true,
        decide_true, decide_false, Bool.false_eq_true, if_true, if_false]
      omega
    · -- Any other target is counted on both sides or on neither.
      have later : label ∈ rest := by
        rcases List.mem_cons.1 member with equal | later
        · exact absurd equal.symm same
        · exact later
      have strict := ih later
      have equal : (target ∈ more) = (target ∈ met) := by simp [added, same]
      simp only [List.countP_cons, equal]
      omega

/-- An extension of a derivation that does not repeat its label has less headroom. -/
theorem headroom_extension_lt {targets : List String} {stored : Derivation σ} {label : String}
    (score : σ) (member : label ∈ targets) (simple : stored.repeatsLabel = false) :
    headroom targets (.unary label score stored) < headroom targets stored := by
  have bound := headroom_unary_le targets score stored member
  -- Where no unary rule leads to the label below, the room there is one more than any bound.
  cases stored with
  | leaf word value => simp only [headroom] at *; omega
  | binary top value left right => simp only [headroom] at *; omega
  | unary top value child =>
    by_cases known : top ∈ targets
    · have fresh : top ∉ child.unaryLabels := by simpa [Derivation.repeatsLabel] using simple
      rw [headroom, headroom, if_pos member, if_pos known]
      exact countP_lt_countP known fresh fun x => by simp [Derivation.unaryLabels]
    · rw [show headroom targets (.unary top value child) = targets.length + 1 by
        rw [headroom, if_neg known]]
      omega

theorem headroom_lt_of_mem_extensions [Add σ] {grammar : Grammar σ} {stored offered : Derivation σ}
    (member : offered ∈ extensions grammar stored) (simple : stored.repeatsLabel = false) :
    headroom grammar.unaryTargets offered < headroom grammar.unaryTargets stored := by
  obtain ⟨rule, found, rfl⟩ := List.mem_map.1 member
  exact headroom_extension_lt _ (Grammar.mem_unaryTargets found) simple

def offerCost (targets : List String) (offered : Derivation σ) : Nat :=
  Nat.pow (targets.length + 1) (headroom targets offered)

def agendaCost (targets : List String) : List (Derivation σ) → Nat
  | [] => 0
  | offered :: pending => offerCost targets offered + agendaCost targets pending

theorem offerCost_pos (targets : List String) (offered : Derivation σ) :
    0 < offerCost targets offered :=
  Nat.pow_pos (by omega)

theorem agendaCost_append (targets : List String) (first second : List (Derivation σ)) :
    agendaCost targets (first ++ second) = agendaCost targets first + agendaCost targets second := by
  induction first with
  | nil => simp [agendaCost]
  | cons offered rest ih => simp [agendaCost, ih, Nat.add_assoc]

theorem agendaCost_le (targets : List String) (pending : List (Derivation σ)) (bound : Nat)
    (low : ∀ offered ∈ pending, offerCost targets offered ≤ bound) :
    agendaCost targets pending ≤ pending.length * bound := by
  induction pending with
  | nil => simp [agendaCost]
  | cons offered rest ih =>
    have first := low offered List.mem_cons_self
    have later := ih fun other member => low other (List.mem_cons_of_mem offered member)
    rw [agendaCost, List.length_cons, Nat.succ_mul]
    omega

theorem agendaCost_skip (targets : List String) (offered : Derivation σ)
    (pending : List (Derivation σ)) :
    agendaCost targets pending < agendaCost targets (offered :: pending) := by
  have := offerCost_pos targets offered
  rw [agendaCost]
  omega

/-- The extensions of a derivation cost less than itself: there are at most as many as targets, and
each has less headroom. -/
theorem agendaCost_extensions [Add σ] (grammar : Grammar σ) {stored : Derivation σ}
    (simple : stored.repeatsLabel = false) :
    agendaCost grammar.unaryTargets (extensions grammar stored) <
      offerCost grammar.unaryTargets stored := by
  have few : (extensions grammar stored).length ≤ grammar.unaryTargets.length := by
    rw [extensions, List.length_map]
    exact grammar.length_unaryRules_le stored.label
  have lower (offered : Derivation σ) (member : offered ∈ extensions grammar stored) :=
    headroom_lt_of_mem_extensions member simple
  cases room : headroom grammar.unaryTargets stored with
  | zero =>
    -- No extension has less headroom than none.
    have none : extensions grammar stored = [] := by
      apply List.eq_nil_iff_forall_not_mem.2
      intro offered member
      have := lower offered member
      omega
    rw [none]
    exact offerCost_pos grammar.unaryTargets stored
  | succ less =>
    have cost := agendaCost_le grammar.unaryTargets (extensions grammar stored)
      (Nat.pow (grammar.unaryTargets.length + 1) less) fun offered member => by
        have := lower offered member
        exact Nat.pow_le_pow_right (by omega) (by omega)
    have positive : 0 < Nat.pow (grammar.unaryTargets.length + 1) less := Nat.pow_pos (by omega)
    have product := Nat.mul_le_mul_right (Nat.pow (grammar.unaryTargets.length + 1) less) few
    have whole : offerCost grammar.unaryTargets stored =
        grammar.unaryTargets.length * Nat.pow (grammar.unaryTargets.length + 1) less +
          Nat.pow (grammar.unaryTargets.length + 1) less := by
      rw [offerCost, room]
      exact Nat.pow_succ'.trans (Nat.succ_mul _ _)
    omega

theorem agendaCost_extend [Add σ] (grammar : Grammar σ) (stored : Derivation σ)
    (pending : List (Derivation σ)) (simple : stored.repeatsLabel = false) :
    agendaCost grammar.unaryTargets (extensions grammar stored ++ pending) <
      agendaCost grammar.unaryTargets (stored :: pending) := by
  rw [agendaCost_append, agendaCost]
  exact Nat.add_lt_add_right (agendaCost_extensions grammar simple) _

variable [LT σ] [DecidableLT σ]

theorem rivals_iff {cell : Cell σ} {offered : Derivation σ} :
    cell.rivals offered = true ↔
      ∃ current, cell.get? offered.label = some current ∧ ¬ current.score < offered.score := by
  simp [rivals, Option.any_eq_true]

theorem judge_eq_notBetter_iff {cell : Cell σ} {offered : Derivation σ} :
    cell.judge offered = .notBetter ↔ cell.rivals offered = true := by
  unfold judge
  cases cell.rivals offered <;> cases offered.repeatsLabel <;> simp

theorem judge_eq_cycle_iff {cell : Cell σ} {offered : Derivation σ} :
    cell.judge offered = .cycle ↔
      cell.rivals offered = false ∧ offered.repeatsLabel = true := by
  unfold judge
  cases cell.rivals offered <;> cases offered.repeatsLabel <;> simp

theorem judge_eq_improves_iff {cell : Cell σ} {offered : Derivation σ} :
    cell.judge offered = .improves ↔
      cell.rivals offered = false ∧ offered.repeatsLabel = false := by
  unfold judge
  cases cell.rivals offered <;> cases offered.repeatsLabel <;> simp

theorem repeatsLabel_of_judge {cell : Cell σ} {offered : Derivation σ}
    (improves : cell.judge offered = .improves) : offered.repeatsLabel = false :=
  (judge_eq_improves_iff.1 improves).2

/-! ### Closing -/

/-- Offers the derivations of an agenda to a cell, first to last; the extensions of one that is
stored go before the rest. -/
def close [Add σ] (grammar : Grammar σ) (cell : Cell σ) (agenda : List (Derivation σ)) :
    Traced (Event σ) (Cell σ) :=
  match agenda with
  | [] => pure cell
  | offered :: pending =>
    match _ : cell.judge offered with
    | .notBetter => close grammar cell pending
    | .cycle => do
      Traced.record (.cycle offered)
      close grammar cell pending
    | .improves => do
      Traced.record (.extended offered (extensions grammar offered).length)
      close grammar (cell.store offered) (extensions grammar offered ++ pending)
termination_by agendaCost grammar.unaryTargets agenda
decreasing_by
  · exact agendaCost_skip _ _ _
  · exact agendaCost_skip _ _ _
  · exact agendaCost_extend grammar offered pending (repeatsLabel_of_judge ‹_›)

section Steps

variable [Add σ] (grammar : Grammar σ) (cell : Cell σ)

@[simp] theorem close_nil : close grammar cell [] = pure cell := by
  rw [close]

theorem close_cons_of_notBetter {offered : Derivation σ} (pending : List (Derivation σ))
    (verdict : cell.judge offered = .notBetter) :
    close grammar cell (offered :: pending) = close grammar cell pending := by
  rw [close]
  split <;> simp_all

theorem close_cons_of_cycle {offered : Derivation σ} (pending : List (Derivation σ))
    (verdict : cell.judge offered = .cycle) :
    close grammar cell (offered :: pending) =
      (do Traced.record (.cycle offered); close grammar cell pending) := by
  rw [close]
  split <;> simp_all

theorem close_cons_of_improves {offered : Derivation σ} (pending : List (Derivation σ))
    (verdict : cell.judge offered = .improves) :
    close grammar cell (offered :: pending) =
      (do
        Traced.record (.extended offered (extensions grammar offered).length)
        close grammar (cell.store offered) (extensions grammar offered ++ pending)) := by
  rw [close]
  split <;> simp_all

theorem close_append (agenda later : List (Derivation σ)) :
    close grammar cell (agenda ++ later) =
      (do let closed ← close grammar cell agenda; close grammar closed later) := by
  fun_induction close grammar cell agenda with
  | case1 cell => simp
  | case2 cell offered pending _ ih =>
    rw [List.cons_append, close_cons_of_notBetter grammar cell _ ‹_›, ih]
  | case3 cell offered pending _ ih =>
    rw [List.cons_append, close_cons_of_cycle grammar cell _ ‹_›, ih, bind_assoc]
  | case4 cell offered pending _ ih =>
    rw [List.cons_append, close_cons_of_improves grammar cell _ ‹_›, ← List.append_assoc, ih,
      bind_assoc]

end Steps

/-- Offers a derivation to a cell and closes the cell under the unary rules if it is stored.
Whether it was comes with the cell. -/
def add [Add σ] (grammar : Grammar σ) (cell : Cell σ) (offered : Derivation σ) :
    Traced (Event σ) (Cell σ × Bool) :=
  match cell.judge offered with
  | .notBetter => pure (cell, false)
  | .cycle => do
    Traced.record (.cycle offered)
    return (cell, false)
  | .improves => do
    -- The cell has not changed since, so the first thing to happen is that it is stored.
    let closed ← close grammar cell [offered]
    return (closed, true)

end ChartParse.Cell
