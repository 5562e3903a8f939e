import ChartParse.Proofs.Cell.Covering
import ChartParse.Proofs.Cell.Termination
import ChartParse.Proofs.Decimal.Order

/-!
What one call of `Cell.add` does to a cell.

A call may store many derivations, one on top of the other, and several under one label. Each time
a derivation is stored it comes behind the labels of the cell or takes the place of one that scores
less, so the whole call does no more (`improves_close`). Whatever it stores has been made by unary
rules from the derivation that was added (`exists_ascent_of_mem_close`).

Main statement: `add_only_improves`.
-/

namespace ChartParse

variable {σ : Type}

/-- Unary rules lead from what a tree is made from to its label. -/
theorem Grammar.Ascent.exists_unaryPath [Add σ] {grammar : Grammar σ} {base tree : Derivation σ}
    {labels : List String} (ascent : grammar.Ascent base labels tree) :
    ∃ weights, grammar.UnaryPath base.label weights tree.label := by
  induction ascent with
  | stay => exact ⟨[], .stay⟩
  | rise _ member kind expands ih =>
    obtain ⟨weights, path⟩ := ih
    exact ⟨weights ++ [_], .rise path member kind expands⟩

namespace Cell

variable [LT σ]

/-! ### Improving -/

/-- The labels of a cell stand as they did, with new ones behind them, and under each of them stands
what stood there or what scores more. -/
structure Improves (before after : Cell σ) : Prop where
  labels : before.labels <+: after.labels
  gains : ∀ held ∈ before.entries, ∃ now ∈ after.entries,
    now.label = held.label ∧ (now = held ∨ held.score < now.score)

theorem Improves.refl (cell : Cell σ) : cell.Improves cell where
  labels := List.prefix_rfl
  gains held member := ⟨held, member, rfl, Or.inl rfl⟩

theorem Improves.trans [IsStrictOrder σ (· < ·)] {first second third : Cell σ}
    (earlier : first.Improves second) (later : second.Improves third) : first.Improves third where
  labels := earlier.labels.trans later.labels
  gains := by
    intro held member
    obtain ⟨between, there, label, change⟩ := earlier.gains held member
    obtain ⟨now, found, same, further⟩ := later.gains between there
    refine ⟨now, found, same.trans label, ?_⟩
    rcases change with rfl | gained
    · exact further
    · right
      rcases further with rfl | more
      · exact gained
      · exact trans_of (· < ·) gained more

variable [DecidableLT σ]

theorem improves_store {cell : Cell σ} {stored : Derivation σ}
    (improves : cell.judge stored = .improves) : cell.Improves (cell.store stored) where
  labels := by
    rw [labels_store]
    split
    · exact List.prefix_rfl
    · exact List.prefix_append _ _
  gains := by
    intro held member
    by_cases replaced : held.label = stored.label
    · have found : (cell.store stored).get? stored.label = some stored := by
        rw [get?_store, if_pos rfl]
      exact ⟨stored, mem_entries_of_get? found, replaced.symm,
        Or.inr (lt_of_improves improves member replaced)⟩
    · have kept : (cell.store stored).get? held.label = some held := by
        rw [get?_store, if_neg (Ne.symm replaced)]
        exact get?_eq_some_iff.2 ⟨member, rfl⟩
      exact ⟨held, mem_entries_of_get? kept, rfl, Or.inl rfl⟩

theorem rivals_eq_false_iff {cell : Cell σ} {offered : Derivation σ} :
    cell.rivals offered = false ↔
      ∀ held, cell.get? offered.label = some held → held.score < offered.score := by
  rw [← Bool.not_eq_true, rivals_iff]
  simp

variable [Add σ] {grammar : Grammar σ}

theorem improves_close [IsStrictOrder σ (· < ·)] (grammar : Grammar σ) (cell : Cell σ)
    (agenda : List (Derivation σ)) : cell.Improves (close grammar cell agenda).value := by
  refine (Closing.run_close grammar cell agenda).invariant
    (fun closing => cell.Improves closing.cell) ?_ (.refl cell)
  intro before after next sofar
  cases next with
  | refuse => exact sofar
  | store improves => exact sofar.trans (improves_store improves)

/-! ### What is new -/

/-- What a cell comes to hold when a derivation is added was made from that derivation by unary
rules. -/
theorem exists_ascent_of_mem_close {cell : Cell σ} {offered tree : Derivation σ}
    (member : tree ∈ (close grammar cell [offered]).value.entries) :
    tree ∈ cell.entries ∨ ∃ labels, grammar.Ascent offered labels tree := by
  have every : ∀ tree ∈ (close grammar cell [offered]).value.entries,
      tree ∈ cell.entries ∨ ∃ labels, grammar.Ascent offered labels tree := by
    refine (Closing.offering_ascent grammar offered).forall_mem_close_of_held ?_ ?_ ?_
    · rintro _ stored - ⟨labels, ascent, -⟩
      exact Or.inr ⟨labels, ascent⟩
    · exact fun held => Or.inl
    · exact List.forall_mem_singleton.2 ⟨[], .stay, List.nodup_nil⟩
  exact every tree member

variable [IsStrictOrder σ (· < ·)] {cell : Cell σ} {offered : Derivation σ}

/-- A label under which something else stands than before is new or scores more than before, and
unary rules lead to it. -/
theorem exists_of_get?_close_ne {label : String}
    (changed : (close grammar cell [offered]).value.get? label ≠ cell.get? label) :
    ∃ now, (close grammar cell [offered]).value.get? label = some now ∧
      (∀ held, cell.get? label = some held → held.score < now.score) ∧
      ∃ weights, grammar.UnaryPath offered.label weights label := by
  have improves := improves_close grammar cell [offered]
  cases found : (close grammar cell [offered]).value.get? label with
  | none =>
    -- A label that is gone would have been there before.
    have absent := get?_eq_none_iff.1 found
    have before := get?_eq_none_iff.2 fun held => absent (improves.labels.subset held)
    exact absurd (found.trans before.symm) changed
  | some now =>
    obtain ⟨member, rfl⟩ := get?_eq_some_iff.1 found
    have new : now ∉ cell.entries := fun held =>
      changed (found.trans (get?_eq_some_iff.2 ⟨held, rfl⟩).symm)
    refine ⟨now, rfl, fun held there => ?_, ?_⟩
    · obtain ⟨heldMember, label⟩ := get?_eq_some_iff.1 there
      obtain ⟨other, otherMember, same, gain⟩ := improves.gains held heldMember
      -- A cell holds one derivation of a label.
      obtain rfl : other = now := Option.some.inj
        ((get?_eq_some_iff.2 ⟨otherMember, same.trans label⟩).symm.trans found)
      exact gain.resolve_left fun equal => new (equal ▸ heldMember)
    · obtain ⟨labels, ascent⟩ := (exists_ascent_of_mem_close member).resolve_left new
      exact ascent.exists_unaryPath

variable (grammar) in
/-- What has been stored stays, unless what was made from it scores more. -/
theorem exists_of_improves (improves : cell.judge offered = .improves) :
    ∃ now, (close grammar cell [offered]).value.get? offered.label = some now ∧
      (now = offered ∨ offered.score < now.score) := by
  have found : (cell.store offered).get? offered.label = some offered := by
    rw [get?_store, if_pos rfl]
  have onward := improves_close grammar (cell.store offered) (extensions grammar offered ++ [])
  obtain ⟨now, member, label, gain⟩ := onward.gains offered (mem_entries_of_get? found)
  refine ⟨now, ?_, gain⟩
  rw [close_cons_of_improves grammar cell [] improves]
  exact get?_eq_some_iff.2 ⟨member, label⟩

end Cell

/-! ### Main result -/

/-- Adding a derivation to a cell stores it if it repeats no label and scores more than the one of
its label, if the cell holds one; otherwise the cell stays as it was. If it is stored, the labels of
the cell stay in their order and new ones come behind them. Only labels to which unary rules lead
from that of the added derivation are touched, and each of them is new or scores more than before.
Under the label of the added derivation stands that derivation itself or one that scores more; the
derivation itself if its score is no number. -/
theorem Cell.add_only_improves (grammar : Grammar Float) (cell : Cell Float)
    (offered : Derivation Float) :
    let added := (cell.add grammar offered).value
    (added.2 = true ↔ offered.repeatsLabel = false ∧
      ∀ held, cell.get? offered.label = some held → held.score < offered.score) ∧
    (added.2 = false → added.1 = cell) ∧
    (added.2 = true →
      cell.labels <+: added.1.labels ∧
      (∀ label, added.1.get? label ≠ cell.get? label →
        ∃ now, added.1.get? label = some now ∧
          (∀ held, cell.get? label = some held → held.score < now.score) ∧
          ∃ weights, grammar.UnaryPath offered.label weights label) ∧
      ∃ now, added.1.get? offered.label = some now ∧
        (now = offered ∨ offered.score < now.score) ∧
        (offered.score.isNaN = true → now = offered)) := by
  intro added
  have value : added.1 = (close grammar cell [offered]).value := value_add grammar cell offered
  have stored : added.2 = true ↔ cell.judge offered = .improves := by
    simp only [added, add]
    cases cell.judge offered <;> simp
  refine ⟨?_, fun refused => ?_, fun accepted => ?_⟩
  · rw [stored, judge_eq_improves_iff, rivals_eq_false_iff, and_comm]
  · have verdict : cell.judge offered ≠ .improves := by simp [← stored, refused]
    rw [value]
    cases judged : cell.judge offered with
    | improves => exact absurd judged verdict
    | notBetter => simp [close_cons_of_notBetter grammar cell [] judged]
    | cycle => simp [close_cons_of_cycle grammar cell [] judged]
  · rw [value]
    obtain ⟨now, found, gain⟩ := exists_of_improves grammar (stored.1 accepted)
    refine ⟨(improves_close grammar cell [offered]).labels,
      fun label changed => exists_of_get?_close_ne changed, now, found, gain, fun nan => ?_⟩
    exact gain.resolve_right (Decimal.not_lt_of_isNaN nan)

end ChartParse
