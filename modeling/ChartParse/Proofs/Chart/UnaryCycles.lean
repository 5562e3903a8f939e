import ChartParse.Proofs.Chart.Recognition

/-!
Unary cycles in what a chart holds.

What is tested when a derivation is stored is whether its label comes back among the unary nodes
under it. The labels of these are therefore distinct, and so are all labels of a run that ends in a
lexical rule. A binary node at the foot of a run is no unary node: its label may come back above it,
at most once, and then going round the cycle has raised its score. Where no cycle gains, it does not
come back (`nodup_spine_of_cyclesNeverGain`).
-/

namespace ChartParse

variable {σ : Type}

/-! ### Labels along a run -/

namespace Derivation

theorem nodup_unaryLabels_iff (tree : Derivation σ) :
    tree.unaryLabels.Nodup ↔ ∀ node ∈ tree.spine, node.repeatsLabel = false := by
  induction tree with
  | leaf => simp [unaryLabels, spine]
  | binary => simp [unaryLabels, spine, repeatsLabel]
  | unary label score child ih =>
    rw [unaryLabels, List.nodup_cons, ih, spine, List.forall_mem_cons]
    simp [repeatsLabel]

/-- Only the label of a binary node at the foot can spoil the distinctness of all labels. -/
theorem nodup_spine_iff (tree : Derivation σ) :
    (tree.spine.map label).Nodup ↔ tree.unaryLabels.Nodup ∧
      ∀ foot ∈ tree.spine, foot.isUnary = false → foot.label ∉ tree.unaryLabels := by
  induction tree with
  | leaf => simp [unaryLabels, spine]
  | binary => simp [unaryLabels, spine]
  | unary top score child ih =>
    -- A label below the top stands on a unary node or at the foot.
    have below : top ∈ child.spine.map label ↔ top ∈ child.unaryLabels ∨
        ∃ foot ∈ child.spine, foot.isUnary = false ∧ foot.label = top := by
      rw [mem_unaryLabels, List.mem_map]
      constructor
      · rintro ⟨node, member, same⟩
        cases kind : node.isUnary with
        | true => exact Or.inl ⟨node, member, kind, same⟩
        | false => exact Or.inr ⟨node, member, kind, same⟩
      · rintro (⟨node, member, _, same⟩ | ⟨node, member, _, same⟩)
        all_goals exact ⟨node, member, same⟩
    rw [spine, List.map_cons, List.nodup_cons, ih, unaryLabels, List.nodup_cons, label_unary, below,
      List.forall_mem_cons]
    constructor
    · rintro ⟨fresh, distinct, feet⟩
      refine ⟨⟨fun member => fresh (Or.inl member), distinct⟩, by simp [isUnary], ?_⟩
      intro foot member kind repeated
      rcases List.mem_cons.1 repeated with same | lower
      · exact fresh (Or.inr ⟨foot, member, kind, same⟩)
      · exact feet foot member kind lower
    · rintro ⟨⟨fresh, distinct⟩, _, feet⟩
      refine ⟨?_, distinct, fun foot member kind lower =>
        feet foot member kind (List.mem_cons_of_mem _ lower)⟩
      rintro (member | ⟨foot, member, kind, same⟩)
      · exact fresh member
      · exact feet foot member kind (same ▸ List.mem_cons_self)

/-- The foot of a run stands below each of its unary nodes. -/
theorem foot_mem_beneath {tree foot node : Derivation σ} (atFoot : foot ∈ tree.spine)
    (plain : foot.isUnary = false) (member : node ∈ tree.spine) (unary : node.isUnary = true) :
    foot ∈ node.beneath := by
  induction tree with
  | leaf => cases member
  | binary =>
    obtain rfl : node = _ := List.mem_singleton.1 member
    cases unary
  | unary top score child ih =>
    have lower : foot ∈ child.spine := by
      rcases List.mem_cons.1 atFoot with rfl | lower
      · cases plain
      · exact lower
    rcases List.mem_cons.1 member with rfl | deeper
    · exact lower
    · exact ih lower deeper

end Derivation

theorem Grammar.Derives.of_mem_spine [Zero σ] [Add σ] {grammar : Grammar σ}
    {tree node : Derivation σ} {words : List String} (derives : grammar.Derives tree words)
    (member : node ∈ tree.spine) : grammar.Derives node words := by
  induction derives with
  | lexical inRules kind expands =>
    obtain rfl : node = _ := by simpa [Derivation.spine] using member
    exact .lexical inRules kind expands
  | unary inRules kind expands below ih =>
    rcases List.mem_cons.1 member with rfl | lower
    · exact .unary inRules kind expands below
    · exact ih lower
  | binary inRules expands onLeft onRight =>
    obtain rfl : node = _ := List.mem_singleton.1 member
    exact .binary inRules expands onLeft onRight

/-! ### What was true at the time of storing -/

namespace Cell

variable [LT σ]

/-- The derivation can have been stored after all nodes under it: no unary node under it has its
label, and if another has, what was stored under that label since has gained step by step. -/
structure Climbing (tree : Derivation σ) : Prop where
  simple : tree.repeatsLabel = false
  gains : ∀ lower ∈ tree.beneath, lower.label = tree.label →
    Relation.TransGen (· < ·) lower.score tree.score

-- Nothing is known about the order, not even that it is transitive.
theorem rising_reflTransGen : Rising (Relation.ReflTransGen (· < · : σ → σ → Prop)) where
  refl _ := .refl
  trans := .trans
  of_lt := .single

variable [DecidableLT σ]

theorem climbing_of_improves {cell : Cell σ} {stored : Derivation σ}
    (improves : cell.judge stored = .improves)
    (covered : ∀ node ∈ stored.beneath, cell.Covers (Relation.ReflTransGen (· < ·)) node) :
    Climbing stored where
  simple := repeatsLabel_of_judge improves
  gains := by
    intro lower beneath same
    obtain ⟨held, member, label, above⟩ := covered lower beneath
    -- The cell still holds what replaced the lower node, and the new derivation beats that.
    have gains : held.score < stored.score := lt_of_improves improves member (label.trans same)
    exact Relation.TransGen.tail' above gains

theorem offering_climbing [Add σ] (grammar : Grammar σ) :
    Closing.Offering grammar (fun cell tree =>
      (∀ node ∈ tree.beneath, cell.Covers (Relation.ReflTransGen (· < ·)) node) ∧
        ∀ node ∈ tree.beneath, Climbing node) where
  lasts improves offered :=
    ⟨(offering_covers_beneath rising_reflTransGen grammar).lasts improves offered.1, offered.2⟩
  extend := by
    rintro cell stored improves ⟨covered, climbing⟩ extension above
    refine ⟨(offering_covers_beneath rising_reflTransGen grammar).extend improves covered
      extension above, ?_⟩
    intro node lower
    obtain ⟨rule, _, _, _, rfl⟩ := mem_extensions_iff.1 above
    rcases Derivation.mem_spine lower with rfl | deeper
    · exact climbing_of_improves improves covered
    · exact climbing node deeper

/-- Every unary node of a closed cell, and every one under these, was fit to be stored. -/
theorem climbing_close [Add σ] (grammar : Grammar σ) {offers : List (Derivation σ)}
    (bare : ∀ offer ∈ offers, offer.beneath = []) :
    ∀ tree ∈ (close grammar .empty offers).value.entries, ∀ node ∈ tree.spine, Climbing node := by
  refine (offering_climbing grammar).forall_mem_close ?_ ?_
  · rintro cell stored improves ⟨covered, climbing⟩ node onSpine
    rcases Derivation.mem_spine onSpine with rfl | lower
    · exact climbing_of_improves improves covered
    · exact climbing node lower
  · intro offer offered
    rw [bare offer offered]
    exact ⟨List.forall_mem_nil _, List.forall_mem_nil _⟩

end Cell

namespace Chart

variable [Zero σ] [Add σ] [LT σ] [DecidableLT σ]

theorem climbing_of_mem_cellOf {grammar : Grammar σ} {beam : Option Int} {words : List String}
    {tree : Derivation σ} (member : tree ∈ (cellOf grammar beam words).entries) :
    ∀ node ∈ tree.spine, Cell.Climbing node := by
  rw [cellOf_eq grammar beam (ne_nil_of_mem_cellOf member)] at member
  have bare (offer : Derivation σ) (offered : offer ∈ constituents grammar beam words) :=
    (mem_constituents_iff.1 offered).beneath_eq_nil
  exact Cell.climbing_close grammar bare tree (mem_of_mem_limited member)

/-- A label that comes back from the foot has gone round a cycle of unary rules, and up. -/
theorem exists_cycle_of_mem_cellOf {grammar : Grammar σ} {beam : Option Int}
    {words : List String} {tree foot node : Derivation σ}
    (stored : tree ∈ (cellOf grammar beam words).entries) (atFoot : foot ∈ tree.spine)
    (plain : foot.isUnary = false) (member : node ∈ tree.spine) (unary : node.isUnary = true)
    (same : node.label = foot.label) :
    ∃ weights, weights ≠ [] ∧ grammar.UnaryPath foot.label weights foot.label ∧
      node.score = Grammar.climb foot.score weights ∧
      Relation.TransGen (· < ·) foot.score node.score := by
  have lower : foot ∈ node.beneath := Derivation.foot_mem_beneath atFoot plain member unary
  have derives := (derives_of_mem_cellOf stored).of_mem_spine member
  obtain ⟨weights, nonempty, path, climbed⟩ := derives.climbs _ lower
  have climbing := climbing_of_mem_cellOf stored node member
  rw [same] at path
  exact ⟨weights, nonempty, path, climbed, climbing.gains foot lower same.symm⟩

theorem unaryLabels_nodup_of_mem_cellOf {grammar : Grammar σ} {beam : Option Int}
    {words : List String} {tree : Derivation σ}
    (stored : tree ∈ (cellOf grammar beam words).entries) : tree.unaryLabels.Nodup :=
  tree.nodup_unaryLabels_iff.2 fun node member => (climbing_of_mem_cellOf stored node member).simple

/-- The labels along the unary nodes of whatever a chart holds are distinct, with any beam. All
labels over the same words are distinct, the one at the foot included, unless the foot is binary
and its label comes back above it. Where it does, a cycle of unary rules leads back to it, and each
derivation of the label that was stored on the way scored more than the one before. -/
theorem unaryLabels_nodup_of_stored (grammar : Grammar σ) (beam : Option Int)
    (words : List String) {first last : Nat} {cell : Cell σ}
    (asked : (fill grammar beam words).value.cell first last = .ok cell) {tree : Derivation σ}
    (stored : tree ∈ cell.entries) :
    tree.unaryLabels.Nodup ∧
    ((tree.spine.map Derivation.label).Nodup ↔
      ∀ foot ∈ tree.spine, foot.isUnary = false → foot.label ∉ tree.unaryLabels) ∧
    ∀ foot ∈ tree.spine, foot.isUnary = false →
      ∀ node ∈ tree.spine, node.isUnary = true → node.label = foot.label →
        ∃ weights, weights ≠ [] ∧ grammar.UnaryPath foot.label weights foot.label ∧
          node.score = Grammar.climb foot.score weights ∧
          Relation.TransGen (· < ·) foot.score node.score := by
  obtain ⟨_, rfl⟩ := cell_fill_eq_ok_iff.1 asked
  have distinct := unaryLabels_nodup_of_mem_cellOf stored
  refine ⟨distinct, ?_, ?_⟩
  · rw [tree.nodup_spine_iff]
    exact and_iff_right distinct
  · intro foot atFoot plain node member unary same
    exact exists_cycle_of_mem_cellOf stored atFoot plain member unary same

/-- Over `b c` the label `A` comes back above a binary node. Over a word it could not. -/
theorem repeats_of_gainful :
    let foot : Derivation Int :=
      .binary "A" 0 (.unary "B" 0 (.leaf "b" 0)) (.unary "C" 0 (.leaf "c" 0))
    let tree : Derivation Int := .unary "A" 1 (.unary "D" 0 foot)
    ∃ cell, (fill gainful none ["b", "c"]).value.cell 0 1 = .ok cell ∧ tree ∈ cell.entries ∧
      tree.unaryLabels.Nodup ∧ ¬ (tree.spine.map Derivation.label).Nodup ∧
      Relation.TransGen (· < ·) foot.score tree.score := by
  intro foot tree
  have asked : (fill gainful none ["b", "c"]).value.cell 0 1 =
      .ok (cellOf gainful none ["b", "c"]) :=
    cell_fill_eq_ok_iff.2 ⟨by decide, rfl⟩
  have stored : tree ∈ (cellOf gainful none ["b", "c"]).entries := by
    have entries : (cellOf gainful none ["b", "c"]).entries =
        [tree, .unary "D" 0 foot] := by cbv
    rw [entries]
    exact List.mem_cons_self
  obtain ⟨distinct, _, gains⟩ :=
    unaryLabels_nodup_of_stored gainful none ["b", "c"] asked stored
  obtain ⟨_, _, _, _, gained⟩ := gains foot (by decide) rfl tree (by decide) rfl rfl
  exact ⟨_, asked, stored, distinct, by decide, gained⟩

/-- Where no cycle gains, no label over the same words comes back at all. -/
theorem nodup_spine_of_cyclesNeverGain {σ : Type} [Zero σ] [Add σ] [Preorder σ] [DecidableLT σ]
    {grammar : Grammar σ} (cycles : grammar.CyclesNeverGain) {beam : Option Int}
    {words : List String} {tree : Derivation σ}
    (stored : tree ∈ (cellOf grammar beam words).entries) :
    (tree.spine.map Derivation.label).Nodup := by
  rw [tree.nodup_spine_iff]
  refine ⟨unaryLabels_nodup_of_mem_cellOf stored, ?_⟩
  intro foot atFoot plain repeated
  obtain ⟨node, member, unary, same⟩ := Derivation.mem_unaryLabels.1 repeated
  obtain ⟨weights, _, path, climbed, gains⟩ :=
    exists_cycle_of_mem_cellOf stored atFoot plain member unary same
  have lost : node.score ≤ foot.score := climbed ▸ cycles _ _ path foot.score
  have gained : foot.score < node.score := by
    rwa [Relation.transGen_eq_self] at gains
  exact absurd gained (not_lt_of_ge lost)

end Chart

end ChartParse
