import ChartParse.Proofs.Chart.Pruning
import ChartParse.Proofs.Chart.Unguarded
import ChartParse.Proofs.Grammar.Provenance

/-!
Grammars whose weights are logarithms of probabilities.

No weight is above zero then, so no derivation is worth more than zero or than any of its parts, and
going round a cycle of unary rules never gains.

Of scores only that is asked which is true of doubles (`LossLaws`). Nothing is asked of scores that
are not at or below zero, and a NaN is not: it may be neither below itself nor beside anything.

Main statement: `losses_of_probabilities`.
-/

namespace ChartParse

variable {σ : Type}

/-! ### Losses -/

/-- What is asked of comparing scores, and of adding those at or below zero: sums grow with what is
added, and zero makes no difference. -/
structure LossLaws (σ : Type) [Zero σ] [Add σ] [LE σ] [LT σ] : Prop where
  zero : (0 : σ) ≤ 0
  refl {loss : σ} : loss ≤ 0 → loss ≤ loss
  trans {low middle high : σ} : low ≤ middle → middle ≤ high → low ≤ high
  of_lt {low high : σ} : low < high → low ≤ high
  not_lt {low high : σ} : low ≤ high → ¬ high < low
  add_le {low high more most : σ} : low ≤ high → high ≤ 0 → more ≤ most → most ≤ 0 →
    low + more ≤ high + most
  add_zero_le {loss : σ} : loss ≤ 0 → loss + 0 ≤ loss
  zero_add_le {loss : σ} : loss ≤ 0 → 0 + loss ≤ loss

/-- Where no score is left out, ordered addition with a zero is of this kind. -/
theorem LossLaws.of_ordered [AddZeroClass σ] [Preorder σ] [AddLeftMono σ] [AddRightMono σ] :
    LossLaws σ where
  zero := le_refl 0
  refl _ := le_refl _
  trans := le_trans
  of_lt := le_of_lt
  not_lt := not_lt_of_ge
  add_le below _ under _ := add_le_add below under
  add_zero_le {loss} _ := (add_zero loss).le
  zero_add_le {loss} _ := (zero_add loss).le

namespace LossLaws

variable [Zero σ] [Add σ] [LE σ] [LT σ] {first second : σ}

theorem add_le_left (laws : LossLaws σ) (firstLoss : first ≤ 0) (secondLoss : second ≤ 0) :
    first + second ≤ first :=
  laws.trans (laws.add_le (laws.refl firstLoss) firstLoss secondLoss laws.zero)
    (laws.add_zero_le firstLoss)

theorem add_le_right (laws : LossLaws σ) (firstLoss : first ≤ 0) (secondLoss : second ≤ 0) :
    first + second ≤ second :=
  laws.trans (laws.add_le firstLoss laws.zero (laws.refl secondLoss) secondLoss)
    (laws.zero_add_le secondLoss)

theorem add_le_zero (laws : LossLaws σ) (firstLoss : first ≤ 0) (secondLoss : second ≤ 0) :
    first + second ≤ 0 :=
  laws.trans (laws.add_le_left firstLoss secondLoss) firstLoss

end LossLaws

/-- The scale takes for probabilities only what is above zero and at most one, and the logarithm of
such a number is at or below zero. -/
structure Scale.Logarithmic [Zero σ] [One σ] [LE σ] [LT σ] (scale : Scale σ) : Prop where
  range {p : σ} : scale.isProbability p = true → 0 < p ∧ p ≤ 1
  log_le_zero {p : σ} : 0 < p → p ≤ 1 → scale.log p ≤ 0

theorem Scale.logarithmic_binary64 (log : ∀ p : Float, 0 < p → p ≤ 1 → p.log2 ≤ 0) :
    Scale.binary64.Logarithmic where
  range := by simp [Scale.binary64]
  log_le_zero {p} := log p

/-! ### Derivations that lose -/

/-- The nodes right under the top of a tree. -/
def Derivation.children : Derivation σ → List (Derivation σ)
  | leaf _ _ => []
  | unary _ _ child => [child]
  | binary _ _ left right => [left, right]

namespace Grammar

variable [Zero σ] [Add σ] [LE σ] [LT σ] {grammar : Grammar σ} {tree : Derivation σ}
  {words : List String}

omit [Add σ] in
theorem FromFiles.weight_le_zero [One σ] {scale : Scale σ} (logarithmic : scale.Logarithmic)
    (fromFiles : grammar.FromFiles scale true) : ∀ rule ∈ grammar.rules, rule.weight ≤ 0 := by
  intro rule member
  obtain ⟨p, checked, weight⟩ := (fromFiles rule member).exists_probability
  obtain ⟨positive, atMost⟩ := logarithmic.range checked
  rw [weight]
  exact logarithmic.log_le_zero positive atMost

namespace Derives

variable (laws : LossLaws σ) (losing : ∀ rule ∈ grammar.rules, rule.weight ≤ 0)
include laws losing

theorem score_le_zero (derives : grammar.Derives tree words) : tree.score ≤ 0 := by
  induction derives with
  | lexical member => exact laws.add_le_zero laws.zero (losing _ member)
  | unary member _ _ _ ih => exact laws.add_le_zero ih (losing _ member)
  | binary member _ _ _ ihLeft ihRight =>
    exact laws.add_le_zero (laws.add_le_zero ihLeft ihRight) (losing _ member)

theorem score_le_child (derives : grammar.Derives tree words) :
    ∀ child ∈ tree.children, tree.score ≤ child.score := by
  cases derives with
  | lexical member =>
    exact List.forall_mem_singleton.2 (laws.add_le_zero laws.zero (losing _ member))
  | unary member _ _ below =>
    exact List.forall_mem_singleton.2
      (laws.add_le_left (below.score_le_zero laws losing) (losing _ member))
  | binary member _ onLeft onRight =>
    have leftLoss := onLeft.score_le_zero laws losing
    have rightLoss := onRight.score_le_zero laws losing
    have weighed := laws.add_le_left (laws.add_le_zero leftLoss rightLoss) (losing _ member)
    simp only [Derivation.children, List.forall_mem_cons]
    exact ⟨laws.trans weighed (laws.add_le_left leftLoss rightLoss),
      laws.trans weighed (laws.add_le_right leftLoss rightLoss), List.forall_mem_nil _⟩

theorem score_le_of_mem_beneath (derives : grammar.Derives tree words) :
    ∀ node ∈ tree.beneath, tree.score ≤ node.score := by
  induction derives with
  | lexical | binary => exact List.forall_mem_nil _
  | unary member kind expands below ih =>
    intro node lower
    have loses := laws.add_le_left (below.score_le_zero laws losing) (losing _ member)
    rcases Derivation.mem_spine lower with rfl | deeper
    · exact loses
    · exact laws.trans loses (ih node deeper)

end Derives

/-- Under the order of the scores derivations lose as they go round cycles. Equality stands beside
the order because not every score need be at most itself. -/
theorem sinking_of_losing (laws : LossLaws σ) (losing : ∀ rule ∈ grammar.rules, rule.weight ≤ 0) :
    grammar.Sinking fun low high => low = high ∨ low ≤ high where
  refl _ := Or.inl rfl
  trans := by
    rintro low middle high (rfl | below) (rfl | above)
    · exact Or.inl rfl
    · exact Or.inr above
    · exact Or.inr below
    · exact Or.inr (laws.trans below above)
  of_lt below := Or.inr (laws.of_lt below)
  not_lt := by
    rintro low high (rfl | atMost) above
    · exact laws.not_lt (laws.of_lt above) above
    · exact laws.not_lt atMost above
  of_repeated derives node lower _ := Or.inr (derives.score_le_of_mem_beneath laws losing node lower)

end Grammar

/-! ### Main result -/

theorem cycle_notMem_counters {α : Type} {traced : Traced (Event σ) α}
    (none : refusals traced = []) : .cycle ∉ (Tally.ofWork traced.work).counters := by
  rw [Tally.mem_counters_iff]
  rintro ⟨event, recorded, amount, counts⟩
  cases event with
  | cycle refused =>
    have member := mem_refusals_iff.2 recorded
    rw [none] at member
    cases member
  | _ => cases counts

namespace Chart

/-- With a grammar whose rules were all read with probabilities, whatever a chart holds, with any
beam, is worth no more than zero and no more than any of its children, and no cycle is counted. -/
theorem losses_of_probabilities [Zero σ] [One σ] [Add σ] [LE σ] [LT σ] [DecidableLT σ]
    {scale : Scale σ} (laws : LossLaws σ) (logarithmic : scale.Logarithmic) {grammar : Grammar σ}
    (fromFiles : grammar.FromFiles scale true) (width : Option Int) (words : List String) :
    (∀ (first last : Nat) (cell : Cell σ),
      (fill grammar (width.bind beamOfWidth) words).value.cell first last = .ok cell →
        ∀ tree ∈ cell.entries, tree.score ≤ 0 ∧ ∀ child ∈ tree.children, tree.score ≤ child.score) ∧
    .cycle ∉ (Tally.ofWork (fill grammar (width.bind beamOfWidth) words).work).counters := by
  have losing := fromFiles.weight_le_zero logarithmic
  constructor
  · intro first last cell asked tree stored
    obtain ⟨-, rfl⟩ := cell_fill_eq_ok_iff.1 asked
    have derives := derives_of_mem_cellOf stored
    exact ⟨derives.score_le_zero laws losing, derives.score_le_child laws losing⟩
  · exact cycle_notMem_counters
      (refusals_fill_of_sinking (Grammar.sinking_of_losing laws losing) _ words)

end Chart

/-- Exact numbers, with the whole part of the binary logarithm. -/
def Scale.exact : Scale ℚ where
  read? text :=
    match Numeral.ofText? text with
    | some (.finite negative digits exponent) =>
      let size : ℚ := mkRat (digits * 10 ^ exponent.toNat) (10 ^ (-exponent).toNat)
      some (if negative then -size else size)
    | _ => none
  write := toString
  isProbability p := 0 < p && p ≤ 1
  log p := Int.log 2 p

theorem Scale.logarithmic_exact : Scale.exact.Logarithmic where
  range := by simp [Scale.exact]
  log_le_zero {p} positive atMost := by
    have least : Int.log 2 p ≤ Int.log 2 (1 : ℚ) := Int.log_mono_right positive atMost
    rw [Int.log_one_right] at least
    exact Int.cast_nonpos.2 least

namespace Chart

/-- A number that is no probability. -/
def excessive : List UInt8 := "2\tA\tb".toUTF8.toList

/-- The symbols of the last two lines expand to each other with certainty. -/
def halved : List UInt8 := "0.5\tA\ta\n1\tS\tA\n1\tA\tS".toUTF8.toList

def halving : Grammar ℚ where
  start := "S"
  rules := [⟨"A", ["a"], -1⟩, ⟨"S", ["A"], 0⟩, ⟨"A", ["S"], 0⟩]
  arity := by decide

theorem losses_of_halving :
    let loadings : List (Loading ℚ) := [⟨fun _ => .ok excessive, .file ⟨"", ["a.gr"]⟩⟩,
      ⟨fun _ => .ok halved, .file ⟨"", ["b.gr"]⟩⟩]
    let tree : Derivation ℚ := .unary "S" (-1) (.unary "A" (-1) (.leaf "a" 0))
    (Grammar.empty "S").attemptInTurn Scale.exact true loadings = halving ∧
    (∃ cell, (fill halving none ["a"]).value.cell 0 0 = .ok cell ∧ tree ∈ cell.entries ∧
      tree.score ≤ 0 ∧ ∀ child ∈ tree.children, tree.score ≤ child.score) ∧
    .cycle ∉ (Tally.ofWork (fill halving none ["a"]).work).counters := by
  intro loadings tree
  have loaded : (Grammar.empty "S").attemptInTurn Scale.exact true loadings = halving :=
    Grammar.eq_of_rules (by decide +kernel) (by decide +kernel)
  have fromFiles : halving.FromFiles Scale.exact true := by
    rw [← loaded]
    refine (Grammar.fromFiles_empty "S").attemptInTurn fun loading member => ?_
    simp only [loadings, List.mem_cons, List.not_mem_nil, or_false] at member
    obtain rfl | rfl := member
    all_goals exact ⟨_, rfl⟩
  have asked : (fill halving none ["a"]).value.cell 0 0 = .ok (cellOf halving none ["a"]) :=
    cell_fill_eq_ok_iff.2 ⟨by decide, rfl⟩
  have stored : tree ∈ (cellOf halving none ["a"]).entries := by
    have entries : (cellOf halving none ["a"]).entries =
        [.unary "A" (-1) (.leaf "a" 0), tree] := by cbv
    rw [entries]
    exact List.mem_cons_of_mem _ List.mem_cons_self
  obtain ⟨losses, acyclic⟩ :=
    losses_of_probabilities .of_ordered Scale.logarithmic_exact fromFiles none ["a"]
  exact ⟨loaded, ⟨_, asked, stored, losses 0 0 _ asked tree stored⟩, acyclic⟩

end Chart

end ChartParse
