import ChartParse.Proofs.Cell.Selection
import ChartParse.Proofs.Chart.Constituents
import Mathlib

/-!
Soundness of charts: whatever a chart holds is a derivation of the words of its span, put together
from what the chart itself holds for the parts.

The cells of wider spans are made from those of shorter ones, so the proof goes by the width of the
span; in one cell, what is true of the constituents passes to all that the unary rules build on
them.
-/

namespace ChartParse.Chart

variable {σ : Type}

/-- The chart holds the tree over a span, under the label of the tree. -/
def Holds (chart : Chart σ) (first last : Nat) (tree : Derivation σ) : Prop :=
  ∃ cell, chart.cell first last = .ok cell ∧ cell.get? tree.label = some tree

/-- The tree is a derivation of the words of a span as the chart has them: every node applies a
rule of the grammar and is worth the weight of the rule added to what stands below it, and the two
parts of a binary node are what the chart holds for their labels. -/
inductive WellFormed [Zero σ] [Add σ] (grammar : Grammar σ) (chart : Chart σ) :
    Nat → Nat → Derivation σ → Prop
  | lexical {rule : Rule σ} {word : String} {position : Nat}
      (token : chart.words[position]? = some word) (member : rule ∈ grammar.rules)
      (kind : grammar.kind? rule = some .lexical) (expands : rule.rhs = [word]) :
      WellFormed grammar chart position position
        (.unary rule.lhs (0 + rule.weight) (.leaf word 0))
  | unary {rule : Rule σ} {child : Derivation σ} {first last : Nat}
      (member : rule ∈ grammar.rules) (kind : grammar.kind? rule = some .unary)
      (expands : rule.rhs = [child.label]) (below : WellFormed grammar chart first last child) :
      WellFormed grammar chart first last (.unary rule.lhs (child.score + rule.weight) child)
  | binary {rule : Rule σ} {left right : Derivation σ} {first mid last : Nat}
      (member : rule ∈ grammar.rules) (expands : rule.rhs = [left.label, right.label])
      (onLeft : WellFormed grammar chart first mid left)
      (onRight : WellFormed grammar chart (mid + 1) last right)
      (leftHeld : chart.Holds first mid left) (rightHeld : chart.Holds (mid + 1) last right) :
      WellFormed grammar chart first last
        (.binary rule.lhs (left.score + right.score + rule.weight) left right)

/-! ### From spans to words -/

theorem slice_append (words : List String) {first mid last : Nat} (low : first ≤ mid)
    (high : mid < last) :
    slice words first (mid - first) ++ slice words (mid + 1) (last - (mid + 1)) =
      slice words first (last - first) := by
  have left : (slice words first (last - first)).take (mid - first + 1) =
      slice words first (mid - first) := take_slice words (by omega)
  have right : (slice words first (last - first)).drop (mid - first + 1) =
      slice words (first + (mid - first) + 1) (last - first - (mid - first) - 1) :=
    drop_slice words (by omega)
  rw [show first + (mid - first) + 1 = mid + 1 by omega,
    show last - first - (mid - first) - 1 = last - (mid + 1) by omega] at right
  rw [← left, ← right, List.take_append_drop]

/-- All words together are the span from the first to the last. -/
theorem slice_whole (words : List String) : slice words 0 (words.length - 1 - 0) = words := by
  rw [slice, List.drop_zero, List.take_of_length_le (by omega)]

theorem slice_ne_nil {words : List String} {first last : Nat} (ordered : first ≤ last)
    (inside : last < words.length) : slice words first (last - first) ≠ [] := by
  rw [← List.length_pos_iff, length_slice (by omega)]
  omega

namespace WellFormed

variable [Zero σ] [Add σ] {grammar : Grammar σ} {chart : Chart σ} {first last : Nat}
  {tree : Derivation σ}

theorem span (wellFormed : WellFormed grammar chart first last tree) :
    first ≤ last ∧ last < chart.words.length := by
  induction wellFormed with
  | lexical token => exact ⟨Nat.le_refl _, (List.getElem?_eq_some_iff.1 token).1⟩
  | unary _ _ _ _ ih => exact ih
  | binary _ _ _ _ _ _ ihLeft ihRight => omega

/-- What is well-formed in a chart is a derivation of the words of the span. -/
theorem derives (wellFormed : WellFormed grammar chart first last tree) :
    grammar.Derives tree (slice chart.words first (last - first)) := by
  induction wellFormed with
  | lexical token member kind expands =>
    obtain ⟨inside, rfl⟩ := List.getElem?_eq_some_iff.1 token
    rw [Nat.sub_self, slice_zero inside]
    exact .lexical member kind expands
  | unary member kind expands _ ih => exact .unary member kind expands ih
  | binary member expands onLeft onRight _ _ ihLeft ihRight =>
    rw [← slice_append chart.words onLeft.span.1 onRight.span.1]
    exact .binary member expands ihLeft ihRight

end WellFormed

/-! ### What cells hold -/

variable [LT σ] [DecidableLT σ]

theorem mem_of_mem_limited {beam : Option Int} {cell : Cell σ} {tree : Derivation σ}
    (member : tree ∈ (limited beam cell).entries) : tree ∈ cell.entries := by
  unfold limited at member
  cases beam with
  | none => exact member
  | some width => exact cell.entries_prune_subset width member

variable [Zero σ] [Add σ] {grammar : Grammar σ} {beam : Option Int} {words : List String}
  {first last : Nat} {tree : Derivation σ}

theorem holds_fill (ordered : first ≤ last) (inside : last < words.length)
    (member : tree ∈ (cellOf grammar beam (slice words first (last - first))).entries) :
    (fill grammar beam words).value.Holds first last tree :=
  ⟨_, cell_fill_eq_ok_iff.2 ⟨⟨ordered, inside⟩, rfl⟩, Cell.get?_eq_some_iff.2 ⟨member, rfl⟩⟩

/-- A constituent of the words of a span is well-formed if all that the chart holds over shorter
spans is. -/
theorem Constituent.wellFormed (ordered : first ≤ last) (inside : last < words.length)
    (shorter : ∀ start finish tree, start ≤ finish → finish < words.length →
      finish - start < last - first →
      tree ∈ (cellOf grammar beam (slice words start (finish - start))).entries →
      WellFormed grammar (fill grammar beam words).value start finish tree)
    (constituent : Constituent grammar beam (slice words first (last - first)) tree) :
    WellFormed grammar (fill grammar beam words).value first last tree := by
  have length : (slice words first (last - first)).length = last - first + 1 :=
    length_slice (by omega)
  generalize parts : slice words first (last - first) = span at constituent length
  cases constituent with
  | @lexical rule word member kind expands =>
    -- The span has one word only.
    obtain rfl : first = last := by simp at length; omega
    rw [Nat.sub_self, slice_zero inside, List.cons.injEq] at parts
    exact .lexical (List.getElem?_eq_some_iff.2 ⟨inside, parts.1⟩) member kind expands
  | @binary rule left right _ cut low high member expands onLeft onRight =>
    subst parts
    -- The left part ends `reach` words after its first; its words are a slice, and so are those
    -- of the right part.
    obtain ⟨reach, rfl⟩ : ∃ reach, cut = reach + 1 := ⟨cut - 1, by omega⟩
    rw [take_slice words (by omega), show reach = first + reach - first by omega] at onLeft
    rw [drop_slice words (by omega),
      show last - first - reach - 1 = last - (first + reach + 1) by omega] at onRight
    refine .binary member expands ?_ ?_ (holds_fill ?_ ?_ onLeft) (holds_fill ?_ ?_ onRight)
    · exact shorter _ _ left (by omega) (by omega) (by omega) onLeft
    · exact shorter _ _ right (by omega) (by omega) (by omega) onRight
    all_goals omega

/-- The unary rules build well-formed trees on well-formed trees. -/
theorem offering_wellFormed (grammar : Grammar σ) (chart : Chart σ) (first last : Nat) :
    Closing.Offering grammar (fun _ => WellFormed grammar chart first last) where
  lasts _ wellFormed := wellFormed
  extend := by
    intro cell stored _ wellFormed extension above
    obtain ⟨rule, member, kind, expands, rfl⟩ := Cell.mem_extensions_iff.1 above
    exact .unary member kind expands wellFormed

theorem wellFormed_of_mem_cellOf (ordered : first ≤ last) (inside : last < words.length)
    (member : tree ∈ (cellOf grammar beam (slice words first (last - first))).entries) :
    WellFormed grammar (fill grammar beam words).value first last tree := by
  -- The cells of the parts are those of spans that are less wide.
  induction width : last - first using Nat.strongRecOn generalizing first last tree with
  | ind width ih =>
    subst width
    rw [cellOf_eq grammar beam (slice_ne_nil ordered inside)] at member
    refine (offering_wellFormed grammar _ first last).forall_mem_close (fun _ => id) ?_ tree
      (mem_of_mem_limited member)
    intro offer offered
    refine (mem_constituents_iff.1 offered).wellFormed ordered inside ?_
    exact fun start finish tree ordered inside less member => ih _ less ordered inside member rfl

theorem wellFormed_and_holds_of_mem_cellOf (member : tree ∈ (cellOf grammar beam words).entries) :
    WellFormed grammar (fill grammar beam words).value 0 (words.length - 1) tree ∧
      (fill grammar beam words).value.Holds 0 (words.length - 1) tree := by
  have positive := List.length_pos_iff.2 (ne_nil_of_mem_cellOf member)
  have inside : words.length - 1 < words.length := by omega
  rw [← slice_whole words] at member
  exact ⟨wellFormed_of_mem_cellOf (Nat.zero_le _) inside member,
    holds_fill (Nat.zero_le _) inside member⟩

/-- What is stored for some words is a derivation of them. -/
theorem derives_of_mem_cellOf (member : tree ∈ (cellOf grammar beam words).entries) :
    grammar.Derives tree words := by
  have derives := (wellFormed_and_holds_of_mem_cellOf member).1.derives
  rwa [words_fill, slice_whole] at derives

/-! ### Main result -/

/-- Whatever a chart holds over a span, with any beam, is a derivation of exactly the words of the
span, by rules of the grammar, with the scores that the rules give, and its binary nodes stand on
what the finished chart holds for the two parts of their spans. -/
theorem stored_wellFormed (grammar : Grammar σ) (beam : Option Int) (words : List String)
    {first last : Nat} {cell : Cell σ}
    (asked : (fill grammar beam words).value.cell first last = .ok cell) {tree : Derivation σ}
    (stored : tree ∈ cell.entries) :
    WellFormed grammar (fill grammar beam words).value first last tree ∧
      tree.yield = slice words first (last - first) := by
  obtain ⟨⟨ordered, inside⟩, rfl⟩ := cell_fill_eq_ok_iff.1 asked
  have wellFormed := wellFormed_of_mem_cellOf ordered inside stored
  exact ⟨wellFormed, wellFormed.derives.yield_eq⟩

/-- A beam of one leaves no room for `C` beside the `A` that stands on it. -/
def crowded : Grammar Int where
  start := "S"
  rules := [⟨"S", ["A", "B"], -1⟩, ⟨"S", ["C", "B"], 5⟩, ⟨"A", ["C"], 2⟩, ⟨"C", ["a"], -3⟩,
    ⟨"B", ["b"], -2⟩]
  arity := by decide

theorem wellFormed_of_crowded :
    let chart := (fill crowded (some 1) ["a", "b"]).value
    let tree : Derivation Int := .binary "S" (-4)
      (.unary "A" (-1) (.unary "C" (-3) (.leaf "a" 0))) (.unary "B" (-2) (.leaf "b" 0))
    ∃ cell, chart.cell 0 1 = .ok cell ∧ tree ∈ cell.entries ∧
      WellFormed crowded chart 0 1 tree ∧ tree.yield = ["a", "b"] := by
  intro chart tree
  have asked : chart.cell 0 1 = .ok (cellOf crowded (some 1) ["a", "b"]) :=
    cell_fill_eq_ok_iff.2 ⟨by decide, rfl⟩
  have entries : (cellOf crowded (some 1) ["a", "b"]).entries = [tree] := by cbv
  have stored : tree ∈ (cellOf crowded (some 1) ["a", "b"]).entries := by simp [entries]
  exact ⟨_, asked, stored, stored_wellFormed crowded (some 1) ["a", "b"] asked stored⟩

end ChartParse.Chart
