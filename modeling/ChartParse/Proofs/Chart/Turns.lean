import ChartParse.Proofs.Chart.Offers
import Mathlib.Data.Prod.Lex
import Mathlib.Data.Set.Card

/-!
The turns at which derivations are offered to the cells of a chart.

A span is split from left to right, and every split is tried with the binary rules in their order;
the lexical rules for a word are tried in theirs. Offers are in turn if their order is that of the
turns and each turn makes one offer at most (`InTurn`).

Main statements: the constituents of a word are offered in turn (`inTurn_lexical`), and so are those
of a wider span (`inTurn_binary`). What is offered in turn is as much as there are turns for
(`InTurn.encard_turns`).
-/

namespace ChartParse

variable {σ : Type}

/-- The offers are made turn by turn: each of them is offered at some turn, and their order is that
of the turns. -/
def InTurn {ι : Type} [LT ι] (offered : ι → Derivation σ → Prop) (offers : List (Derivation σ)) :
    Prop :=
  ∃ turns : List (ι × Derivation σ), turns.Pairwise (fun earlier later => earlier.1 < later.1) ∧
    turns.map Prod.snd = offers ∧ ∀ turn tree, (turn, tree) ∈ turns ↔ offered turn tree

theorem InTurn.of_iff {ι : Type} [LT ι] {offered other : ι → Derivation σ → Prop}
    {offers : List (Derivation σ)} (inTurn : InTurn offered offers)
    (same : ∀ turn tree, offered turn tree ↔ other turn tree) : InTurn other offers := by
  obtain ⟨turns, sorted, listed, complete⟩ := inTurn
  exact ⟨turns, sorted, listed, fun turn tree => (complete turn tree).trans (same turn tree)⟩

/-- What is offered by the rules of a list, one after another. -/
theorem inTurn_filterMap (rules : List (Rule σ)) (make : Rule σ → Option (Derivation σ)) :
    InTurn (fun (place : Nat) tree => ∃ rule, rules[place]? = some rule ∧ make rule = some tree)
      (rules.filterMap make) := by
  refine ⟨rules.zipIdx.filterMap fun listed => (make listed.1).map (listed.2, ·), ?_, ?_, ?_⟩
  · have sorted : rules.zipIdx.Pairwise fun earlier later => earlier.2 < later.2 := by
      rw [← List.pairwise_map, List.zipIdx_map_snd]
      exact List.pairwise_lt_range'
    refine List.pairwise_filterMap.2 (sorted.imp fun less turn made other also => ?_)
    obtain ⟨_, _, rfl⟩ := Option.map_eq_some_iff.1 made
    obtain ⟨_, _, rfl⟩ := Option.map_eq_some_iff.1 also
    exact less
  · conv_rhs => rw [← List.zipIdx_map_fst 0 rules, List.filterMap_map]
    rw [List.map_filterMap]
    simp [Function.comp_def]
  · intro place tree
    simp [List.mem_zipIdx_iff_getElem?]

/-- What is offered at one turn after another, each in turns of its own. -/
theorem InTurn.flatMap {ι κ : Type} [Preorder ι] [Preorder κ]
    {offered : ι → κ → Derivation σ → Prop} {offers : ι → List (Derivation σ)} {outer : List ι}
    (sorted : outer.Pairwise (· < ·))
    (each : ∀ turn ∈ outer, InTurn (offered turn) (offers turn)) :
    InTurn (fun turn : ι ×ₗ κ => fun tree => (ofLex turn).1 ∈ outer ∧
        offered (ofLex turn).1 (ofLex turn).2 tree)
      (outer.flatMap offers) := by
  choose! inner ordered listed complete using each
  refine ⟨outer.flatMap fun turn =>
    (inner turn).map fun made => (toLex (turn, made.1), made.2), ?_, ?_, ?_⟩
  · rw [List.pairwise_flatMap]
    refine ⟨fun turn member => ?_, sorted.imp fun less first here second there => ?_⟩
    · rw [List.pairwise_map]
      refine (ordered turn member).imp fun less => ?_
      exact Prod.Lex.toLex_lt_toLex.2 (Or.inr ⟨rfl, less⟩)
    · obtain ⟨_, _, rfl⟩ := List.mem_map.1 here
      obtain ⟨_, _, rfl⟩ := List.mem_map.1 there
      exact Prod.Lex.toLex_lt_toLex.2 (Or.inl less)
  · rw [List.map_flatMap]
    apply List.flatMap_congr
    intro turn member
    rw [← listed turn member]
    simp
  · rintro ⟨turn, place⟩ tree
    rw [List.mem_flatMap]
    constructor
    · rintro ⟨_, member, found⟩
      obtain ⟨_, there, equal⟩ := List.mem_map.1 found
      cases equal
      exact ⟨member, (complete _ member _ _).1 there⟩
    · rintro ⟨member, made⟩
      exact ⟨turn, member, List.mem_map.2 ⟨_, (complete turn member place tree).2 made, rfl⟩⟩

/-- There are as many turns as offers. -/
theorem InTurn.encard_turns {ι : Type} [Preorder ι] {offered : ι → Derivation σ → Prop}
    {offers : List (Derivation σ)} (inTurn : InTurn offered offers) :
    {turn | ∃ tree, offered turn tree}.encard = offers.length := by
  classical
  obtain ⟨turns, sorted, rfl, complete⟩ := inTurn
  -- The turns are sorted, so none of them comes twice.
  have distinct : (turns.map Prod.fst).Nodup := (List.pairwise_map.2 sorted).nodup
  have taken : {turn | ∃ tree, offered turn tree} = ((turns.map Prod.fst).toFinset : Set ι) := by
    ext turn
    simp [complete]
  rw [taken, Set.encard_coe_eq_coe_finsetCard, List.toFinset_card_of_nodup distinct,
    List.length_map, List.length_map]

namespace Chart

variable [Zero σ] [Add σ]

/-- What a binary rule makes of what the chart holds for the two parts of a span: the turn is the
place at which the span is split, and then that of the rule among the binary ones. -/
inductive Combines (grammar : Grammar σ) (chart : Chart σ) (first last : Nat) :
    Nat ×ₗ Nat → Derivation σ → Prop
  | intro {mid place : Nat} {rule : Rule σ} {left right : Derivation σ}
      (listed : grammar.binaryRules[place]? = some rule)
      (expands : rule.rhs = [left.label, right.label]) (onLeft : chart.Holds first mid left)
      (onRight : chart.Holds (mid + 1) last right) :
      Combines grammar chart first last (toLex (mid, place))
        (.binary rule.lhs (left.score + right.score + rule.weight) left right)

/-- What a lexical rule makes of a word: the turn is the place of the rule among those for the
word. -/
inductive Rewrites (grammar : Grammar σ) (word : String) : Nat → Derivation σ → Prop
  | intro {place : Nat} {rule : Rule σ}
      (listed : (grammar.lexicalRulesFor word)[place]? = some rule) :
      Rewrites grammar word place (.unary rule.lhs (0 + rule.weight) (.leaf word 0))

variable [LT σ] [DecidableLT σ] {grammar : Grammar σ} {beam : Option Int} {words : List String}

theorem holds_fill_iff {first last : Nat} {tree : Derivation σ} :
    (fill grammar beam words).value.Holds first last tree ↔
      (first ≤ last ∧ last < words.length) ∧
        tree ∈ (cellOf grammar beam (slice words first (last - first))).entries := by
  constructor
  · rintro ⟨cell, asked, found⟩
    obtain ⟨span, rfl⟩ := cell_fill_eq_ok_iff.1 asked
    exact ⟨span, (Cell.get?_eq_some_iff.1 found).1⟩
  · rintro ⟨⟨ordered, inside⟩, member⟩
    exact holds_fill ordered inside member

theorem Combines.span {first last : Nat} {turn : Nat ×ₗ Nat} {tree : Derivation σ}
    (made : Combines grammar (fill grammar beam words).value first last turn tree) :
    first < last ∧ last < words.length := by
  obtain ⟨_, _, leftHeld, rightHeld⟩ := made
  obtain ⟨⟨low, _⟩, _⟩ := holds_fill_iff.1 leftHeld
  obtain ⟨⟨high, inside⟩, _⟩ := holds_fill_iff.1 rightHeld
  omega

theorem inTurn_lexical (grammar : Grammar σ) (beam : Option Int) (word : String) :
    InTurn (Rewrites grammar word) (constituents grammar beam [word]) := by
  have turns := inTurn_filterMap (grammar.lexicalRulesFor word) fun rule =>
    some (.unary rule.lhs (0 + rule.weight) (.leaf word 0))
  rw [List.filterMap_eq_map'] at turns
  refine turns.of_iff fun place tree => ⟨?_, ?_⟩
  · rintro ⟨rule, listed, made⟩
    obtain rfl := Option.some.inj made
    exact .intro listed
  · rintro ⟨listed⟩
    exact ⟨_, listed, rfl⟩

/-- The constituents of a span are made split by split, from left to right, and rule by rule. -/
theorem inTurn_binary {first last : Nat} (wide : first < last) (inside : last < words.length) :
    InTurn (Combines grammar (fill grammar beam words).value first last)
      (constituents grammar beam (slice words first (last - first))) := by
  have listed : constituents grammar beam (slice words first (last - first)) =
      (List.range' first (last - first)).flatMap fun mid => grammar.binaryRules.filterMap
        (binaryConstituent? (cellOf grammar beam (slice words first (mid - first)))
          (cellOf grammar beam (slice words (mid + 1) (last - (mid + 1))))) := by
    rw [constituents_slice grammar beam (by omega) (by omega), List.range'_eq_map_range,
      List.flatMap_map]
    apply List.flatMap_congr
    intro cut member
    rw [Nat.add_sub_cancel_left, show last - first - cut - 1 = last - (first + cut + 1) by omega]
  rw [listed]
  refine (InTurn.flatMap List.pairwise_lt_range' fun mid _ => inTurn_filterMap _ _).of_iff ?_
  rintro ⟨mid, place⟩ tree
  constructor
  · rintro ⟨member, rule, listed, made⟩
    obtain ⟨low, high⟩ : first ≤ mid ∧ mid < first + (last - first) :=
      List.mem_range'_1.1 member
    obtain ⟨left, onLeft, right, onRight, expands, rfl⟩ := binaryConstituent?_eq_some_iff.1 made
    exact .intro listed expands (holds_fill low (by omega) onLeft)
      (holds_fill (by omega) inside onRight)
  · rintro ⟨listed, expands, leftHeld, rightHeld⟩
    obtain ⟨⟨low, -⟩, onLeft⟩ := holds_fill_iff.1 leftHeld
    obtain ⟨⟨high, -⟩, onRight⟩ := holds_fill_iff.1 rightHeld
    refine ⟨List.mem_range'_1.2 ?_, _, listed, ?_⟩
    · exact ⟨low, show mid < first + (last - first) by omega⟩
    · exact binaryConstituent?_eq_some_iff.2 ⟨_, onLeft, _, onRight, expands, rfl⟩

end Chart

end ChartParse
