import ChartParse.Proofs.Chart.Turns
import ChartParse.Work.Tally

/-!
How much work it takes to fill a chart: the totals of the counters of lexical and of binary rules.

Both counters count offers. Every lexical rule is offered to the cell of each word that it expands
to. A binary rule is offered to the cell of a span for each split of the span, if the cells of both
parts hold its symbols. These cells are read while the chart is being filled, but they do not change
any more, so they can as well be looked up in the finished chart.

The binary offers of a whole chart are made in turn, so there are as many of them as turns
(`InTurn.encard_turns`).

Main statement: `totals_count_combinations`.
-/

namespace ChartParse

variable {σ : Type}

/-! ### Offers that a counter counts -/

/-- The derivation that an event says was offered, if the event adds to the counter. -/
def Event.offeredFor? (counter : Counter) (event : Event σ) : Option (Derivation σ) :=
  if event.amount counter = 0 then none else event.offered?

theorem seesOffers_offeredFor? (counter : Counter) :
    SeesOffers (Event.offeredFor? counter : Event σ → _) := by
  intro event nothing
  unfold Event.offeredFor?
  split
  · rfl
  · exact nothing

namespace Chart

section Fill

variable [LT σ] [DecidableLT σ] [Zero σ] [Add σ] (grammar : Grammar σ) (beam : Option Int)
  (words : List String)

/-- Lexical rules offer the constituents of each word, and binary rules those of the wider spans. -/
theorem seen_fill_eq_append {γ : Type} {view : Event σ → Option γ} (sees : SeesOffers view) :
    (fill grammar beam words).seen view =
      (words.flatMap fun word =>
        (constituents grammar beam [word]).filterMap (view <| .lexical ·)) ++
      (List.range' 1 (words.length - 1)).flatMap fun reach =>
        (List.range (words.length - reach)).flatMap fun first =>
          (constituents grammar beam (slice words first reach)).filterMap
            (view <| .combined ·) := by
  rw [seen_fill sees, schedule_eq, List.flatMap_append, List.flatMap_map, List.flatMap_assoc]
  congr 1
  · -- The spans of one word are the positions of the words.
    conv_rhs => rw [← List.zipIdx_map_fst 0 words, List.flatMap_map]
    rw [range_length_eq, List.flatMap_map]
    apply List.flatMap_congr
    intro entry member
    obtain ⟨inside, found⟩ := List.getElem?_eq_some_iff.1 (List.mem_zipIdx_iff_getElem?.1 member)
    simp only [Event.ofOffer, Nat.lt_irrefl, if_false, Nat.sub_self, slice_zero inside, found]
  · apply List.flatMap_congr
    intro reach inRange
    have wide (first : Nat) : first < first + reach :=
      Nat.lt_add_of_pos_right (List.mem_range'_1.1 inRange).1
    simp only [List.flatMap_map, Event.ofOffer, wide, if_true, Nat.add_sub_cancel_left]

theorem total_lexical :
    (Tally.ofWork (fill grammar beam words).work).total .lexical =
      (words.map fun word => (grammar.lexicalRulesFor word).length).sum := by
  rw [Tally.total_eq_length_seen (Event.offeredFor? .lexical) fun event => by cases event <;> rfl,
    seen_fill_eq_append grammar beam words (seesOffers_offeredFor? .lexical)]
  simp [Event.offeredFor?, Event.amount, Event.count?, Event.offered?, constituents]

/-- What binary rules offer, by the width of the span and then by its first word. -/
theorem binaryOffers_fill :
    (fill grammar beam words).seen (Event.offeredFor? .binary) =
      (List.range' 1 (words.length - 1)).flatMap fun reach =>
        (List.range (words.length - reach)).flatMap fun first =>
          constituents grammar beam (slice words first reach) := by
  rw [seen_fill_eq_append grammar beam words (seesOffers_offeredFor? .binary)]
  simp [Event.offeredFor?, Event.amount, Event.count?, Event.offered?]

end Fill

/-! ### Combinations -/

/-- A way to put a span together from two parts: the left one ends at `mid`, and the rule stands at
a place among the binary ones. -/
structure Combination where
  first : Nat
  mid : Nat
  last : Nat
  place : Nat
  deriving DecidableEq, Repr

/-- The chart holds both symbols of the rule for the two parts. -/
inductive Combination.Possible (grammar : Grammar σ) (chart : Chart σ) : Combination → Prop
  | intro {first mid last place : Nat} {rule : Rule σ} {leftLabel rightLabel : String}
      {left right : Cell σ} (listed : grammar.binaryRules[place]? = some rule)
      (expands : rule.rhs = [leftLabel, rightLabel])
      (onLeft : chart.cell first mid = .ok left)
      (onRight : chart.cell (mid + 1 : Nat) last = .ok right)
      (leftHeld : left.contains leftLabel) (rightHeld : right.contains rightLabel) :
      Possible grammar chart ⟨first, mid, last, place⟩

theorem exists_holds_iff {chart : Chart σ} {first last : Nat} {label : String} :
    (∃ tree, chart.Holds first last tree ∧ tree.label = label) ↔
      ∃ cell, chart.cell first last = .ok cell ∧ cell.contains label := by
  constructor
  · rintro ⟨tree, ⟨cell, asked, found⟩, rfl⟩
    exact ⟨cell, asked, by rw [Cell.contains, found]; rfl⟩
  · rintro ⟨cell, asked, held⟩
    obtain ⟨tree, found⟩ := Option.isSome_iff_exists.1 held
    obtain rfl := Cell.label_of_get? found
    exact ⟨tree, ⟨cell, asked, found⟩, rfl⟩

theorem Combination.possible_iff [Add σ] {grammar : Grammar σ} {chart : Chart σ}
    {combination : Combination} :
    combination.Possible grammar chart ↔ ∃ tree, Combines grammar chart combination.first
      combination.last (toLex (combination.mid, combination.place)) tree := by
  constructor
  · rintro ⟨listed, expands, onLeft, onRight, leftHeld, rightHeld⟩
    obtain ⟨left, holdsLeft, rfl⟩ := exists_holds_iff.2 ⟨_, onLeft, leftHeld⟩
    obtain ⟨right, holdsRight, rfl⟩ := exists_holds_iff.2 ⟨_, onRight, rightHeld⟩
    exact ⟨_, .intro listed expands holdsLeft holdsRight⟩
  · obtain ⟨first, mid, last, place⟩ := combination
    rintro ⟨_, ⟨listed, expands, holdsLeft, holdsRight⟩⟩
    obtain ⟨left, onLeft, leftHeld⟩ := exists_holds_iff.1 ⟨_, holdsLeft, rfl⟩
    obtain ⟨right, onRight, rightHeld⟩ := exists_holds_iff.1 ⟨_, holdsRight, rfl⟩
    exact .intro listed expands onLeft onRight leftHeld rightHeld

/-- Combinations are tried by the width of the span, and then by its first word, by the split and by
the rule. -/
def Combination.ofTurn (turn : Nat ×ₗ Nat ×ₗ Nat ×ₗ Nat) : Combination :=
  let (reach, first, mid, place) := turn
  ⟨first, mid, first + reach, place⟩

theorem Combination.ofTurn_injective : Function.Injective ofTurn := by
  rintro ⟨reach, first, mid, place⟩ ⟨otherReach, otherFirst, otherMid, otherPlace⟩ same
  simp only [ofTurn, Combination.mk.injEq] at same
  obtain ⟨rfl, rfl, reaches, rfl⟩ := same
  obtain rfl : reach = otherReach := by omega
  rfl

section Fill

variable [LT σ] [DecidableLT σ] [Zero σ] [Add σ] (grammar : Grammar σ) (beam : Option Int)
  (words : List String)

/-- The binary rules offer in turn what they make of all combinations. -/
theorem inTurn_binaryOffers :
    InTurn (fun turn tree => Combines grammar (fill grammar beam words).value
        (Combination.ofTurn turn).first (Combination.ofTurn turn).last
        (toLex ((Combination.ofTurn turn).mid, (Combination.ofTurn turn).place)) tree)
      ((fill grammar beam words).seen (Event.offeredFor? .binary)) := by
  have spans : ∀ reach ∈ List.range' 1 (words.length - 1),
      ∀ first ∈ List.range (words.length - reach),
        InTurn (Combines grammar (fill grammar beam words).value first (first + reach))
          (constituents grammar beam (slice words first reach)) := by
    intro reach inRange first inside
    have wide : first < first + reach :=
      Nat.lt_add_of_pos_right (List.mem_range'_1.1 inRange).1
    have turns : InTurn (Combines grammar (fill grammar beam words).value _ _) _ :=
      inTurn_binary wide (Nat.add_lt_of_lt_sub (List.mem_range.1 inside))
    rwa [Nat.add_sub_cancel_left] at turns
  rw [binaryOffers_fill]
  refine (InTurn.flatMap List.pairwise_lt_range' fun reach inRange =>
    InTurn.flatMap List.pairwise_lt_range (spans reach inRange)).of_iff ?_
  rintro ⟨reach, first, mid, place⟩ tree
  constructor
  · rintro ⟨_, _, made⟩
    exact made
  · -- What is made at a turn is made of a span of the sentence, so the turn is taken.
    intro (made : Combines _ _ first (first + reach) (toLex (mid, place)) tree)
    obtain ⟨wide, inside⟩ := made.span
    have inRange : reach ∈ List.range' 1 (words.length - 1) := List.mem_range'_1.2 (by omega)
    have starts : first ∈ List.range (words.length - reach) := List.mem_range.2 (by omega)
    exact ⟨inRange, starts, made⟩

/-- There are as many possible combinations as binary offers. -/
theorem encard_possible :
    {combination | Combination.Possible grammar (fill grammar beam words).value
      combination}.encard =
        ((fill grammar beam words).seen (Event.offeredFor? .binary)).length := by
  have turns := (inTurn_binaryOffers grammar beam words).encard_turns
  simp only [← Combination.possible_iff] at turns
  -- The turn gives the width of the span and not its end, but no span ends before it begins.
  have taken : {combination | Combination.Possible grammar (fill grammar beam words).value
      combination} ⊆ Set.range Combination.ofTurn := by
    rintro ⟨first, mid, last, place⟩ possible
    obtain ⟨tree, made⟩ := Combination.possible_iff.1 possible
    have ordered : first ≤ last := made.span.1.le
    refine ⟨toLex (last - first, toLex (first, toLex (mid, place))), ?_⟩
    exact congrArg (Combination.mk first mid · place) (Nat.add_sub_cancel' ordered)
  rw [← turns, ← Set.encard_preimage_of_injective_subset_range Combination.ofTurn_injective taken]
  rfl

/-! ### Main result -/

/-- The counter of lexical rules comes to the number of lexical rules that expand to a word, summed
over the words of the sentence. The counter of binary rules comes to the number of combinations of a
span, a word after which it is split and a place among the binary rules such that the finished chart
holds both symbols of the rule for the two parts. A rule that is listed twice has two places. -/
theorem totals_count_combinations (grammar : Grammar σ) (beam : Option Int)
    (words : List String) :
    let filling := fill grammar beam words
    let profile := Tally.ofWork filling.work
    profile.total .lexical = (words.map fun word => (grammar.lexicalRulesFor word).length).sum ∧
    {combination | Combination.Possible grammar filling.value combination}.encard =
      profile.total .binary := by
  intro filling profile
  refine ⟨total_lexical grammar beam words, ?_⟩
  rw [encard_possible, Tally.total_eq_length_seen (Event.offeredFor? .binary)
    fun event => by cases event <;> rfl]

/-- With a beam of one the word `a` is no `C` any more, which leaves one of two combinations. -/
example :
    let binary (beam : Option Int) :=
      (Tally.ofWork (fill crowded beam ["a", "b"]).work).total .binary
    binary none = 2 ∧ binary (some 1) = 1 := by
  cbv

end Fill

end Chart

end ChartParse
