import ChartParse.Proofs.Chart.RuleOrder

/-!
Beams of different width.

A wider beam keeps more labels over short spans, and what they make over longer spans may crowd out
a label that the narrower beam has kept there. So a wider beam may lose a parse
(`not_le_of_wider_beam`). It does so in no other way: with any beam, the chart covers a derivation of
the words unless the beam drops the label of one of the phrases of the derivation (`covers_or_drops`).

Main statement: `le_of_wider_beam`.
-/

namespace ChartParse

variable {σ : Type}

/-! ### Phrases -/

/-- The two parts of each binary node of a tree that begins at the position `first`, with the
positions at which they begin. -/
def Derivation.halves (first : Nat) : Derivation σ → List (Nat × Derivation σ)
  | leaf _ _ => []
  | unary _ _ child => child.halves first
  | binary _ _ left right =>
    let middle := first + left.yield.length
    (first, left) :: (middle, right) :: (left.halves first ++ right.halves middle)

/-- What a tree has over a span as a whole: the tree itself and the parts of its binary nodes. -/
def Derivation.phrases (first : Nat) (tree : Derivation σ) : List (Nat × Derivation σ) :=
  (first, tree) :: tree.halves first

namespace Chart

section Beams

variable [LT σ] [DecidableLT σ]

theorem covers_limited {below : σ → σ → Prop} {beam : Option Int} {cell : Cell σ}
    {tree : Derivation σ} (covered : cell.Covers below tree)
    (kept : (limited beam cell).contains tree.label = true) :
    (limited beam cell).Covers below tree := by
  obtain ⟨held, member, same, above⟩ := covered
  obtain ⟨found, there, label⟩ := Cell.contains_iff.1 kept
  -- A cell has one derivation of a label, so what is kept is what covered the tree.
  have known := Cell.get?_eq_some_iff.2 ⟨member, same⟩
  have before := Cell.get?_eq_some_iff.2 ⟨mem_of_mem_limited there, label⟩
  obtain rfl : found = held := Option.some.inj (before.symm.trans known)
  exact ⟨found, there, same, above⟩

/-- Of one cell a wider beam keeps whatever a narrower one keeps. -/
theorem mem_limited_of_le {narrow : Int} (positive : 0 ≤ narrow) {wide : Option Int}
    (wider : ∀ width ∈ wide, narrow ≤ width) {cell : Cell σ} {tree : Derivation σ}
    (kept : tree ∈ (limited (some narrow) cell).entries) : tree ∈ (limited wide cell).entries := by
  cases wide with
  | none => exact mem_of_mem_limited kept
  | some width =>
    have less : narrow ≤ width := wider width rfl
    by_cases few : (cell.size : Int) ≤ width
    · have whole : limited (some width) cell = cell :=
        congrArg Prod.fst (Cell.prune_of_size_le few)
      rw [whole]
      exact mem_of_mem_limited kept
    · have many : ¬ (cell.size : Int) ≤ narrow := by omega
      have room : cell.beamSize narrow ≤ cell.beamSize width := by
        rw [Cell.beamSize, Cell.beamSize, if_pos positive, if_pos (by omega)]
        omega
      simp only [limited, Cell.prune, if_neg many, if_neg few] at kept ⊢
      exact (List.take_subset_take_left _ room) kept

end Beams

theorem WellFormed.length_yield [Zero σ] [Add σ] {grammar : Grammar σ} {chart : Chart σ}
    {first last : Nat} {tree : Derivation σ}
    (wellFormed : WellFormed grammar chart first last tree) :
    tree.yield.length = last - first + 1 := by
  obtain ⟨ordered, inside⟩ := wellFormed.span
  rw [wellFormed.derives.yield_eq, length_slice (by omega)]

variable [LinearOrder σ] [Zero σ] [Add σ] {grammar : Grammar σ} {words : List String}

/-- The beam drops the label of a phrase from the cell of its span, though just before the cell held
the label with a score that is no lower than that of the phrase. -/
def Drops (grammar : Grammar σ) (beam : Option Int) (words : List String)
    (phrase : Nat × Derivation σ) : Prop :=
  let last := phrase.1 + phrase.2.yield.length - 1
  (unprunedCell grammar beam words phrase.1 last).Covers (· ≤ ·) phrase.2 ∧
    ∃ cell, (fill grammar beam words).value.cell phrase.1 last = .ok cell ∧
      cell.contains phrase.2.label = false

/-- What is covered just before the beam is applied is covered afterwards, or dropped. -/
theorem covers_cell_or_drops {beam : Option Int} {first last : Nat} {tree : Derivation σ}
    (ordered : first ≤ last) (inside : last < words.length)
    (length : tree.yield.length = last - first + 1)
    (covered : (unprunedCell grammar beam words first last).Covers (· ≤ ·) tree) :
    (cellOf grammar beam (slice words first (last - first))).Covers (· ≤ ·) tree ∨
      Drops grammar beam words (first, tree) := by
  have cell := cell_fill_eq_limited grammar beam ordered inside
  obtain ⟨-, same⟩ := cell_fill_eq_ok_iff.1 cell
  rw [same]
  cases kept : (limited beam (unprunedCell grammar beam words first last)).contains tree.label with
  | true => exact Or.inl (covers_limited covered kept)
  | false =>
    have finish : first + tree.yield.length - 1 = last := by omega
    right
    simp only [Drops, finish]
    exact ⟨covered, _, cell, kept⟩

variable [AddLeftMono σ] [AddRightMono σ]

/-- With any beam the chart covers a derivation before the beam is applied to its span, unless the
beam has dropped the label of a part of the derivation. -/
theorem covers_or_drops (cycles : grammar.CyclesNeverGain) (beam : Option Int) {chart : Chart σ}
    (sentence : chart.words = words) {first last : Nat} {tree : Derivation σ}
    (wellFormed : WellFormed grammar chart first last tree) :
    (unprunedCell grammar beam words first last).Covers (· ≤ ·) tree ∨
      ∃ phrase ∈ tree.halves first, Drops grammar beam words phrase := by
  have dominance := Grammar.dominance_le cycles
  induction wellFormed with
  | @lexical rule word position token member kind expands =>
    rw [sentence] at token
    obtain ⟨inside, rfl⟩ := List.getElem?_eq_some_iff.1 token
    rw [unprunedCell_eq grammar beam (Nat.le_refl position) inside, Nat.sub_self,
      slice_zero inside]
    exact Or.inl ((covers_close dominance beam _).1 _ (.lexical member kind expands))
  | unary member kind expands below ih =>
    obtain ⟨ordered, inside⟩ := below.span
    rw [sentence] at inside
    rw [unprunedCell_eq grammar beam ordered inside] at ih ⊢
    exact ih.imp_left fun covered => covers_close_unary dominance member kind expands covered
  | @binary rule left right first mid last member expands onLeft onRight _ _ ihLeft ihRight =>
    obtain ⟨leftOrdered, -⟩ := onLeft.span
    obtain ⟨rightOrdered, inside⟩ := onRight.span
    rw [sentence] at inside
    have leftLength := onLeft.length_yield
    have rightLength := onRight.length_yield
    have middle : first + left.yield.length = mid + 1 := by omega
    simp only [Derivation.halves, middle, List.mem_cons, List.mem_append, or_and_right, exists_or,
      exists_eq_left]
    -- Either part is lost with one of its own parts, or dropped, or there to be put together.
    rcases ihLeft with leftCovered | leftLost
    · rcases covers_cell_or_drops leftOrdered (by omega) leftLength leftCovered with
        leftKept | leftDropped
      · rcases ihRight with rightCovered | rightLost
        · rcases covers_cell_or_drops rightOrdered inside rightLength rightCovered with
            rightKept | rightDropped
          · rw [unprunedCell_eq grammar beam (by omega) inside,
              ← slice_append words leftOrdered rightOrdered]
            exact Or.inl (covers_close_binary dominance member expands leftKept rightKept)
          · exact Or.inr (Or.inr (Or.inl rightDropped))
        · exact Or.inr (Or.inr (Or.inr (Or.inr rightLost)))
      · exact Or.inr (Or.inl leftDropped)
    · exact Or.inr (Or.inr (Or.inr (Or.inl leftLost)))

/-! ### Phrases of one word -/

section Held

variable {beam : Option Int} {first last : Nat} {tree : Derivation σ}

/-- A phrase of the tree is held by the chart. -/
def HoldsPhrase (chart : Chart σ) (phrase : Nat × Derivation σ) : Prop :=
  chart.Holds phrase.1 (phrase.1 + phrase.2.yield.length - 1) phrase.2

omit [LinearOrder σ] [AddLeftMono σ] [AddRightMono σ] in
theorem WellFormed.holds_halves {chart : Chart σ}
    (wellFormed : WellFormed grammar chart first last tree) :
    ∀ phrase ∈ tree.halves first, chart.HoldsPhrase phrase := by
  induction wellFormed with
  | lexical => exact List.forall_mem_nil _
  | unary _ _ _ _ ih => exact ih
  | @binary rule left right first mid last _ _ onLeft onRight leftHeld rightHeld ihLeft ihRight =>
    have leftSpan := onLeft.span
    have rightSpan := onRight.span
    have leftLength := onLeft.length_yield
    have rightLength := onRight.length_yield
    have middle : first + left.yield.length = mid + 1 := by omega
    simp only [Derivation.halves, middle, List.forall_mem_cons, List.forall_mem_append]
    refine ⟨?_, ?_, ihLeft, ihRight⟩
    · rw [HoldsPhrase, show first + left.yield.length - 1 = mid by omega]
      exact leftHeld
    · rw [HoldsPhrase, show mid + 1 + right.yield.length - 1 = last by omega]
      exact rightHeld

omit [AddLeftMono σ] [AddRightMono σ] in
theorem holds_phrases (member : tree ∈ (cellOf grammar beam words).entries) :
    ∀ phrase ∈ tree.phrases 0, (fill grammar beam words).value.HoldsPhrase phrase := by
  obtain ⟨wellFormed, held⟩ := wellFormed_and_holds_of_mem_cellOf member
  refine List.forall_mem_cons.2 ⟨?_, wellFormed.holds_halves⟩
  have positive := List.length_pos_iff.2 (ne_nil_of_mem_cellOf member)
  have length := wellFormed.length_yield
  rw [HoldsPhrase, show 0 + tree.yield.length - 1 = words.length - 1 by omega]
  exact held

omit [AddLeftMono σ] [AddRightMono σ] in
/-- Over a single word the wider beam drops nothing that the narrower one keeps. -/
theorem two_le_length_of_drops {narrow : Int} (positive : 0 ≤ narrow) {wide : Option Int}
    (wider : ∀ width ∈ wide, narrow ≤ width) {phrase : Nat × Derivation σ}
    (held : (fill grammar (some narrow) words).value.HoldsPhrase phrase)
    (drops : Drops grammar wide words phrase) : 2 ≤ phrase.2.yield.length := by
  obtain ⟨first, tree⟩ := phrase
  obtain ⟨cell, asked, found⟩ := held
  obtain ⟨-, other, otherAsked, lost⟩ := drops
  obtain ⟨⟨ordered, inside⟩, rfl⟩ := cell_fill_eq_ok_iff.1 asked
  obtain ⟨-, rfl⟩ := cell_fill_eq_ok_iff.1 otherAsked
  have member := (Cell.get?_eq_some_iff.1 found).1
  have length : tree.yield.length = first + tree.yield.length - 1 - first + 1 :=
    (wellFormed_of_mem_cellOf ordered inside member).length_yield
  by_contra short
  have few : tree.yield.length < 2 := Nat.lt_of_not_le short
  have single : first + tree.yield.length - 1 = first := by omega
  simp only [single] at inside lost member
  rw [Nat.sub_self, slice_zero inside] at lost member
  -- The constituents of a single word are the same with any beam.
  have same : constituents grammar (some narrow) [words[first]] =
      constituents grammar wide [words[first]] := rfl
  rw [cellOf_eq grammar _ (List.cons_ne_nil _ _), same] at member
  have kept := mem_limited_of_le positive wider member
  have there := Cell.contains_iff.2 ⟨tree, kept, rfl⟩
  rw [cellOf_eq grammar _ (List.cons_ne_nil _ _)] at lost
  exact absurd there (by simpa using lost)

end Held

/-! ### Main result -/

omit [AddLeftMono σ] [AddRightMono σ] in
/-- Only a beam drops anything. -/
theorem Drops.beam_ne_none {beam : Option Int} {phrase : Nat × Derivation σ}
    (drops : Drops grammar beam words phrase) : beam ≠ none := by
  rintro rfl
  obtain ⟨⟨held, member, same, -⟩, cell, asked, lost⟩ := drops
  obtain ⟨⟨ordered, inside⟩, -⟩ := cell_fill_eq_ok_iff.1 asked
  rw [cell_fill_eq_limited grammar none ordered inside] at asked
  obtain rfl := Except.ok.inj asked
  have kept := Cell.contains_iff.2 ⟨held, member, same⟩
  exact absurd kept (by simpa [limited] using lost)

/-- A parse that a narrower beam finds, a wider one finds too, or one that is worth more, unless it
drops the label of a phrase of that parse, of two words at least, which its cell has held with a
score that is no lower. A chart without a beam drops nothing. -/
theorem le_of_wider_beam (cycles : grammar.CyclesNeverGain) {narrow : Int} (positive : 1 ≤ narrow)
    {width : Option Int} (wider : ∀ wide ∈ width.bind beamOfWidth, narrow ≤ wide)
    {best : Derivation σ} (parsed : (parse grammar (beamOfWidth narrow) words).value = some best) :
    (∃ other, (parse grammar (width.bind beamOfWidth) words).value = some other ∧
      best.score ≤ other.score) ∨
    (width.bind beamOfWidth ≠ none ∧ ∃ phrase ∈ best.phrases 0, 2 ≤ phrase.2.yield.length ∧
      Drops grammar (width.bind beamOfWidth) words phrase) := by
  have beam : beamOfWidth narrow = some narrow := if_neg (by omega)
  rw [beam, value_parse] at parsed
  obtain ⟨member, start⟩ := Cell.get?_eq_some_iff.1 parsed
  have nonempty := List.length_pos_iff.2 (ne_nil_of_mem_cellOf member)
  obtain ⟨wellFormed, -⟩ := wellFormed_and_holds_of_mem_cellOf member
  have length := wellFormed.length_yield
  have lost (phrase : Nat × Derivation σ) (part : phrase ∈ best.phrases 0)
      (drops : Drops grammar (width.bind beamOfWidth) words phrase) :
      width.bind beamOfWidth ≠ none ∧ ∃ phrase ∈ best.phrases 0, 2 ≤ phrase.2.yield.length ∧
        Drops grammar (width.bind beamOfWidth) words phrase :=
    ⟨drops.beam_ne_none, phrase, part,
      two_le_length_of_drops (by omega) wider (holds_phrases member phrase part) drops, drops⟩
  rcases covers_or_drops cycles (width.bind beamOfWidth) (words_fill grammar _ words) wellFormed
    with covered | ⟨phrase, part, drops⟩
  · rcases covers_cell_or_drops (Nat.zero_le _) (by omega) length covered with kept | drops
    · obtain ⟨other, there, same, above⟩ := kept
      rw [slice_whole] at there
      refine Or.inl ⟨other, ?_, above⟩
      rw [value_parse]
      exact Cell.get?_eq_some_iff.2 ⟨there, same.trans start⟩
    · exact Or.inr (lost _ List.mem_cons_self drops)
  · exact Or.inr (lost phrase (List.mem_cons_of_mem _ part) drops)

/-- Beside `A` a wider beam keeps `C`, on which two labels stand that outscore the start symbol. -/
def overtaken : Grammar Int where
  start := "S"
  rules := [⟨"S", ["A", "B"], 0⟩, ⟨"T", ["C", "B"], 5⟩, ⟨"U", ["C", "B"], 5⟩, ⟨"A", ["a"], -1⟩,
    ⟨"C", ["a"], -2⟩, ⟨"B", ["b"], -1⟩]
  arity := by decide

theorem not_le_of_wider_beam :
    ¬ ∀ (grammar : Grammar Int), grammar.CyclesNeverGain → ∀ (words : List String)
      (narrow wide : Int), 1 ≤ narrow → narrow ≤ wide →
      ∀ best, (parse grammar (beamOfWidth narrow) words).value = some best →
        ∃ other, (parse grammar (beamOfWidth wide) words).value = some other ∧
          best.score ≤ other.score := by
  intro widening
  have cycles : overtaken.CyclesNeverGain := Grammar.cyclesNeverGain_of_nonpos (by decide +kernel)
  have parsed : (parse overtaken (beamOfWidth 1) ["a", "b"]).value =
      some (.binary "S" (-2) (.unary "A" (-1) (.leaf "a" 0)) (.unary "B" (-1) (.leaf "b" 0))) := by
    cbv
  have lost : (parse overtaken (beamOfWidth 2) ["a", "b"]).value = none := by cbv
  obtain ⟨other, found, -⟩ :=
    widening overtaken cycles ["a", "b"] 1 2 (by decide) (by decide) _ parsed
  rw [lost] at found
  cases found

theorem drops_of_overtaken :
    let tree : Derivation Int :=
      .binary "S" (-2) (.unary "A" (-1) (.leaf "a" 0)) (.unary "B" (-1) (.leaf "b" 0))
    overtaken.CyclesNeverGain ∧
      (parse overtaken (beamOfWidth 1) ["a", "b"]).value = some tree ∧
      (parse overtaken (beamOfWidth 2) ["a", "b"]).value = none ∧
      Drops overtaken (beamOfWidth 2) ["a", "b"] (0, tree) := by
  intro tree
  have cycles : overtaken.CyclesNeverGain := Grammar.cyclesNeverGain_of_nonpos (by decide +kernel)
  have parsed : (parse overtaken (beamOfWidth 1) ["a", "b"]).value = some tree := by cbv
  have lost : (parse overtaken (beamOfWidth 2) ["a", "b"]).value = none := by cbv
  have wider : ∀ wide ∈ (some 2 : Option Int).bind beamOfWidth, (1 : Int) ≤ wide := by
    rintro wide ⟨⟩
    decide
  refine ⟨cycles, parsed, lost, ?_⟩
  rcases le_of_wider_beam cycles (by decide) wider parsed with ⟨other, found, -⟩ | ⟨-, dropped⟩
  · rw [Option.bind_some, lost] at found
    cases found
  · -- The parts of the sentence are single words.
    obtain ⟨phrase, part, long, drops⟩ := dropped
    have phrases : tree.phrases 0 = [(0, tree), (0, .unary "A" (-1) (.leaf "a" 0)),
        (1, .unary "B" (-1) (.leaf "b" 0))] := by decide
    rw [phrases] at part
    simp only [List.mem_cons, List.not_mem_nil, or_false] at part
    obtain rfl | rfl | rfl := part
    · exact drops
    · exact absurd long (by decide)
    · exact absurd long (by decide)

end Chart

end ChartParse
