import ChartParse.Proofs.Cell.Closed
import ChartParse.Proofs.Cell.Improvement
import ChartParse.Proofs.Chart.Turns

/-!
Ties. Of derivations that score the same a cell keeps the one that it was offered first. A span is
split from left to right, and every split is tried with the binary rules in their order, so ties go
to the leftmost split and, at one split, to the earliest rule.

Between two offers of one label the unary rules may store other derivations of that label. They
do no harm: what a unary rule has made is never itself an offer of the lexical or the binary rules
(`Ascent.eq_of_ground`), so an offer that a cell holds in the end was stored when its turn came, and
by then the cell held nothing of its label that scored as much (`exists_split_of_mem_close`).

Main statement: `kept_is_first_best`.
-/

namespace ChartParse

variable {σ : Type}

theorem Derivation.Ground.repeatsLabel_eq_false {tree : Derivation σ} (ground : tree.Ground) :
    tree.repeatsLabel = false := by
  cases ground <;> rfl

/-- Nothing that is no word itself lies under what no unary rule has made. -/
theorem Grammar.Ascent.eq_of_ground [Add σ] {grammar : Grammar σ} {base tree : Derivation σ}
    {labels : List String} (ascent : grammar.Ascent base labels tree) (bottom : base.Ground)
    (top : tree.Ground) : tree = base := by
  cases ascent with
  | stay => rfl
  | rise below _ _ _ =>
    -- The child would be a word, and no rule makes words.
    cases top
    cases below
    cases bottom

/-! ### The offer that a cell keeps -/

namespace Cell

section Closing

variable [LT σ] [DecidableLT σ] [Add σ] {grammar : Grammar σ} {offers : List (Derivation σ)}
  {kept : Derivation σ}

/-- An offer that a closed cell holds was stored after those before it. -/
theorem exists_split_of_mem_close (ground : ∀ offer ∈ offers, offer.Ground) (made : kept.Ground)
    (member : kept ∈ (close grammar .empty offers).value.entries) :
    ∃ before after, offers = before ++ kept :: after ∧
      (close grammar .empty before).value.judge kept = .improves := by
  induction offers using List.reverseRecOn with
  | nil =>
    rw [close_nil] at member
    cases member
  | append_singleton front last ih =>
    obtain ⟨groundFront, groundLast⟩ := List.forall_mem_append.1 ground
    -- What was there before the last offer was split off there already.
    have earlier (held : kept ∈ (close grammar .empty front).value.entries) :
        ∃ before after, front ++ [last] = before ++ kept :: after ∧
          (close grammar .empty before).value.judge kept = .improves := by
      obtain ⟨before, after, rfl, improves⟩ := ih groundFront held
      exact ⟨before, after ++ [last], by simp, improves⟩
    rw [close_append, Traced.value_bind] at member
    rcases exists_ascent_of_mem_close member with held | ⟨labels, ascent⟩
    · exact earlier held
    · obtain rfl := ascent.eq_of_ground (List.forall_mem_singleton.1 groundLast) made
      cases verdict : (close grammar .empty front).value.judge kept with
      | improves => exact ⟨front, [], rfl, verdict⟩
      | notBetter =>
        rw [close_cons_of_notBetter _ _ _ verdict, close_nil] at member
        exact earlier member
      | cycle =>
        have repeated := (judge_eq_cycle_iff.1 verdict).2
        rw [made.repeatsLabel_eq_false] at repeated
        contradiction

theorem mem_of_mem_close (ground : ∀ offer ∈ offers, offer.Ground) (made : kept.Ground)
    (member : kept ∈ (close grammar .empty offers).value.entries) : kept ∈ offers := by
  obtain ⟨before, after, rfl, -⟩ := exists_split_of_mem_close ground made member
  exact List.mem_append_right _ List.mem_cons_self

/-- No offer beats what a closed cell holds for its label. -/
theorem exists_unbeaten_of_offered [IsStrictOrder σ (· < ·)] (grammar : Grammar σ)
    {offer : Derivation σ} (offered : offer ∈ offers) (ground : offer.Ground) :
    ∃ held, (close grammar .empty offers).value.get? offer.label = some held ∧
      ¬ held.score < offer.score := by
  have anything : ∀ offer ∈ offers, True := fun _ _ => trivial
  have refused := ((settling_refused grammar).close anything).1 offer offered
  rw [judge_ne_improves_iff, ground.repeatsLabel_eq_false] at refused
  exact refused.resolve_right Bool.false_ne_true

end Closing

variable {grammar : Grammar Float} {offers : List (Derivation Float)} {kept : Derivation Float}

/-- The offer that a cell keeps scores more than those of its label before it and no less than any
of them. -/
theorem first_best_of_mem_close (ground : ∀ offer ∈ offers, offer.Ground)
    (numbers : ∀ offer ∈ offers, offer.score.isNaN = false) (made : kept.Ground)
    (member : kept ∈ (close grammar .empty offers).value.entries) :
    ∃ before after, offers = before ++ kept :: after ∧
      (∀ offer ∈ before, offer.label = kept.label → offer.score < kept.score) ∧
      ∀ offer ∈ offers, offer.label = kept.label → offer.score ≤ kept.score := by
  obtain ⟨before, after, split, improves⟩ := exists_split_of_mem_close ground made member
  have front : before ⊆ offers := split ▸ List.subset_append_left _ _
  have own : kept ∈ offers := mem_of_mem_close ground made member
  refine ⟨before, after, split, fun offer earlier label => ?_, fun offer offered label => ?_⟩
  · obtain ⟨held, found, unbeaten⟩ :=
      exists_unbeaten_of_offered grammar earlier (ground offer (front earlier))
    obtain ⟨there, same⟩ := get?_eq_some_iff.1 found
    have gain : held.score < kept.score := lt_of_improves improves there (same.trans label)
    exact (Decimal.lt_or_lt_of_lt gain (numbers offer (front earlier))).resolve_left unbeaten
  · obtain ⟨held, found, unbeaten⟩ :=
      exists_unbeaten_of_offered grammar offered (ground offer offered)
    obtain rfl : kept = held :=
      Option.some.inj ((get?_eq_some_iff.2 ⟨member, label.symm⟩).symm.trans found)
    exact Decimal.le_of_not_lt (numbers offer offered) (numbers kept own) unbeaten

end Cell

/-! ### The first of the best offers -/

/-- Of all that is offered for its label, the derivation scores best, and it is the first to score
so. -/
def FirstBest {ι : Type} [LT ι] (offered : ι → Derivation Float → Prop) (kept : Derivation Float) :
    Prop :=
  ∃ turn, offered turn kept ∧ ∀ other tree, offered other tree → tree.label = kept.label →
    tree.score ≤ kept.score ∧ (other < turn → tree.score < kept.score)

/-- A cell keeps the first of the best offers. -/
theorem InTurn.firstBest {ι : Type} [Preorder ι] {offered : ι → Derivation Float → Prop}
    {offers : List (Derivation Float)} (inTurn : InTurn offered offers)
    (ground : ∀ offer ∈ offers, offer.Ground)
    (numbers : ∀ offer ∈ offers, offer.score.isNaN = false) {kept : Derivation Float}
    (made : kept.Ground) {grammar : Grammar Float}
    (member : kept ∈ (Cell.close grammar .empty offers).value.entries) :
    FirstBest offered kept := by
  obtain ⟨turns, sorted, listed, complete⟩ := inTurn
  obtain ⟨before, after, split, less, most⟩ :=
    Cell.first_best_of_mem_close ground numbers made member
  -- The turns are split where the offers are.
  obtain ⟨front, rest, rfl, earlier, later⟩ := List.map_eq_append_iff.1 (listed.trans split)
  obtain ⟨⟨turn, _⟩, back, rfl, rfl, -⟩ := List.map_eq_cons_iff.1 later
  refine ⟨turn, (complete turn _).1 (by simp), fun other tree offered label => ⟨?_, ?_⟩⟩
  · have there : tree ∈ offers := listed ▸ List.mem_map.2 ⟨_, (complete other tree).2 offered, rfl⟩
    exact most tree there label
  · intro sooner
    obtain ⟨-, behind, -⟩ := List.pairwise_append.1 sorted
    rcases List.mem_append.1 ((complete other tree).2 offered) with ahead | here
    · exact less tree (earlier ▸ List.mem_map.2 ⟨_, ahead, rfl⟩) label
    · rcases List.mem_cons.1 here with same | beyond
      · obtain ⟨rfl, rfl⟩ := Prod.mk.inj same
        exact absurd sooner (lt_irrefl _)
      · exact absurd sooner ((List.pairwise_cons.1 behind).1 _ beyond).not_gt

namespace Chart

section Constituents

variable [Zero σ] [Add σ] [LT σ] [DecidableLT σ] {grammar : Grammar σ} {beam : Option Int}
  {words : List String}

theorem Constituent.ground {tree : Derivation σ}
    (constituent : Constituent grammar beam words tree) : tree.Ground := by
  cases constituent
  · exact .lexical ..
  · exact .binary ..

theorem Constituent.eq_singleton {label word : String} {score value : σ}
    (constituent : Constituent grammar beam words (.unary label score (.leaf word value))) :
    words = [word] := by
  cases constituent
  rfl

theorem Constituent.two_le_length {label : String} {score : σ} {left right : Derivation σ}
    (constituent : Constituent grammar beam words (.binary label score left right)) :
    2 ≤ words.length := by
  cases constituent
  omega

end Constituents

/-! ### Main result -/

/-- If no derivation that a lexical or a binary rule has offered to a chart has a score that is no
number, ties go to the leftmost split and then to the earliest rule. A binary node that the chart
holds was made at some split by some rule; whatever is made of its label at an earlier split, or at
the same by an earlier rule, scores less, and nothing that is made of its label scores more. And a
word under a label that the chart holds was made by some lexical rule; what those of its label that
are listed before make of the word scores less, and what any of them makes of it no more. -/
theorem kept_is_first_best (grammar : Grammar Float) (beam : Option Int) (words : List String)
    (numbers : ∀ offered ∈ offers (fill grammar beam words), offered.score.isNaN = false)
    {first last : Nat} {kept : Derivation Float}
    (held : (fill grammar beam words).value.Holds first last kept) :
    (∀ label score left right, kept = .binary label score left right →
      FirstBest (Combines grammar (fill grammar beam words).value first last) kept) ∧
    ∀ label score word value, kept = .unary label score (.leaf word value) →
      first = last ∧ words[first]? = some word ∧ FirstBest (Rewrites grammar word) kept := by
  obtain ⟨⟨ordered, inside⟩, member⟩ := holds_fill_iff.1 held
  have numbersHere : ∀ offer ∈ constituents grammar beam (slice words first (last - first)),
      offer.score.isNaN = false := by
    intro offer offered
    refine numbers offer ?_
    rw [offers_fill]
    exact List.mem_flatMap.2 ⟨(first, last), mem_schedule_iff.2 ⟨ordered, inside⟩, offered⟩
  have ground : ∀ offer ∈ constituents grammar beam (slice words first (last - first)),
      offer.Ground := fun offer offered => (mem_constituents_iff.1 offered).ground
  rw [cellOf_eq grammar beam (slice_ne_nil ordered inside)] at member
  have closed := mem_of_mem_limited member
  have length : (slice words first (last - first)).length = last - first + 1 :=
    length_slice (by omega)
  refine ⟨?_, ?_⟩
  · rintro label score left right rfl
    have made : (Derivation.binary label score left right).Ground := .binary ..
    have wide : first < last := by
      have long :=
        (mem_constituents_iff.1 (Cell.mem_of_mem_close ground made closed)).two_le_length
      omega
    exact (inTurn_binary wide inside).firstBest ground numbersHere made closed
  · rintro label score word value rfl
    have made : (Derivation.unary label score (.leaf word value)).Ground := .lexical ..
    have alone : slice words first (last - first) = [word] :=
      (mem_constituents_iff.1 (Cell.mem_of_mem_close ground made closed)).eq_singleton
    obtain rfl : first = last := by
      rw [alone, List.length_singleton] at length
      omega
    rw [Nat.sub_self, slice_zero inside] at *
    obtain rfl := List.singleton_inj.1 alone
    exact ⟨rfl, List.getElem?_eq_getElem inside,
      (inTurn_lexical grammar beam _).firstBest ground numbersHere made closed⟩

/-- An `L` of three words is an `L` of two and an `A`, or an `A` and an `L` of two, and a word
becomes an `L` in three ways. -/
def lopsided : Grammar Float where
  start := "L"
  rules := [⟨"L", ["L", "A"], -1⟩, ⟨"L", ["A", "L"], -1⟩, ⟨"L", ["a"], -3⟩, ⟨"L", ["a"], -2⟩,
    ⟨"A", ["a"], -2⟩, ⟨"L", ["a"], -2⟩]
  arity := by decide

/-- The first rule comes first at every split, but it can be used only at the second. -/
theorem kept_is_first_best_lopsided :
    let chart := (fill lopsided none ["a", "a", "a"]).value
    let word : Derivation Float := .unary "L" (-2) (.leaf "a" 0)
    let other : Derivation Float := .unary "A" (-2) (.leaf "a" 0)
    let kept : Derivation Float := .binary "L" (-8) other (.binary "L" (-5) word other)
    (∀ offered ∈ offers (fill lopsided none ["a", "a", "a"]), offered.score.isNaN = false) ∧
    chart.Holds 0 2 kept ∧ FirstBest (Combines lopsided chart 0 2) kept ∧
    chart.Holds 1 1 word ∧ FirstBest (Rewrites lopsided "a") word := by
  intro chart word other kept
  have numbers : ∀ offered ∈ offers (fill lopsided none ["a", "a", "a"]),
      offered.score.isNaN = false := by
    decide +kernel
  have held : chart.Holds 0 2 kept := holds_fill (by decide) (by decide) (by decide +kernel)
  have single : chart.Holds 1 1 word := holds_fill (by decide) (by decide) (by decide +kernel)
  exact ⟨numbers, held,
    (kept_is_first_best lopsided none ["a", "a", "a"] numbers held).1 _ _ _ _ rfl, single,
    ((kept_is_first_best lopsided none ["a", "a", "a"] numbers single).2 _ _ _ _ rfl).2.2⟩

end Chart

end ChartParse
