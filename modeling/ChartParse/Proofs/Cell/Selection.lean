import ChartParse.Cell.Basic
import ChartParse.Proofs.Decimal.Order
import Mathlib.Data.List.Nodup

/-!
Pruning as a selection.

The ranking of a cell puts a derivation before those that score less, and before those that score
the same and came in later (`pairwise_outranks_ranked`). So a beam keeps the first of the ranking
and what it drops is behind all that it keeps. What has been kept is ranked already, so of two beams
one after the other only the narrower counts (`prune_prune`).

Ranking makes sense only if no score of the cell is beside two of which one is less than the other
(`Comparable`). Of doubles a NaN alone is so.

Main statement: `prune_selects`.
-/

namespace ChartParse.Cell

variable {σ : Type} [LT σ]

/-- If of two scores one is less than the other, each score of the cell is above the one or below
the other. -/
def Comparable (cell : Cell σ) : Prop :=
  ∀ low ∈ cell.entries, ∀ high ∈ cell.entries, ∀ other ∈ cell.entries,
    low.score < high.score → low.score < other.score ∨ other.score < high.score

/-- One derivation scores higher than the other, or the same and stands before it in the cell. -/
def Outranks (cell : Cell σ) (first second : Derivation σ) : Prop :=
  second.score < first.score ∨
    (¬ first.score < second.score ∧ ¬ second.score < first.score ∧
      [first, second].Sublist cell.entries)

theorem comparable_of_numbers {cell : Cell Float}
    (numbers : ∀ tree ∈ cell.entries, tree.score.isNaN = false) : cell.Comparable :=
  fun _ _ _ _ other member less => Decimal.lt_or_lt_of_lt less (numbers other member)

/-! ### Pairs in a list -/

section Pairs

variable {α : Type} {first second : α} {xs : List α}

/-- Two entries of a list stand there one before the other. -/
theorem pair_sublist_or (member : first ∈ xs) (other : second ∈ xs) (apart : first ≠ second) :
    [first, second].Sublist xs ∨ [second, first].Sublist xs := by
  obtain ⟨before, after, rfl⟩ := List.append_of_mem member
  rcases List.mem_append.1 other with earlier | later
  · right
    exact (List.singleton_sublist.2 earlier).append (List.singleton_sublist.2 List.mem_cons_self)
  · left
    have behind : second ∈ after := (List.mem_cons.1 later).resolve_left apart.symm
    exact ((List.singleton_sublist.2 behind).cons_cons first).trans (List.sublist_append_right _ _)

theorem not_pair_sublist_swap (nodup : xs.Nodup) (ordered : [first, second].Sublist xs) :
    ¬ [second, first].Sublist xs := by
  induction xs with
  | nil => cases ordered
  | cons x rest ih =>
    obtain ⟨absent, distinct⟩ := List.nodup_cons.1 nodup
    intro swapped
    cases ordered with
    | cons _ onward =>
      cases swapped with
      | cons _ back => exact ih distinct onward back
      | cons_cons _ back => exact absent (onward.subset (by simp))
    | cons_cons _ onward =>
      cases swapped with
      | cons _ back => exact absent (back.subset (by simp))
      | cons_cons _ back => exact absent (List.singleton_sublist.1 onward)

end Pairs

/-! ### Sorting what a list holds -/

section Sorting

variable {α : Type} {le : α → α → Bool} {xs : List α}

theorem map_val_mergeSort_attach (le : α → α → Bool) (xs : List α) :
    (xs.attach.mergeSort fun a b => le a.val b.val).map Subtype.val = xs.mergeSort le := by
  rw [List.map_mergeSort (f := Subtype.val) (s := le) fun _ _ _ _ => rfl,
    List.attach_map_subtype_val]

/-- It is enough that the comparison ranks the entries of the list. -/
theorem pairwise_mergeSort_of_mem
    (trans : ∀ a ∈ xs, ∀ b ∈ xs, ∀ c ∈ xs, le a b = true → le b c = true → le a c = true)
    (total : ∀ a ∈ xs, ∀ b ∈ xs, (le a b || le b a) = true) :
    (xs.mergeSort le).Pairwise fun a b => le a b = true := by
  -- The library asks for a comparison that ranks a whole type, so the entries are made one.
  rw [← map_val_mergeSort_attach, List.pairwise_map]
  exact List.pairwise_mergeSort
    (fun a b c => trans a.val a.property b.val b.property c.val c.property)
    (fun a b => total a.val a.property b.val b.property) _

theorem pair_sublist_mergeSort_of_mem
    (trans : ∀ a ∈ xs, ∀ b ∈ xs, ∀ c ∈ xs, le a b = true → le b c = true → le a c = true)
    (total : ∀ a ∈ xs, ∀ b ∈ xs, (le a b || le b a) = true) {first second : α}
    (ranked : le first second = true) (ordered : [first, second].Sublist xs) :
    [first, second].Sublist (xs.mergeSort le) := by
  rw [← List.attach_map_subtype_val xs, List.sublist_map_iff] at ordered
  obtain ⟨pair, inside, same⟩ := ordered
  match pair, same with
  | [a, b], same =>
    obtain ⟨rfl, rfl⟩ : first = a.val ∧ second = b.val := by simpa using same
    have kept : [a, b].Sublist (xs.attach.mergeSort fun a b => le a.val b.val) :=
      List.pair_sublist_mergeSort
        (fun a b c => trans a.val a.property b.val b.property c.val c.property)
        (fun a b => total a.val a.property b.val b.property) ranked inside
    rw [← map_val_mergeSort_attach]
    exact kept.map Subtype.val

end Sorting

/-! ### The ranking -/

omit [LT σ] in
theorem nodup_entries (cell : Cell σ) : cell.entries.Nodup :=
  List.Nodup.of_map Derivation.label cell.nodup

variable [DecidableLT σ]

theorem mem_ranked {cell : Cell σ} {tree : Derivation σ} :
    tree ∈ cell.ranked ↔ tree ∈ cell.entries :=
  List.mem_mergeSort

theorem length_ranked (cell : Cell σ) : cell.ranked.length = cell.size :=
  List.length_mergeSort cell.entries

theorem nodup_ranked (cell : Cell σ) : cell.ranked.Nodup :=
  (List.mergeSort_perm cell.entries _).nodup_iff.2 cell.nodup_entries

theorem ranked_eq_entries {cell : Cell σ}
    (sorted : cell.entries.Pairwise fun first second => ¬ first.score < second.score) :
    cell.ranked = cell.entries :=
  List.mergeSort_of_pairwise (by simpa using sorted)

theorem Comparable.trans {cell : Cell σ} (comparable : cell.Comparable) :
    ∀ a ∈ cell.entries, ∀ b ∈ cell.entries, ∀ c ∈ cell.entries,
      (!decide (a.score < b.score)) = true → (!decide (b.score < c.score)) = true →
        (!decide (a.score < c.score)) = true := by
  intro a first b second c third
  simp only [Bool.not_eq_true', decide_eq_false_iff_not]
  intro above further less
  exact (comparable a first c third b second less).elim above further

section Ranking

variable [IsStrictOrder σ (· < ·)]

theorem not_lt_or_not_lt (first second : Derivation σ) :
    (!decide (first.score < second.score) || !decide (second.score < first.score)) = true := by
  simp only [Bool.or_eq_true, Bool.not_eq_true', decide_eq_false_iff_not]
  by_cases less : first.score < second.score
  · exact Or.inr fun more => asymm_of (· < ·) less more
  · exact Or.inl less

variable {cell : Cell σ} (comparable : cell.Comparable)
include comparable

theorem pairwise_not_lt_ranked :
    cell.ranked.Pairwise fun first second => ¬ first.score < second.score := by
  have sorted := pairwise_mergeSort_of_mem comparable.trans fun a _ b _ => not_lt_or_not_lt a b
  simpa [ranked] using sorted

theorem pairwise_outranks_ranked : cell.ranked.Pairwise cell.Outranks := by
  rw [List.pairwise_iff_forall_sublist]
  intro first second ordered
  have notLess : ¬ first.score < second.score :=
    List.pairwise_iff_forall_sublist.1 (pairwise_not_lt_ranked comparable) ordered
  by_cases higher : second.score < first.score
  · exact Or.inl higher
  · refine Or.inr ⟨notLess, higher, ?_⟩
    have apart : first ≠ second := by simpa using cell.nodup_ranked.sublist ordered
    have members := List.forall_mem_cons.1 ordered.subset
    have stand := pair_sublist_or (mem_ranked.1 members.1)
      (mem_ranked.1 (members.2 second (List.mem_singleton_self second))) apart
    -- If they stood the other way round, sorting would have left them so.
    refine stand.resolve_right fun swapped => ?_
    have kept := pair_sublist_mergeSort_of_mem comparable.trans
      (fun a _ b _ => not_lt_or_not_lt a b) (by simpa using higher) swapped
    exact not_pair_sublist_swap cell.nodup_ranked ordered kept

end Ranking

/-! ### Beams -/

section Beams

variable {cell : Cell σ}

theorem prune_of_size_le {width : Int} (few : cell.size ≤ width) : cell.prune width = (cell, 0) :=
  if_pos few

theorem entries_prune_of_lt_size {width : Int} (many : width < cell.size) :
    (cell.prune width).1.entries = cell.ranked.take (cell.beamSize width) := by
  rw [prune, if_neg (not_le.2 many)]

omit [LT σ] [DecidableLT σ] in
theorem beamSize_natCast (cell : Cell σ) (width : Nat) : cell.beamSize width = width := by
  rw [beamSize, if_pos (Int.natCast_nonneg width), Int.toNat_natCast]

theorem entries_prune_of_lt {width : Nat} (many : width < cell.size) :
    (cell.prune width).1.entries = cell.ranked.take width := by
  rw [entries_prune_of_lt_size (by omega), beamSize_natCast]

variable (cell)

theorem entries_prune_subset (width : Int) : (cell.prune width).1.entries ⊆ cell.entries := by
  by_cases few : cell.size ≤ width
  · rw [prune_of_size_le few]
    exact List.Subset.refl _
  · rw [entries_prune_of_lt_size (not_le.1 few)]
    exact fun tree member => mem_ranked.1 (List.mem_of_mem_take member)

variable (width : Nat)

theorem snd_prune : (cell.prune width).2 = cell.size - min width cell.size := by
  by_cases few : cell.size ≤ width
  · rw [prune_of_size_le (by omega), min_eq_right few, Nat.sub_self]
  · have many : ¬ (cell.size : Int) ≤ width := by omega
    simp only [prune, if_neg many]
    omega

theorem size_prune : (cell.prune width).1.size = min width cell.size := by
  by_cases few : cell.size ≤ width
  · rw [prune_of_size_le (by omega), min_eq_right few]
  · rw [size, entries_prune_of_lt (not_le.1 few), List.length_take, length_ranked]

variable {cell} [IsStrictOrder σ (· < ·)] (comparable : cell.Comparable)
include comparable

theorem outranks_of_dropped {kept dropped : Derivation σ}
    (member : kept ∈ (cell.prune width).1.entries) (other : dropped ∈ cell.entries)
    (gone : dropped ∉ (cell.prune width).1.entries) : cell.Outranks kept dropped := by
  by_cases few : cell.size ≤ width
  · rw [prune_of_size_le (by omega)] at gone
    exact absurd other gone
  · rw [entries_prune_of_lt (not_le.1 few)] at member gone
    have parts := pairwise_outranks_ranked comparable
    rw [← List.take_append_drop width cell.ranked] at parts
    have split : dropped ∈ cell.ranked.take width ++ cell.ranked.drop width := by
      rw [List.take_append_drop]
      exact mem_ranked.2 other
    exact (List.pairwise_append.1 parts).2.2 kept member dropped
      ((List.mem_append.1 split).resolve_left gone)

/-- Of two beams one after the other only the narrower counts. -/
theorem prune_prune (next : Nat) :
    ((cell.prune width).1.prune next).1 = (cell.prune (min width next : Nat)).1 := by
  by_cases few : cell.size ≤ width
  · have whole {wide : Nat} (few : cell.size ≤ wide) : cell.prune wide = (cell, 0) :=
      prune_of_size_le (by omega)
    rw [whole few]
    by_cases fewer : cell.size ≤ next
    · rw [whole fewer, whole (le_min few fewer)]
    · rw [min_eq_right (by omega)]
  · have size : (cell.prune width).1.size = width := by
      rw [size_prune, min_eq_left (by omega)]
    by_cases fewer : width ≤ next
    · rw [prune_of_size_le (by omega), min_eq_left fewer]
    · -- What the first beam kept is ranked, so the second takes the first of the same ranking.
      have sorted := (pairwise_not_lt_ranked comparable).sublist (List.take_sublist width _)
      rw [← entries_prune_of_lt (not_le.1 few)] at sorted
      apply ext
      rw [min_eq_right (by omega), entries_prune_of_lt (by omega), ranked_eq_entries sorted,
        entries_prune_of_lt (not_le.1 few), entries_prune_of_lt (by omega),
        List.take_take, min_eq_left (by omega)]

end Beams

/-! ### Main result -/

/-- A beam keeps as many derivations of a cell without NaN scores as it is wide, as they are, or all
if there are no more. Those that it keeps are ahead of those that it drops: they score higher, or
the same and stood earlier in the cell. If any are dropped those that are kept stand by descending
score, and those of one score as they stood; otherwise the cell is left as it was. The number that
comes with the cell is how many are dropped, and a second beam leaves what the narrower of the two
would have left. -/
theorem prune_selects (cell : Cell Float)
    (numbers : ∀ tree ∈ cell.entries, tree.score.isNaN = false) (width : Nat) :
    (cell.prune width).1.size = min width cell.size ∧
    (cell.prune width).1.entries ⊆ cell.entries ∧
    (∀ kept ∈ (cell.prune width).1.entries, ∀ dropped ∈ cell.entries,
      dropped ∉ (cell.prune width).1.entries → cell.Outranks kept dropped) ∧
    (width < cell.size → (cell.prune width).1.entries.Pairwise cell.Outranks) ∧
    (cell.size ≤ width → (cell.prune width).1 = cell) ∧
    (cell.prune width).2 = cell.size - min width cell.size ∧
    ∀ next : Nat,
      ((cell.prune width).1.prune next).1 = (cell.prune (min width next : Nat)).1 := by
  have comparable := comparable_of_numbers numbers
  refine ⟨size_prune cell width, entries_prune_subset cell width, fun kept member dropped other =>
    outranks_of_dropped width comparable member other, fun many => ?_, fun few => ?_,
    snd_prune cell width, prune_prune width comparable⟩
  · rw [entries_prune_of_lt many]
    exact (pairwise_outranks_ranked comparable).sublist (List.take_sublist width _)
  · rw [prune_of_size_le (by omega)]

/-- Two labels that score the two zeros, between the infinities. -/
def zeros : Cell Float where
  entries := [.leaf "A" 0, .leaf "B" (1 / 0), .leaf "C" (-0), .leaf "D" (-1 / 0)]
  nodup := by decide

/-- The zeros tie, so that the one which came in first is kept. -/
theorem prune_selects_zeros :
    (∀ tree ∈ zeros.entries, tree.score.isNaN = false) ∧
    (zeros.prune (2 : Nat)).1.entries = [.leaf "B" (1 / 0), .leaf "A" 0] ∧
    zeros.Outranks (.leaf "A" 0) (.leaf "C" (-0)) ∧
    ((zeros.prune (3 : Nat)).1.prune (2 : Nat)).1 = (zeros.prune (2 : Nat)).1 := by
  have numbers : ∀ tree ∈ zeros.entries, tree.score.isNaN = false := by decide +kernel
  have above : (0 : Float) < 1 / 0 := by decide +kernel
  have tied : ¬ (0 : Float) < -0 := by decide +kernel
  have below : ¬ (-0 : Float) < -1 / 0 := by decide +kernel
  have highest : ¬ (1 / 0 : Float) < -0 := by decide +kernel
  have ranked : zeros.ranked =
      [.leaf "B" (1 / 0), .leaf "A" 0, .leaf "C" (-0), .leaf "D" (-1 / 0)] := by
    simp [Cell.ranked, zeros, List.mergeSort, List.MergeSort.Internal.splitInTwo,
      Derivation.score, above, tied, below, highest]
  have kept : (zeros.prune (2 : Nat)).1.entries = [.leaf "B" (1 / 0), .leaf "A" 0] := by
    rw [entries_prune_of_lt (by decide), ranked]
    rfl
  obtain ⟨-, -, ahead, -⟩ := prune_selects zeros numbers 2
  obtain ⟨-, -, -, -, -, -, further⟩ := prune_selects zeros numbers 3
  refine ⟨numbers, kept, ahead _ ?_ _ (by simp [zeros]) ?_, further 2⟩
  · rw [kept]
    simp
  · rw [kept]
    simp

end ChartParse.Cell
