import ChartParse.Proofs.Cell.Selection
import Mathlib

/-!
Cells with the same scores, and what a beam leaves of them.

Two cells may hold the same labels with the same scores and yet differ, in the derivations that have
these scores and in the order in which labels came in. Where scores are distinct there is one
ranking only, so that a beam keeps the same labels of both (`SameScores.prune`). Where two labels
tie it may keep either, as they came in.
-/

namespace ChartParse

variable {σ : Type}

/-- The label and the score of a derivation, without the tree. -/
def Derivation.rating (tree : Derivation σ) : String × σ :=
  (tree.label, tree.score)

theorem Derivation.rating_eq_iff {tree other : Derivation σ} :
    tree.rating = other.rating ↔ tree.label = other.label ∧ tree.score = other.score :=
  Prod.ext_iff

namespace Cell

/-- Both cells hold the same labels, with the same scores. -/
def SameScores (cell other : Cell σ) : Prop :=
  ∀ label, (cell.get? label).map Derivation.score = (other.get? label).map Derivation.score

theorem SameScores.refl (cell : Cell σ) : cell.SameScores cell := fun _ => rfl

theorem SameScores.symm {cell other : Cell σ} (same : cell.SameScores other) :
    other.SameScores cell := fun label => (same label).symm

theorem mem_ratings_iff {cell : Cell σ} {label : String} {score : σ} :
    (label, score) ∈ cell.entries.map Derivation.rating ↔
      (cell.get? label).map Derivation.score = some score := by
  simp only [List.mem_map, Derivation.rating, Prod.mk.injEq, Option.map_eq_some_iff,
    get?_eq_some_iff, and_assoc]

theorem nodup_ratings (cell : Cell σ) : (cell.entries.map Derivation.rating).Nodup := by
  have labels : ((cell.entries.map Derivation.rating).map Prod.fst).Nodup := by
    rw [List.map_map]
    exact cell.nodup
  exact List.Nodup.of_map Prod.fst labels

theorem sameScores_iff_perm {cell other : Cell σ} : cell.SameScores other ↔
    (cell.entries.map Derivation.rating).Perm (other.entries.map Derivation.rating) := by
  rw [List.perm_ext_iff_of_nodup (nodup_ratings cell) (nodup_ratings other)]
  constructor
  · rintro same ⟨label, score⟩
    rw [mem_ratings_iff, mem_ratings_iff, same label]
  · intro same label
    apply Option.ext
    intro score
    rw [← mem_ratings_iff, ← mem_ratings_iff, same]

namespace SameScores

variable {cell other : Cell σ}

theorem size (same : cell.SameScores other) : cell.size = other.size := by
  have length := (sameScores_iff_perm.1 same).length_eq
  rwa [List.length_map, List.length_map] at length

/-- What one cell holds, the other holds with the same label and score. -/
theorem exists_mem (same : cell.SameScores other) {tree : Derivation σ}
    (member : tree ∈ cell.entries) :
    ∃ found ∈ other.entries, found.label = tree.label ∧ found.score = tree.score := by
  have rated := (sameScores_iff_perm.1 same).mem_iff.1 (List.mem_map_of_mem member)
  obtain ⟨found, there, equal⟩ := List.mem_map.1 rated
  exact ⟨found, there, Derivation.rating_eq_iff.1 equal⟩

end SameScores

/-! ### Ranking -/

variable [LinearOrder σ]

theorem pairwise_ranked (cell : Cell σ) :
    cell.ranked.Pairwise fun better worse => worse.score ≤ better.score := by
  have comparable : cell.Comparable := fun low _ high _ other _ less =>
    (lt_or_ge low.score other.score).imp_right fun below => below.trans_lt less
  simpa using pairwise_not_lt_ranked comparable

/-- Distinct scores leave no choice of a ranking. -/
theorem SameScores.ratings_ranked {cell other : Cell σ} (same : cell.SameScores other)
    (distinct : (cell.entries.map Derivation.score).Nodup) :
    cell.ranked.map Derivation.rating = other.ranked.map Derivation.rating := by
  have perm (cell : Cell σ) : (cell.ranked.map Derivation.rating).Perm
      (cell.entries.map Derivation.rating) := (List.mergeSort_perm cell.entries _).map _
  have sorted (cell : Cell σ) : (cell.ranked.map Derivation.rating).Pairwise
      fun better worse => worse.2 ≤ better.2 := List.pairwise_map.2 (pairwise_ranked cell)
  have across := sameScores_iff_perm.1 same
  refine List.Perm.eq_of_pairwise ?_ (sorted cell) (sorted other)
    ((perm cell).trans (across.trans (perm other).symm))
  intro first second onLeft onRight notAbove notBelow
  -- Both are ratings of the one cell, and of that cell the scores tell which.
  have scores : ((cell.entries.map Derivation.rating).map Prod.snd).Nodup := by
    rwa [List.map_map]
  exact List.inj_on_of_nodup_map scores ((perm cell).mem_iff.1 onLeft)
    (across.mem_iff.2 ((perm other).mem_iff.1 onRight)) (le_antisymm notBelow notAbove)

theorem SameScores.prune {cell other : Cell σ} (same : cell.SameScores other)
    (distinct : (cell.entries.map Derivation.score).Nodup) (width : Int) :
    (cell.prune width).1.SameScores (other.prune width).1 := by
  unfold Cell.prune
  rw [same.size]
  split
  · exact same
  · -- As many are kept of both, and they are the best of one ranking.
    have kept : (cell.ranked.take (cell.beamSize width)).map Derivation.rating =
        (other.ranked.take (other.beamSize width)).map Derivation.rating := by
      rw [List.map_take, List.map_take, same.ratings_ranked distinct, beamSize, beamSize, same.size]
    rw [sameScores_iff_perm]
    exact List.Perm.of_eq kept

end Cell

end ChartParse
