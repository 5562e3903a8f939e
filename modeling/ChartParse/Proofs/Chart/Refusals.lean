import ChartParse.Proofs.Chart.Record
import ChartParse.Work.Tally

/-!
What a chart refuses for going round a cycle of unary rules, read off its record.

Main statement: a chart refuses what closing the constituents of each span refuses, one span after
another in the order of the schedule (`refusals_fill`). The counter of cycles counts the refusals
(`total_cycle`).
-/

namespace ChartParse

variable {σ : Type}

/-- The derivation that an event says was refused for going round a cycle, if it says so. -/
def Event.refused? : Event σ → Option (Derivation σ)
  | cycle refused => some refused
  | _ => none

def refusals {α : Type} (traced : Traced (Event σ) α) : List (Derivation σ) :=
  traced.work.filterMap Event.refused?

theorem mem_refusals_iff {α : Type} {traced : Traced (Event σ) α} {refused : Derivation σ} :
    refused ∈ refusals traced ↔ .cycle refused ∈ traced.work := by
  rw [refusals, List.mem_filterMap]
  constructor
  · rintro ⟨event, member, same⟩
    cases event <;> simp_all [Event.refused?]
  · intro member
    exact ⟨_, member, rfl⟩

@[simp] theorem refusals_pure {α : Type} (value : α) :
    refusals (pure value : Traced (Event σ) α) = [] := rfl

@[simp] theorem refusals_bind {α β : Type} (first : Traced (Event σ) α)
    (next : α → Traced (Event σ) β) :
    refusals (first >>= next) = refusals first ++ refusals (next first.value) :=
  Traced.seen_bind first next

@[simp] theorem refusals_map {α β : Type} (f : α → β) (first : Traced (Event σ) α) :
    refusals (f <$> first) = refusals first :=
  Traced.seen_map f first

@[simp] theorem refusals_record (event : Event σ) :
    refusals (Traced.record event) = event.refused?.toList :=
  Traced.seen_record event

theorem total_cycle {α : Type} (traced : Traced (Event σ) α) :
    (Tally.ofWork traced.work).total .cycle = (refusals traced).length :=
  Tally.total_eq_length_seen Event.refused? (fun event => by cases event <;> rfl) traced

section Cells

variable [Add σ] [LT σ] [DecidableLT σ]

theorem Cell.refusals_add (grammar : Grammar σ) (cell : Cell σ) (offered : Derivation σ) :
    refusals (cell.add grammar offered) = refusals (cell.close grammar [offered]) := by
  rw [refusals, work_add]
  rfl

/-- If each step of a loop offers something to a cell and refuses what closing refuses, the loop
refuses what closing with all offers on the agenda refuses. -/
theorem Cell.refusals_foldlM {α : Type} {grammar : Grammar σ}
    {step : Cell σ → α → Traced (Event σ) (Cell σ)} {offers : α → List (Derivation σ)} {xs : List α}
    (values : ∀ x ∈ xs, ∀ cell, (step cell x).value = (cell.close grammar (offers x)).value)
    (refused : ∀ x ∈ xs, ∀ cell, refusals (step cell x) = refusals (cell.close grammar (offers x)))
    (cell : Cell σ) :
    refusals (xs.foldlM step cell) = refusals (cell.close grammar (xs.flatMap offers)) := by
  induction xs generalizing cell with
  | nil => rw [List.flatMap_nil, close_nil]; rfl
  | cons x rest ih =>
    obtain ⟨value, values⟩ := List.forall_mem_cons.1 values
    obtain ⟨here, refused⟩ := List.forall_mem_cons.1 refused
    rw [List.foldlM_cons, refusals_bind, here, value, ih values refused, List.flatMap_cons,
      close_append, refusals_bind]

end Cells

namespace Chart

variable [LT σ] [DecidableLT σ]

theorem refusals_limit (beam : Option Int) (first last : Nat) (cell : Cell σ) :
    refusals (limit beam first last cell) = [] := by
  unfold limit
  cases beam with
  | none => rfl
  | some width =>
    simp only
    split <;> rfl

variable [Add σ] {grammar : Grammar σ}

theorem refusals_offerBinary (left right cell : Cell σ) (rule : Rule σ) :
    refusals (offerBinary grammar left right cell rule) =
      refusals (cell.close grammar (binaryConstituent? left right rule).toList) := by
  obtain ⟨lhs, rhs, weight⟩ := rule
  match rhs with
  | [] | [_] | _ :: _ :: _ :: _ => simp [offerBinary, binaryConstituent?]
  | [leftLabel, rightLabel] =>
    cases onLeft : left.get? leftLabel with
    | none => simp [offerBinary, binaryConstituent?, onLeft]
    | some leftBest =>
      cases onRight : right.get? rightLabel with
      | none => simp [offerBinary, binaryConstituent?, onLeft, onRight]
      | some rightBest =>
        simp only [offerBinary, binaryConstituent?, onLeft, onRight, Option.bind_eq_bind,
          Option.bind_some, Option.pure_def, Option.toList_some, ← Cell.refusals_add, refusals_bind,
          refusals_record, Event.refused?, Option.toList_none, List.nil_append]
        split <;> simp [Event.refused?]

theorem refusals_offerSplit {diagonals : Array (Array (Cell σ))} {first last mid : Nat}
    {left right : Cell σ} (cell : Cell σ) (onLeft : cellIn diagonals first mid = some left)
    (onRight : cellIn diagonals (mid + 1) last = some right) :
    refusals (offerSplit grammar diagonals first last cell mid) =
      refusals (cell.close grammar
        (grammar.binaryRules.filterMap (binaryConstituent? left right))) := by
  simp only [offerSplit, onLeft, onRight, refusals_bind, refusals_record, Event.refused?,
    Option.toList_none, List.nil_append]
  split
  next bare => rw [filterMap_binaryConstituent?_eq_nil _ bare, Cell.close_nil]
  next =>
    rw [List.filterMap_eq_flatMap_toList]
    exact Cell.refusals_foldlM (fun rule _ cell => value_offerBinary grammar left right cell rule)
      (fun rule _ cell => refusals_offerBinary left right cell rule) cell

variable [Zero σ] {beam : Option Int} {words : List String}

theorem refusals_lexicalCell (position : Nat) (word : String) :
    refusals (lexicalCell grammar beam position word) =
      refusals (Cell.close grammar .empty (constituents grammar beam [word])) := by
  have offers : refusals ((grammar.lexicalRulesFor word).foldlM (offerLexical grammar word) .empty) =
      refusals (Cell.close grammar .empty (constituents grammar beam [word])) := by
    rw [constituents, List.map_eq_flatMap]
    refine Cell.refusals_foldlM (fun rule _ cell => value_offerLexical grammar word cell rule) ?_ _
    intro rule _ cell
    simp [offerLexical, Cell.refusals_add, Event.refused?]
  simp only [lexicalCell, refusals_bind, refusals_record, Event.refused?, Option.toList_none,
    List.nil_append, offers]
  split <;> simp [refusals_limit, Event.refused?]

theorem refusals_combinedCell {diagonals : Array (Array (Cell σ))} {first reach : Nat}
    (wide : 0 < reach) (inside : first + reach < words.length)
    (parts : HoldsParts grammar beam words diagonals first reach) (limits : Option Int) :
    refusals (combinedCell grammar limits diagonals first (first + reach)) =
      refusals (Cell.close grammar .empty
        (constituents grammar beam (slice words first reach))) := by
  have splits : refusals ((List.range reach).foldlM (fun cell cut =>
        offerSplit grammar diagonals first (first + reach) cell (first + cut)) .empty) =
      refusals (Cell.close grammar .empty
        (constituents grammar beam (slice words first reach))) := by
    rw [constituents_slice grammar beam wide inside]
    refine Cell.refusals_foldlM ?_ ?_ _
    · intro cut member cell
      obtain ⟨onLeft, onRight⟩ := parts cut (List.mem_range.1 member)
      rw [value_offerSplit grammar diagonals cell onLeft onRight, combine_eq]
    · intro cut member cell
      obtain ⟨onLeft, onRight⟩ := parts cut (List.mem_range.1 member)
      exact refusals_offerSplit cell onLeft onRight
  simp only [combinedCell, refusals_bind, refusals_record, Event.refused?, Option.toList_none,
    List.nil_append, refusals_limit, List.append_nil, Nat.add_sub_cancel_left,
    List.range'_eq_map_range, List.foldlM_map, splits]

/-- Filling a span refuses what closing its constituents refuses. -/
theorem refusals_spanFilling {diagonals : Array (Array (Cell σ))} {first last : Nat}
    (ordered : first ≤ last) (inside : last < words.length)
    (parts : HoldsParts grammar beam words diagonals first (last - first)) :
    refusals (spanFilling grammar beam words diagonals first last) =
      refusals (Cell.close grammar .empty
        (constituents grammar beam (slice words first (last - first)))) := by
  unfold spanFilling
  split
  next wide =>
    have combined := refusals_combinedCell (by omega) (by omega) parts beam
    rwa [Nat.add_sub_cancel' ordered] at combined
  next single =>
    obtain rfl : first = last := by omega
    rw [List.getElem?_eq_getElem inside, Nat.sub_self, slice_zero inside]
    exact refusals_lexicalCell first words[first]

theorem refusals_fill (grammar : Grammar σ) (beam : Option Int) (words : List String) :
    refusals (fill grammar beam words) = (schedule words.length).flatMap fun span =>
      refusals (Cell.close grammar .empty
        (constituents grammar beam (slice words span.1 (span.2 - span.1)))) := by
  rw [refusals, work_fill, List.filterMap_flatMap]
  apply List.flatMap_congr
  intro span member
  obtain ⟨ordered, inside⟩ := mem_schedule_iff.1 member
  have parts : HoldsParts grammar beam words (fill grammar beam words).value.diagonals span.1
      (span.2 - span.1) := holdsParts_fill grammar beam (by omega)
  exact refusals_spanFilling ordered inside parts

end Chart

end ChartParse
