import ChartParse.Proofs.Chart.Record

/-!
What the lexical and the binary rules offer to the cells of a chart, read off its record.

Main statement: a chart offers the constituents of each span, in their order, one span after another
in the order of the schedule (`offers_fill`), and the events say of a span of one word that it was a
lexical rule that offered, and of a wider one that it was a binary rule (`seen_fill`).
-/

namespace ChartParse

variable {σ γ : Type}

/-- The derivation that an event says a lexical or a binary rule has offered to a cell, if it says
so. -/
def Event.offered? : Event σ → Option (Derivation σ)
  | lexical offered => some offered
  | combined offered => some offered
  | _ => none

/-- All that the lexical and the binary rules have offered, in order. -/
abbrev offers {α : Type} (traced : Traced (Event σ) α) : List (Derivation σ) :=
  traced.seen Event.offered?

/-- The event of an offer to the cell of a span. -/
def Event.ofOffer (first last : Nat) (offer : Derivation σ) : Event σ :=
  if first < last then .combined offer else .lexical offer

/-- A view that sees nothing but offers. -/
def SeesOffers (view : Event σ → Option γ) : Prop :=
  ∀ event, event.offered? = none → view event = none

theorem SeesOffers.seen_eq_nil {α : Type} {view : Event σ → Option γ} (sees : SeesOffers view)
    {traced : Traced (Event σ) α} (nothing : offers traced = []) : traced.seen view = [] := by
  rw [offers, Traced.seen, List.filterMap_eq_nil_iff] at nothing
  rw [Traced.seen, List.filterMap_eq_nil_iff]
  exact fun event member => sees event (nothing event member)

section Cells

variable [Add σ] [LT σ] [DecidableLT σ] (grammar : Grammar σ)

/-- Closing a cell applies unary rules only. -/
theorem Cell.offers_close (cell : Cell σ) (agenda : List (Derivation σ)) :
    offers (cell.close grammar agenda) = [] := by
  fun_induction Cell.close grammar cell agenda with
  | case1 cell => rfl
  | case2 cell offered pending _ ih => exact ih
  | case3 cell offered pending _ ih => simpa [Event.offered?] using ih
  | case4 cell offered pending _ ih => simpa [Event.offered?] using ih

theorem Cell.offers_add (cell : Cell σ) (offered : Derivation σ) :
    offers (cell.add grammar offered) = [] := by
  rw [offers, Traced.seen, work_add]
  exact offers_close grammar cell [offered]

end Cells

namespace Chart

variable [LT σ] [DecidableLT σ]

theorem offers_limit (beam : Option Int) (first last : Nat) (cell : Cell σ) :
    offers (limit beam first last cell) = [] := by
  unfold limit
  cases beam with
  | none => rfl
  | some width =>
    simp only
    split <;> rfl

variable [Add σ] {grammar : Grammar σ} {view : Event σ → Option γ}

theorem seen_offerBinary (sees : SeesOffers view) (left right cell : Cell σ) (rule : Rule σ) :
    (offerBinary grammar left right cell rule).seen view =
      ((binaryConstituent? left right rule).bind (view <| .combined ·)).toList := by
  obtain ⟨lhs, rhs, weight⟩ := rule
  match rhs with
  | [] | [_] | _ :: _ :: _ :: _ => simp [offerBinary, binaryConstituent?]
  | [leftLabel, rightLabel] =>
    cases onLeft : left.get? leftLabel with
    | none => simp [offerBinary, binaryConstituent?, onLeft]
    | some leftBest =>
      cases onRight : right.get? rightLabel with
      | none => simp [offerBinary, binaryConstituent?, onLeft, onRight]
      | some rightBest =>
        simp only [offerBinary, binaryConstituent?, onLeft, onRight, Option.bind_eq_bind,
          Option.bind_some, Option.pure_def, Traced.seen_bind, Traced.seen_record,
          sees.seen_eq_nil (Cell.offers_add ..), List.nil_append]
        split <;> simp [sees (.stored ..) rfl]

theorem seen_offerSplit (sees : SeesOffers view) {diagonals : Array (Array (Cell σ))}
    {first last mid : Nat} {left right : Cell σ} (cell : Cell σ)
    (onLeft : cellIn diagonals first mid = some left)
    (onRight : cellIn diagonals (mid + 1) last = some right) :
    (offerSplit grammar diagonals first last cell mid).seen view =
      (grammar.binaryRules.filterMap (binaryConstituent? left right)).filterMap
        (view <| .combined ·) := by
  simp only [offerSplit, onLeft, onRight, Traced.seen_bind, Traced.seen_record,
    sees (.children ..) rfl, Option.toList_none, List.nil_append]
  split
  next bare =>
    rw [filterMap_binaryConstituent?_eq_nil _ bare, List.filterMap_nil, Traced.seen_pure]
  next =>
    rw [List.filterMap_filterMap, List.filterMap_eq_flatMap_toList]
    exact Traced.seen_foldlM (fun rule _ cell => seen_offerBinary sees left right cell rule) cell

variable [Zero σ] {beam : Option Int} {words : List String}

theorem seen_lexicalCell (sees : SeesOffers view) (position : Nat) (word : String) :
    (lexicalCell grammar beam position word).seen view =
      (constituents grammar beam [word]).filterMap (view <| .lexical ·) := by
  have listed : ((grammar.lexicalRulesFor word).foldlM (offerLexical grammar word) .empty).seen
      view = (constituents grammar beam [word]).filterMap (view <| .lexical ·) := by
    rw [constituents, List.filterMap_map, List.filterMap_eq_flatMap_toList]
    refine Traced.seen_foldlM (fun rule _ cell => ?_) _
    simp [offerLexical, sees.seen_eq_nil (Cell.offers_add ..)]
  simp only [lexicalCell, Traced.seen_bind, Traced.seen_record, sees (.filling ..) rfl,
    Option.toList_none, List.nil_append, listed]
  split <;> simp [sees (.uncovered ..) rfl, sees.seen_eq_nil (offers_limit ..)]

theorem seen_combinedCell (sees : SeesOffers view) {diagonals : Array (Array (Cell σ))}
    {first reach : Nat} (wide : 0 < reach) (inside : first + reach < words.length)
    (parts : HoldsParts grammar beam words diagonals first reach) (limits : Option Int) :
    (combinedCell grammar limits diagonals first (first + reach)).seen view =
      (constituents grammar beam (slice words first reach)).filterMap (view <| .combined ·) := by
  have splits : ((List.range reach).foldlM (fun cell cut =>
        offerSplit grammar diagonals first (first + reach) cell (first + cut)) .empty).seen view =
      (constituents grammar beam (slice words first reach)).filterMap (view <| .combined ·) := by
    rw [constituents_slice grammar beam wide inside, List.filterMap_flatMap]
    refine Traced.seen_foldlM (fun cut member cell => ?_) _
    obtain ⟨onLeft, onRight⟩ := parts cut (List.mem_range.1 member)
    exact seen_offerSplit sees cell onLeft onRight
  simp only [combinedCell, Traced.seen_bind, Traced.seen_record, sees (.filling ..) rfl,
    Option.toList_none, List.nil_append, sees.seen_eq_nil (offers_limit ..), List.append_nil,
    Nat.add_sub_cancel_left, List.range'_eq_map_range, List.foldlM_map, splits]

/-- Filling a span offers the constituents of its words. -/
theorem seen_spanFilling (sees : SeesOffers view) {diagonals : Array (Array (Cell σ))}
    {first last : Nat} (ordered : first ≤ last) (inside : last < words.length)
    (parts : HoldsParts grammar beam words diagonals first (last - first)) :
    (spanFilling grammar beam words diagonals first last).seen view =
      (constituents grammar beam (slice words first (last - first))).filterMap
        (view <| .ofOffer first last ·) := by
  unfold spanFilling Event.ofOffer
  split
  next wide =>
    have combined := seen_combinedCell sees (by omega) (by omega) parts beam
    rwa [Nat.add_sub_cancel' ordered] at combined
  next single =>
    obtain rfl : first = last := by omega
    rw [List.getElem?_eq_getElem inside, Nat.sub_self, slice_zero inside]
    exact seen_lexicalCell sees first words[first]

theorem seen_fill (sees : SeesOffers view) (grammar : Grammar σ) (beam : Option Int)
    (words : List String) :
    (fill grammar beam words).seen view = (schedule words.length).flatMap fun span =>
      (constituents grammar beam (slice words span.1 (span.2 - span.1))).filterMap
        (view <| .ofOffer span.1 span.2 ·) := by
  rw [Traced.seen, work_fill, List.filterMap_flatMap]
  apply List.flatMap_congr
  intro span member
  obtain ⟨ordered, inside⟩ := mem_schedule_iff.1 member
  have parts : HoldsParts grammar beam words (fill grammar beam words).value.diagonals span.1
      (span.2 - span.1) := holdsParts_fill grammar beam (by omega)
  exact seen_spanFilling sees ordered inside parts

theorem offers_fill (grammar : Grammar σ) (beam : Option Int) (words : List String) :
    offers (fill grammar beam words) = (schedule words.length).flatMap fun span =>
      constituents grammar beam (slice words span.1 (span.2 - span.1)) := by
  have offered (first last : Nat) (offer : Derivation σ) :
      (Event.ofOffer first last offer).offered? = some offer := by
    unfold Event.ofOffer
    split <;> rfl
  rw [offers, seen_fill (fun _ nothing => nothing)]
  simp only [offered, List.filterMap_some]

end Chart

end ChartParse
