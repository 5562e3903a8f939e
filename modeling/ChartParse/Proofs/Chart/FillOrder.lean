import ChartParse.Proofs.Chart.Soundness

/-!
What the cell of a span depends on: the words of the span and nothing else.

The words around the span make no difference, nor does the order in which the spans of a sentence
are filled. An order is any list of all spans that has the parts of a span before the span itself
(`BottomUp`). Going by the list, a table with a place for every span is filled in place, and each
step writes to the place of its own span only. The order by width, in which a chart is filled, is one
such order (`bottomUp_schedule`).
-/

namespace ChartParse.Chart

variable {σ : Type}

/-! ### Orders of spans -/

/-- A span lies inside another one and is shorter. -/
def Within (inner outer : Nat × Nat) : Prop :=
  outer.1 ≤ inner.1 ∧ inner.2 ≤ outer.2 ∧ (outer.1 < inner.1 ∨ inner.2 < outer.2)

instance : DecidableRel Within := fun _ _ => inferInstanceAs (Decidable (_ ∧ _ ∧ _))

theorem within_iff {start finish first last : Nat} : Within (start, finish) (first, last) ↔
    first ≤ start ∧ finish ≤ last ∧ (first < start ∨ finish < last) := Iff.rfl

/-- An order in which all spans of a sentence can be filled, each after its parts. -/
structure BottomUp (words : Nat) (order : List (Nat × Nat)) : Prop where
  spans : order.Perm (schedule words)
  partsFirst : order.Pairwise fun earlier later => ¬ Within later earlier

theorem mem_schedule_iff {words first last : Nat} :
    (first, last) ∈ schedule words ↔ first ≤ last ∧ last < words := by
  simp only [schedule, List.mem_flatMap, List.mem_map, List.mem_range, Prod.mk.injEq]
  constructor
  · rintro ⟨reach, _, start, _, rfl, rfl⟩
    omega
  · rintro ⟨ordered, inside⟩
    exact ⟨last - first, by omega, first, by omega, rfl, by omega⟩

/-- The spans of one word come first in the schedule. -/
theorem schedule_eq (words : Nat) :
    schedule words = (List.range words).map (fun first => (first, first)) ++
      (List.range' 1 (words - 1)).flatMap fun reach =>
        (List.range (words - reach)).map fun first => (first, first + reach) := by
  cases words with
  | zero => rfl
  | succ count =>
    have reaches : List.range (count + 1) = 0 :: List.range' 1 count := by
      rw [List.range_eq_range', List.range'_succ]
    rw [schedule, Nat.add_sub_cancel]
    conv_lhs => rw [reaches, List.flatMap_cons]
    rfl

theorem bottomUp_schedule (words : Nat) : BottomUp words (schedule words) where
  spans := .refl _
  partsFirst := by
    -- No span lies inside another that reaches no further.
    have apart (start first : Nat) {less more : Nat} (ordered : less ≤ more) :
        ¬ Within (first, first + more) (start, start + less) := by
      rw [within_iff]
      omega
    rw [schedule, List.pairwise_flatMap]
    constructor
    · intro reach _
      rw [List.pairwise_map]
      exact List.pairwise_of_forall fun start first => apart start first (Nat.le_refl reach)
    · refine List.pairwise_lt_range.imp fun {less more} narrower => ?_
      intro earlier isEarlier later isLater
      obtain ⟨start, _, rfl⟩ := List.mem_map.1 isEarlier
      obtain ⟨first, _, rfl⟩ := List.mem_map.1 isLater
      exact apart start first (Nat.le_of_lt narrower)

theorem nodup_schedule (words : Nat) : (schedule words).Nodup := by
  rw [schedule, List.nodup_flatMap]
  constructor
  · intro reach _
    exact List.nodup_range.map fun start first same => (Prod.mk.inj same).1
  · refine List.pairwise_lt_range.imp fun {less more} narrower span isNarrow isWide => ?_
    obtain ⟨start, _, rfl⟩ := List.mem_map.1 isNarrow
    obtain ⟨first, _, same⟩ := List.mem_map.1 isWide
    obtain ⟨rfl, reaches⟩ := Prod.mk.inj same
    omega

/-- The parts of a span come before it. -/
theorem BottomUp.mem_of_within {words : Nat} {order front rest : List (Nat × Nat)}
    {span : Nat × Nat} (bottomUp : BottomUp words order) (split : front ++ span :: rest = order)
    {start finish : Nat} (low : start ≤ finish) (within : Within (start, finish) span) :
    (start, finish) ∈ front := by
  subst split
  have listed (first last : Nat) :
      (first, last) ∈ front ++ span :: rest ↔ first ≤ last ∧ last < words := by
    rw [bottomUp.spans.mem_iff, mem_schedule_iff]
  obtain ⟨ordered, inside⟩ := (listed span.1 span.2).1 (by simp)
  have member := (listed start finish).2 ⟨low, by have := within.2.1; simp only at this; omega⟩
  -- A part that came after the span would be out of order.
  have later := (List.pairwise_append.1 bottomUp.partsFirst).2.1
  rw [List.pairwise_cons] at later
  rcases List.mem_append.1 member with earlier | notEarlier
  · exact earlier
  · rcases List.mem_cons.1 notEarlier with rfl | after
    · have := within_iff.1 within
      omega
    · exact absurd within (later.1 _ after)

/-! ### Filling in place -/

/-- A table with an empty cell for every span of so many words. -/
def blank (words : Nat) : Array (Array (Cell σ)) :=
  ((List.range words).map fun reach => Array.replicate (words - reach) Cell.empty).toArray

/-- Puts a cell in the place of a span. -/
def write (diagonals : Array (Array (Cell σ))) (span : Nat × Nat) (cell : Cell σ) :
    Array (Array (Cell σ)) :=
  diagonals.modify (span.2 - span.1) (·.setIfInBounds span.1 cell)

theorem isSome_cellIn_blank {words first last : Nat} (ordered : first ≤ last)
    (inside : last < words) : (cellIn (blank words : Array (Array (Cell σ))) first last).isSome := by
  have diagonal : last - first < words := by omega
  have place : first < words - (last - first) := by omega
  simp [cellIn, blank, Nat.not_lt.2 ordered, diagonal, place]

/-- Writing to the place of a span changes what the table holds for that span only. -/
theorem cellIn_write (diagonals : Array (Array (Cell σ))) (span : Nat × Nat) (cell : Cell σ)
    {first last : Nat} (ordered : span.1 ≤ span.2) (there : (cellIn diagonals first last).isSome) :
    cellIn (write diagonals span cell) first last =
      if span = (first, last) then some cell else cellIn diagonals first last := by
  obtain ⟨start, finish⟩ := span
  by_cases reversed : last < first
  · simp [cellIn, reversed] at there
  obtain ⟨diagonal, found⟩ : ∃ diagonal, diagonals[last - first]? = some diagonal := by
    cases found : diagonals[last - first]? with
    | none => simp [cellIn, reversed, found] at there
    | some diagonal => exact ⟨diagonal, rfl⟩
  have room : first < diagonal.size := by
    simpa [cellIn, reversed, found] using there
  have before : cellIn diagonals first last = diagonal[first]? := by
    simp [cellIn, reversed, found]
  by_cases width : finish - start = last - first
  · -- The span that is written is on the same diagonal.
    have after : cellIn (write diagonals (start, finish) cell) first last =
        (diagonal.setIfInBounds start cell)[first]? := by
      simp [cellIn, write, reversed, width, Array.getElem?_modify, found]
    rw [after, before, Array.getElem?_setIfInBounds]
    by_cases place : start = first
    · obtain rfl : finish = last := by simp only at ordered; omega
      simp [place, room]
    · simp [place]
  · have after : cellIn (write diagonals (start, finish) cell) first last =
        diagonal[first]? := by
      simp [cellIn, write, reversed, width, Array.getElem?_modify, found]
    have apart : (start, finish) ≠ (first, last) := by
      rintro ⟨⟩
      exact width rfl
    rw [after, before, if_neg apart]

variable [LT σ] [DecidableLT σ] [Zero σ] [Add σ]

/-- Fills the cell of a span: from the lexical rules if it is one word, and else from the cells that
the table holds for its parts. -/
def spanFilling (grammar : Grammar σ) (beam : Option Int) (words : List String)
    (diagonals : Array (Array (Cell σ))) (first last : Nat) : Traced (Event σ) (Cell σ) :=
  if first < last then combinedCell grammar beam diagonals first last
  else match words[first]? with
    | some word => lexicalCell grammar beam first word
    | none => pure .empty

def fillSpan (grammar : Grammar σ) (beam : Option Int) (words : List String)
    (diagonals : Array (Array (Cell σ))) (span : Nat × Nat) : Array (Array (Cell σ)) :=
  write diagonals span (spanFilling grammar beam words diagonals span.1 span.2).value

/-- The table of a sentence after its spans have been filled in place in the given order. -/
def fillInOrder (grammar : Grammar σ) (beam : Option Int) (words : List String)
    (order : List (Nat × Nat)) : Array (Array (Cell σ)) :=
  order.foldl (fillSpan grammar beam words) (blank words.length)

/-- Filling a span from a table that holds the cells of its parts closes the constituents of its
words, and only then is the beam applied. -/
theorem value_spanFilling_of_parts {grammar : Grammar σ} {beam : Option Int}
    {words : List String} {diagonals : Array (Array (Cell σ))} {first last : Nat}
    (ordered : first ≤ last) (inside : last < words.length)
    (parts : HoldsParts grammar beam words diagonals first (last - first))
    (limits : Option Int) :
    (spanFilling grammar limits words diagonals first last).value =
      limited limits (Cell.close grammar .empty
        (constituents grammar beam (slice words first (last - first)))).value := by
  unfold spanFilling
  split
  next wide =>
    have length : (slice words first (last - first)).length = last - first + 1 :=
      length_slice (by omega)
    have combined := value_combinedCell_of_parts parts limits
    have closed : _ = (Cell.close grammar .empty
        (constituents grammar beam (slice words first (last - first)))).value :=
      foldl_combine grammar beam (by omega)
    rw [length, Nat.add_sub_cancel] at closed
    rw [closed, Nat.add_sub_cancel' ordered] at combined
    exact combined
  next single =>
    obtain rfl : first = last := by omega
    rw [List.getElem?_eq_getElem inside, Nat.sub_self, slice_zero inside]
    simp only [value_lexicalCell, value_foldlM_offerLexical grammar beam]

theorem value_spanFilling {grammar : Grammar σ} {beam : Option Int} {words : List String}
    {diagonals : Array (Array (Cell σ))} {first last : Nat} (ordered : first ≤ last)
    (inside : last < words.length)
    (parts : HoldsParts grammar beam words diagonals first (last - first)) :
    (spanFilling grammar beam words diagonals first last).value =
      cellOf grammar beam (slice words first (last - first)) := by
  rw [value_spanFilling_of_parts ordered inside parts beam,
    cellOf_eq grammar beam (slice_ne_nil ordered inside)]

/-- The table has a place for every span, and those of the given spans hold the cells of their
words. -/
structure Progress (grammar : Grammar σ) (beam : Option Int) (words : List String)
    (filled : List (Nat × Nat)) (diagonals : Array (Array (Cell σ))) : Prop where
  places : ∀ first last, first ≤ last → last < words.length → (cellIn diagonals first last).isSome
  cells : ∀ first last, (first, last) ∈ filled →
    cellIn diagonals first last = some (cellOf grammar beam (slice words first (last - first)))

theorem progress_blank (grammar : Grammar σ) (beam : Option Int) (words : List String) :
    Progress grammar beam words [] (blank words.length) where
  places _ _ := isSome_cellIn_blank
  cells _ _ member := absurd member List.not_mem_nil

theorem Progress.holdsParts {grammar : Grammar σ} {beam : Option Int} {words : List String}
    {filled : List (Nat × Nat)} {diagonals : Array (Array (Cell σ))}
    (progress : Progress grammar beam words filled diagonals) {first last : Nat}
    (parts : ∀ start finish, start ≤ finish → Within (start, finish) (first, last) →
      (start, finish) ∈ filled) :
    HoldsParts grammar beam words diagonals first (last - first) := by
  intro cut member
  have left := progress.cells first (first + cut)
    (parts _ _ (by omega) (within_iff.2 (by omega)))
  have right := progress.cells (first + cut + 1) last
    (parts _ _ (by omega) (within_iff.2 (by omega)))
  rw [Nat.add_sub_cancel_left] at left
  rw [show last - (first + cut + 1) = last - first - cut - 1 by omega] at right
  rw [show first + (last - first) = last by omega]
  exact ⟨left, right⟩

/-- Filling a span whose parts have been filled is progress: the span now holds the cell of its
words, and no other span is touched. -/
theorem Progress.fillSpan {grammar : Grammar σ} {beam : Option Int} {words : List String}
    {filled : List (Nat × Nat)} {diagonals : Array (Array (Cell σ))}
    (progress : Progress grammar beam words filled diagonals) {span : Nat × Nat}
    (ordered : span.1 ≤ span.2) (inside : span.2 < words.length)
    (parts : ∀ start finish, start ≤ finish → Within (start, finish) span →
      (start, finish) ∈ filled) :
    Progress grammar beam words (filled ++ [span])
      (fillSpan grammar beam words diagonals span) := by
  have cell := value_spanFilling ordered inside (progress.holdsParts parts)
  have written {first last : Nat} (there : (cellIn diagonals first last).isSome) :
      cellIn (Chart.fillSpan grammar beam words diagonals span) first last =
        if span = (first, last) then
          some (cellOf grammar beam (slice words span.1 (span.2 - span.1)))
        else cellIn diagonals first last := by
    rw [Chart.fillSpan, cellIn_write diagonals span _ ordered there, cell]
  constructor
  · intro first last low high
    have there := progress.places first last low high
    rw [written there]
    split
    · rfl
    · exact there
  · intro first last member
    by_cases same : span = (first, last)
    · subst same
      rw [written (progress.places first last ordered inside), if_pos rfl]
    · have earlier : (first, last) ∈ filled := by
        rcases List.mem_append.1 member with earlier | now
        · exact earlier
        · exact absurd (List.mem_singleton.1 now).symm same
      have held := progress.cells first last earlier
      rw [written (by rw [held]; rfl), if_neg same, held]

/-- Going through an order that has the parts of each span first, one span after another makes
progress until all have been filled. -/
theorem progress_foldl {grammar : Grammar σ} {beam : Option Int} {words : List String}
    {order : List (Nat × Nat)} (bottomUp : BottomUp words.length order)
    (filled pending : List (Nat × Nat)) (split : filled ++ pending = order)
    {diagonals : Array (Array (Cell σ))}
    (progress : Progress grammar beam words filled diagonals) :
    Progress grammar beam words order
      (pending.foldl (fillSpan grammar beam words) diagonals) := by
  induction pending generalizing filled diagonals with
  | nil =>
    rw [List.append_nil] at split
    exact split ▸ progress
  | cons span rest ih =>
    subst split
    obtain ⟨ordered, inside⟩ := mem_schedule_iff.1
      (bottomUp.spans.mem_iff.1 (List.mem_append_right filled List.mem_cons_self))
    have parts (start finish : Nat) (low : start ≤ finish)
        (within : Within (start, finish) span) : (start, finish) ∈ filled :=
      bottomUp.mem_of_within rfl low within
    have next := progress.fillSpan ordered inside parts
    exact ih (filled ++ [span]) (by simp) next

/-- In whatever order the spans are filled, the table comes to hold the cells of their words. -/
theorem cellIn_fillInOrder {grammar : Grammar σ} {beam : Option Int} {words : List String}
    {order : List (Nat × Nat)} (bottomUp : BottomUp words.length order) {first last : Nat}
    (ordered : first ≤ last) (inside : last < words.length) :
    cellIn (fillInOrder grammar beam words order) first last =
      some (cellOf grammar beam (slice words first (last - first))) := by
  have done := progress_foldl bottomUp [] order rfl (progress_blank grammar beam words)
  have member := bottomUp.spans.mem_iff.2 (mem_schedule_iff.2 ⟨ordered, inside⟩)
  exact done.cells first last member

/-! ### Main result -/

theorem slice_slice (words : List String) (first reach : Nat) :
    slice (slice words first reach) 0 reach = slice words first reach := by
  rw [slice, slice, List.drop_zero, List.take_take, Nat.min_self]

/-- The cell of a span depends on the words of the span only: it is the same in the chart of any
sentence in which they stand, among others in that of the span alone, and in whatever order the
spans of the sentence are filled in place. -/
theorem cell_of_own_words (grammar : Grammar σ) (width : Option Int) (words : List String)
    {first last : Nat} (ordered : first ≤ last) (inside : last < words.length) :
    ∃ cell, (fill grammar (width.bind beamOfWidth) words).value.cell first last = .ok cell ∧
      (fill grammar (width.bind beamOfWidth) (slice words first (last - first))).value.cell
        0 (last - first : Nat) = .ok cell ∧
      ∀ order, BottomUp words.length order →
        cellIn (fillInOrder grammar (width.bind beamOfWidth) words order) first last =
          some cell := by
  refine ⟨_, cell_fill_eq_ok_iff.2 ⟨⟨ordered, inside⟩, rfl⟩, ?_, ?_⟩
  · have alone : last - first < (slice words first (last - first)).length := by
      rw [length_slice (by omega)]
      omega
    have asked : (fill grammar (width.bind beamOfWidth)
        (slice words first (last - first))).value.cell (0 : Nat) (last - first : Nat) = _ :=
      cell_fill_eq_ok_iff.2 ⟨⟨Nat.zero_le _, alone⟩, rfl⟩
    rwa [Nat.sub_zero, slice_slice] at asked
  · intro order bottomUp
    exact cellIn_fillInOrder bottomUp ordered inside

/-- The words `a b` make the same cell alone and behind another word, also when the spans are filled
from right to left instead of by width. -/
theorem cell_of_own_words_crowded :
    let words := ["b", "a", "b"]
    let leftward := [(2, 2), (1, 1), (1, 2), (0, 0), (0, 1), (0, 2)]
    (1 ≤ 2 ∧ 2 < words.length ∧ BottomUp words.length leftward) ∧
    ∃ cell, cell.labels = ["S"] ∧
      (fill crowded (some 1) words).value.cell 1 2 = .ok cell ∧
      (fill crowded (some 1) ["a", "b"]).value.cell 0 1 = .ok cell ∧
      cellIn (fillInOrder crowded (some 1) words leftward) 1 2 = some cell := by
  intro words leftward
  have bottomUp : BottomUp words.length leftward := ⟨by decide, by decide⟩
  have ordered : 1 ≤ 2 := by decide
  have inside : 2 < words.length := by decide
  obtain ⟨cell, within, alone, inOrder⟩ := cell_of_own_words crowded (some 1) words ordered inside
  have labels : (cellOf crowded (some 1) ["a", "b"]).labels = ["S"] := by cbv
  obtain ⟨_, rfl⟩ := cell_fill_eq_ok_iff.1 alone
  exact ⟨⟨ordered, inside, bottomUp⟩, _, labels, within, alone, inOrder leftward bottomUp⟩

end ChartParse.Chart
