import ChartParse.Proofs.Chart.Draft
import ChartParse.Proofs.Chart.Record

/-!
Charts that are filled in place.

Filling the cell of a span where it stands leaves what the chart computes for the span, if the cells
of the parts have been filled before (`run_fillAt`). The two loops go through the spans in the order
of the schedule (`fillRows_eq`), which has the parts of a span before it.

Main statements: `run_fillRows` and `run_bestParse`. Neither filling in place nor asking for the best
parse is ever broken off, they give what the chart gives, and every access is known.
-/

namespace ChartParse.Chart.Draft

variable {σ : Type}

/-! ### Filling one span -/

/-- A look into the cells of the two parts of a span. -/
def lookups (first mid last : Nat) : List Access :=
  [.looked first last (placeOf first mid), .looked first last (placeOf (mid + 1) last)]

/-- The accesses of a split between two cells. -/
def splitAccesses (grammar : Grammar σ) (left right : Cell σ) (first mid last : Nat) :
    List Access :=
  [.asked first mid, .asked (mid + 1 : Nat) last, .split first mid last] ++
    lookups first mid last ++
      if left.isEmpty || right.isEmpty then []
      else grammar.binaryRules.flatMap fun _ =>
        lookups first mid last ++ [.revised (placeOf first last)]

section Filling

variable [LT σ] [DecidableLT σ] [Add σ] {grammar : Grammar σ} {draft : Draft σ}
  {done : Traced (Event σ) (Cell σ)} {accesses : List Access}

/-- The parts of a span are in other places than the span. -/
theorem placeOf_parts_ne {first mid last : Nat} (low : first ≤ mid) (high : mid < last) :
    placeOf first mid ≠ placeOf first last ∧ placeOf (mid + 1) last ≠ placeOf first last := by
  simp only [placeOf, ne_eq, Place.mk.injEq]
  omega

theorem run_tryRule {first mid last : Nat} {left right : Cell σ} (low : first ≤ mid)
    (high : mid < last) (own : (at? draft.rows (placeOf first last)).isSome)
    (onLeft : at? draft.rows (placeOf first mid) = some left)
    (onRight : at? draft.rows (placeOf (mid + 1) last) = some right) (rule : Rule σ) :
    (tryRule grammar (placeOf first last) (placeOf first mid) (placeOf (mid + 1) last) first last
        rule).run.run (draft.extend (placeOf first last) done accesses) =
      (.ok (), draft.extend (placeOf first last)
        (done >>= (offerBinary grammar left right · rule))
        (accesses ++ (lookups first mid last ++ [.revised (placeOf first last)]))) := by
  obtain ⟨leftApart, rightApart⟩ := placeOf_parts_ne low high
  rw [tryRule, run_bind_of_ok (run_look leftApart onLeft),
    run_bind_of_ok (run_look rightApart onRight), run_revise own]
  simp [lookups]

theorem run_trySplit {diagonals : Array (Array (Cell σ))} {words first mid last : Nat}
    {left right : Cell σ} (low : first ≤ mid) (high : mid < last) (inside : last < words)
    (own : (at? draft.rows (placeOf first last)).isSome)
    (onLeft : at? draft.rows (placeOf first mid) = some left)
    (onRight : at? draft.rows (placeOf (mid + 1) last) = some right)
    (leftHeld : cellIn diagonals first mid = some left)
    (rightHeld : cellIn diagonals (mid + 1) last = some right) :
    (trySplit grammar words (placeOf first last) first last mid).run.run
        (draft.extend (placeOf first last) done accesses) =
      (.ok (), draft.extend (placeOf first last)
        (done >>= (offerSplit grammar diagonals first last · mid))
        (accesses ++ splitAccesses grammar left right first mid last)) := by
  obtain ⟨leftApart, rightApart⟩ := placeOf_parts_ne low high
  rw [trySplit, run_bind_of_ok (run_ask low (by omega : mid < words) (by rw [onLeft]; rfl)),
    run_bind_of_ok (run_ask high inside (by rw [onRight]; rfl)),
    run_bind_of_ok (run_record _), run_bind_of_ok (run_note _),
    run_bind_of_ok (run_look leftApart onLeft),
    run_bind_of_ok (run_look rightApart onRight)]
  simp only [offerSplit, leftHeld, rightHeld, splitAccesses]
  split
  next =>
    simp [lookups]
    rfl
  next =>
    rw [run_forM fun rule _ done accesses => run_tryRule low high own onLeft onRight rule]
    simp [lookups]

variable [Zero σ] {beam : Option Int} {words : List String} {first last : Nat}

/-- The cell that a chart holds for a span. -/
abbrev spanCell (grammar : Grammar σ) (beam : Option Int) (words : List String)
    (first last : Nat) : Cell σ :=
  cellOf grammar beam (slice words first (last - first))

theorem cellIn_fill (grammar : Grammar σ) (beam : Option Int) (ordered : first ≤ last)
    (inside : last < words.length) :
    cellIn (fill grammar beam words).value.diagonals first last =
      some (spanCell grammar beam words first last) := by
  have held : (fill grammar beam words).value.cell? first (first + (last - first)) = _ :=
    cell?_fill grammar beam (by omega)
  rwa [Nat.add_sub_cancel' ordered] at held

/-- The accesses of filling a wide span, up to the note that it has been filled. -/
def wideAccesses (grammar : Grammar σ) (beam : Option Int) (words : List String)
    (first last : Nat) : List Access :=
  [.asked first last] ++
    (List.range' first (last - first)).flatMap (fun mid =>
      splitAccesses grammar (spanCell grammar beam words first mid)
        (spanCell grammar beam words (mid + 1) last) first mid last) ++
    [.revised (placeOf first last)]

/-- The accesses of filling a span of one word, likewise. -/
def wordAccesses (grammar : Grammar σ) (position : Nat) (word : String) : List Access :=
  let own := placeOf position position
  [.asked position position] ++
    (grammar.lexicalRulesFor word).flatMap (fun _ => [.revised own]) ++
    [.revised own, .revised own]

/-- A draft that has the cells of the parts of a span. -/
def HasParts (grammar : Grammar σ) (beam : Option Int) (words : List String) (first last : Nat)
    (draft : Draft σ) : Prop :=
  ∀ mid, first ≤ mid → mid < last →
    at? draft.rows (placeOf first mid) = some (spanCell grammar beam words first mid) ∧
      at? draft.rows (placeOf (mid + 1) last) = some (spanCell grammar beam words (mid + 1) last)

theorem run_forM_trySplit (parts : draft.HasParts grammar beam words first last)
    (inside : last < words.length) (own : (at? draft.rows (placeOf first last)).isSome) :
    (forM (List.range' first (last - first))
        (trySplit grammar words.length (placeOf first last) first last)).run.run
        (draft.extend (placeOf first last) done accesses) =
      (.ok (), draft.extend (placeOf first last)
        (done >>= fun cell => (List.range' first (last - first)).foldlM
          (offerSplit grammar (fill grammar beam words).value.diagonals first last) cell)
        (accesses ++ (List.range' first (last - first)).flatMap fun mid =>
          splitAccesses grammar (spanCell grammar beam words first mid)
            (spanCell grammar beam words (mid + 1) last) first mid last)) := by
  refine run_forM fun mid member done accesses => ?_
  obtain ⟨low, high⟩ := List.mem_range'_1.1 member
  obtain ⟨onLeft, onRight⟩ := parts mid low (by omega)
  exact run_trySplit low (by omega) inside own onLeft onRight
    (cellIn_fill grammar beam low (by omega)) (cellIn_fill grammar beam (by omega) inside)

theorem run_fillWide (parts : draft.HasParts grammar beam words first last)
    (wide : first < last) (inside : last < words.length)
    (own : at? draft.rows (placeOf first last) = some .empty) :
    (fillWide grammar beam words.length first last).run.run draft =
      (.ok (), draft.extend (placeOf first last)
        (combinedCell grammar beam (fill grammar beam words).value.diagonals first last)
        (wideAccesses grammar beam words first last ++ [.filled first last])) := by
  have there : (at? draft.rows (placeOf first last)).isSome := by rw [own]; rfl
  conv_lhs => rw [← extend_pure own]
  rw [fillWide, run_bind_of_ok (run_ask (Nat.le_of_lt wide) inside there),
    run_bind_of_ok (run_record _), run_bind_of_ok (run_forM_trySplit parts inside there),
    run_bind_of_ok (run_revise there _), run_note]
  simp [combinedCell, wideAccesses]

theorem run_fillWord {position : Nat} {word : String} (inside : position < words.length)
    (own : at? draft.rows (placeOf position position) = some .empty) :
    (fillWord grammar beam words.length position word).run.run draft =
      (.ok (), draft.extend (placeOf position position) (lexicalCell grammar beam position word)
        (wordAccesses grammar position word ++ [.filled position position])) := by
  have there : (at? draft.rows (placeOf position position)).isSome := by rw [own]; rfl
  conv_lhs => rw [← extend_pure own]
  rw [fillWord, run_bind_of_ok (run_ask (Nat.le_refl position) inside there),
    run_bind_of_ok (run_record _),
    run_bind_of_ok (run_forM fun rule _ done accesses => run_revise there _),
    run_bind_of_ok (run_revise there _), run_bind_of_ok (run_revise there _), run_note]
  have mentioned (cell : Cell σ) :
      (do
        if cell.isEmpty then Traced.record (.uncovered position word)
        return cell : Traced (Event σ) (Cell σ)) >>= limit beam position position =
      (do
        if cell.isEmpty then Traced.record (.uncovered position word)
        limit beam position position cell) := by
    split <;> simp
  simp only [bind_assoc, mentioned, lexicalCell, wordAccesses, pure_bind, List.append_assoc,
    List.nil_append, List.cons_append]

/-! ### Filling all spans -/

/-- Fills the cell of any span. -/
def fillAt (grammar : Grammar σ) (beam : Option Int) (words : List String) (span : Nat × Nat) :
    Program σ Unit :=
  if span.1 < span.2 then fillWide grammar beam words.length span.1 span.2
  else match words[span.1]? with
    | some word => fillWord grammar beam words.length span.1 word
    | none => pure ()

def workAccesses (grammar : Grammar σ) (beam : Option Int) (words : List String)
    (span : Nat × Nat) : List Access :=
  if span.1 < span.2 then wideAccesses grammar beam words span.1 span.2
  else match words[span.1]? with
    | some word => wordAccesses grammar span.1 word
    | none => []

/-- All accesses of filling a span. -/
def spanAccesses (grammar : Grammar σ) (beam : Option Int) (words : List String)
    (span : Nat × Nat) : List Access :=
  workAccesses grammar beam words span ++ [.filled span.1 span.2]

theorem run_fillAt (ordered : first ≤ last) (inside : last < words.length)
    (parts : draft.HasParts grammar beam words first last)
    (own : at? draft.rows (placeOf first last) = some .empty) :
    (fillAt grammar beam words (first, last)).run.run draft =
      (.ok (), draft.extend (placeOf first last)
        (spanFilling grammar beam words (fill grammar beam words).value.diagonals first last)
        (spanAccesses grammar beam words (first, last))) := by
  simp only [fillAt, spanFilling, spanAccesses, workAccesses]
  split
  next wide => exact run_fillWide parts wide inside own
  next single =>
    obtain rfl : first = last := by omega
    rw [List.getElem?_eq_getElem inside]
    exact run_fillWord inside own

/-- The draft after the spans of a list have been filled, each with the cell that the chart has for
it. -/
def filled (grammar : Grammar σ) (beam : Option Int) (words : List String)
    (spans : List (Nat × Nat)) : Draft σ where
  rows := spans.foldl (fun rows span =>
    put rows (placeOf span.1 span.2) (spanCell grammar beam words span.1 span.2))
    (blankRows words.length)
  work := spans.flatMap fun span =>
    (spanFilling grammar beam words (fill grammar beam words).value.diagonals span.1 span.2).work
  accesses := spans.flatMap (spanAccesses grammar beam words)

theorem filled_concat (spans : List (Nat × Nat)) (ordered : first ≤ last)
    (inside : last < words.length) :
    filled grammar beam words (spans ++ [(first, last)]) =
      (filled grammar beam words spans).extend (placeOf first last)
        (spanFilling grammar beam words (fill grammar beam words).value.diagonals first last)
        (spanAccesses grammar beam words (first, last)) := by
  simp [filled, extend, value_spanFilling_fill grammar beam ordered inside]

theorem at?_filled {spans : List (Nat × Nat)} (listed : spans ⊆ schedule words.length)
    (ordered : first ≤ last) (inside : last < words.length) :
    at? (filled grammar beam words spans).rows (placeOf first last) =
      some (if (first, last) ∈ spans then spanCell grammar beam words first last else .empty) := by
  induction spans using List.reverseRecOn with
  | nil => simpa [filled] using at?_blankRows ordered inside
  | append_singleton front span ih =>
    obtain ⟨start, finish⟩ := span
    have before := ih fun other member => listed (List.mem_append_left _ member)
    obtain ⟨low, high⟩ := mem_schedule_iff.1 (listed (by simp : (start, finish) ∈ _))
    rw [filled_concat front low high, extend, at?_put, value_spanFilling_fill grammar beam low high]
    by_cases same : first = start ∧ last = finish
    · obtain ⟨rfl, rfl⟩ := same
      simp [before]
    · rw [if_neg ((placeOf_inj ordered low).not.2 same), before]
      simp [same]

/-- If the spans before a span in the schedule have been filled, filling the span fills those up to
it. -/
theorem run_fillAt_filled {front rest : List (Nat × Nat)} {span : Nat × Nat}
    (split : front ++ span :: rest = schedule words.length) :
    (fillAt grammar beam words span).run.run (filled grammar beam words front) =
      (.ok (), filled grammar beam words (front ++ [span])) := by
  obtain ⟨first, last⟩ := span
  have listed : front ⊆ schedule words.length := split ▸ List.subset_append_left _ _
  have distinct : (front ++ (first, last) :: rest).Nodup := split ▸ nodup_schedule words.length
  have fresh : (first, last) ∉ front := fun earlier =>
    List.disjoint_of_nodup_append distinct earlier List.mem_cons_self
  obtain ⟨ordered, inside⟩ : first ≤ last ∧ last < words.length :=
    mem_schedule_iff.1 (split ▸ List.mem_append_right front List.mem_cons_self)
  have part {start finish : Nat} (low : start ≤ finish)
      (within : Within (start, finish) (first, last)) :
      at? (filled grammar beam words front).rows (placeOf start finish) =
        some (spanCell grammar beam words start finish) := by
    have earlier := (bottomUp_schedule words.length).mem_of_within split low within
    have high := (mem_schedule_iff.1 (listed earlier)).2
    rw [at?_filled listed low high, if_pos earlier]
  have parts : (filled grammar beam words front).HasParts grammar beam words first last :=
    fun mid low high => ⟨part low (within_iff.2 (by omega)), part high (within_iff.2 (by omega))⟩
  have own : at? (filled grammar beam words front).rows (placeOf first last) = some .empty := by
    rw [at?_filled listed ordered inside, if_neg fresh]
  rw [filled_concat front ordered inside]
  exact run_fillAt ordered inside parts own

theorem run_forM_fillAt {front pending : List (Nat × Nat)}
    (split : front ++ pending = schedule words.length) :
    (forM pending (fillAt grammar beam words)).run.run (filled grammar beam words front) =
      (.ok (), filled grammar beam words (schedule words.length)) := by
  induction pending generalizing front with
  | nil =>
    rw [List.append_nil] at split
    rw [split]
    rfl
  | cons span rest ih =>
    rw [List.forM_cons, run_bind_of_ok (run_fillAt_filled split)]
    exact ih (by simp [split])

omit [LT σ] [DecidableLT σ] [Add σ] [Zero σ] in
/-- Two loops, one inside the other, go through a list of lists. -/
theorem forM_forM {α β : Type} (xs : List α) (inner : α → List β) (act : β → Program σ Unit) :
    (forM xs fun x => forM (inner x) act) = forM (xs.flatMap inner) act := by
  induction xs with
  | nil => rfl
  | cons x rest ih => rw [List.forM_cons, ih, List.flatMap_cons, List.forM_append]

omit [LT σ] [DecidableLT σ] [Add σ] [Zero σ] in
theorem forM_congr {α : Type} {xs : List α} {act other : α → Program σ Unit}
    (same : ∀ x ∈ xs, act x = other x) : forM xs act = forM xs other := by
  induction xs with
  | nil => rfl
  | cons x rest ih =>
    obtain ⟨first, later⟩ := List.forall_mem_cons.1 same
    rw [List.forM_cons, List.forM_cons, first, ih later]

/-- The table is filled in the order of the schedule. -/
theorem fillRows_eq (grammar : Grammar σ) (beam : Option Int) (words : List String) :
    fillRows grammar beam words = (do
      modify fun draft => { draft with rows := blankRows words.length }
      forM (schedule words.length) (fillAt grammar beam words) : Program σ Unit) := by
  have single : (forM words.zipIdx fun word =>
        fillWord grammar beam words.length word.2 word.1) =
      forM ((List.range words.length).map fun first => (first, first))
        (fillAt grammar beam words) := by
    rw [range_length_eq, List.map_map, List.forM_map]
    refine forM_congr fun word member => ?_
    have found : words[word.2]? = some word.1 := List.mem_zipIdx_iff_getElem?.1 member
    simp [fillAt, found]
  have wide : (forM (List.range' 1 (words.length - 1)) fun reach =>
        forM (List.range (words.length - reach)) fun first =>
          fillWide grammar beam words.length first (first + reach)) =
      forM ((List.range' 1 (words.length - 1)).flatMap fun reach =>
        (List.range (words.length - reach)).map fun first => (first, first + reach))
        (fillAt grammar beam words) := by
    rw [← forM_forM]
    refine forM_congr fun reach member => ?_
    have positive := (List.mem_range'_1.1 member).1
    rw [List.forM_map]
    refine forM_congr fun first _ => ?_
    rw [fillAt, if_pos (by omega)]
  rw [fillRows, single, wide, schedule_eq, List.forM_append]

/-- Filling a table in place is never broken off. It leaves what the chart holds, with the record of
the chart. -/
theorem run_fillRows (grammar : Grammar σ) (beam : Option Int) (words : List String) :
    (fillRows grammar beam words).run.run {} =
      (.ok (), filled grammar beam words (schedule words.length)) := by
  have laidOut : (modify fun draft => { draft with rows := blankRows words.length } :
      Program σ Unit).run.run {} = (.ok (), filled grammar beam words []) := rfl
  rw [fillRows_eq, run_bind_of_ok laidOut]
  exact run_forM_fillAt rfl

theorem at?_filled_schedule (grammar : Grammar σ) (beam : Option Int) (ordered : first ≤ last)
    (inside : last < words.length) :
    at? (filled grammar beam words (schedule words.length)).rows (placeOf first last) =
      some (spanCell grammar beam words first last) := by
  rw [at?_filled (List.Subset.refl _) ordered inside,
    if_pos (mem_schedule_iff.2 ⟨ordered, inside⟩)]

/-- The best parse is that of the chart. For it the whole sentence is asked for, if it has words. -/
theorem run_bestParse (grammar : Grammar σ) (beam : Option Int) (words : List String) :
    let draft := filled grammar beam words (schedule words.length)
    (bestParse grammar words).run.run draft =
      (.ok ((fill grammar beam words).value.best? grammar.start),
        { draft with accesses := draft.accesses ++
            if words.isEmpty then [] else [.asked 0 (words.length - 1)] }) := by
  intro draft
  cases words with
  | nil => simp [bestParse, best?, words_fill]; rfl
  | cons word rest =>
    have whole : at? draft.rows (placeOf 0 rest.length) = some _ :=
      at?_filled_schedule grammar beam (Nat.zero_le _) (by simp)
    have held : (fill grammar beam (word :: rest)).value.cell? 0 rest.length = some _ :=
      cellIn_fill grammar beam (Nat.zero_le _) (by simp)
    have asked : (ask (word :: rest).length (0 : Nat) rest.length).run.run draft = _ :=
      run_ask_of_isSome (Nat.zero_le _) (by simp) (by rw [whole]; rfl)
    have last : ((word :: rest).length : Int) - 1 = (rest.length : Nat) := by simp
    have best : (fill grammar beam (word :: rest)).value.best? grammar.start =
        (cellAt draft (placeOf 0 rest.length)).get? grammar.start := by
      simp [best?, words_fill, size, held, cellAt, whole]
    rw [bestParse, if_neg (by simp), last, ← Nat.cast_zero, run_bind_of_ok asked, best]
    rfl

end Filling

end ChartParse.Chart.Draft
