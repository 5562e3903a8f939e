import ChartParse.Proofs.Chart.InPlace

/-!
The order of the accesses to a chart that is filled in place.

The accesses are those of the spans, span by span in the order of the schedule. In those of one span,
the span itself is revised only, and its parts are looked into only; and the last of them is that the
span has been filled. So what is looked into has been filled before, and what has been filled is not
touched again.

Main statement: `fill_by_schedule`.
-/

namespace ChartParse.Chart

variable {σ : Type}

def Access.filled? : Access → Option (Nat × Nat)
  | filled first last => some (first, last)
  | _ => none

def Access.split? : Access → Option (Nat × Nat × Nat)
  | split first mid last => some (first, mid, last)
  | _ => none

theorem Access.mem_filterMap_filled? {accesses : List Access} {first last : Nat} :
    (first, last) ∈ accesses.filterMap filled? ↔ .filled first last ∈ accesses := by
  have viewed (access : Access) :
      access.filled? = some (first, last) ↔ access = .filled first last := by
    cases access <;> simp [filled?]
  simp [List.mem_filterMap, viewed]

theorem Access.mem_filterMap_split? {accesses : List Access} {first mid last : Nat} :
    (first, mid, last) ∈ accesses.filterMap split? ↔ .split first mid last ∈ accesses := by
  have viewed (access : Access) :
      access.split? = some (first, mid, last) ↔ access = .split first mid last := by
    cases access <;> simp [split?]
  simp [List.mem_filterMap, viewed]

/-- Every span of a sentence is filled once, and every split tried once. Whatever is looked into to
fill a span is the cell of a part that has been filled before, and no cell is revised after it has
been filled. Only spans of the sentence are asked for. -/
structure Orderly (words : Nat) (accesses : List Access) : Prop where
  filled_iff : ∀ first last, .filled first last ∈ accesses ↔ first ≤ last ∧ last < words
  filled_once : (accesses.filterMap Access.filled?).Nodup
  filled_count : (accesses.filterMap Access.filled?).length = words * (words + 1) / 2
  split_iff : ∀ first mid last,
    .split first mid last ∈ accesses ↔ first ≤ mid ∧ mid < last ∧ last < words
  split_once : (accesses.filterMap Access.split?).Nodup
  parts_filled : ∀ before after first last place,
    accesses = before ++ .looked first last place :: after →
      ∃ start finish, place = placeOf start finish ∧ start ≤ finish ∧
        Within (start, finish) (first, last) ∧ .filled start finish ∈ before
  unchanged : ∀ before after first last, accesses = before ++ .filled first last :: after →
    .revised (placeOf first last) ∉ after
  inside : ∀ first last, .asked first last ∈ accesses → 0 ≤ first ∧ first ≤ last ∧ last < words

namespace Draft

section Spans

/-- An access that filling a span may make before the span has been filled. -/
inductive Serves (first last : Nat) : Access → Prop
  | asked {start finish : Nat} (low : first ≤ start) (ordered : start ≤ finish)
      (high : finish ≤ last) : Serves first last (.asked start finish)
  | looked {start finish : Nat} (ordered : start ≤ finish)
      (within : Within (start, finish) (first, last)) :
      Serves first last (.looked first last (placeOf start finish))
  | revised : Serves first last (.revised (placeOf first last))
  | split {mid : Nat} (low : first ≤ mid) (high : mid < last) :
      Serves first last (.split first mid last)

theorem serves_lookups {first mid last : Nat} (low : first ≤ mid) (high : mid < last) :
    ∀ access ∈ lookups first mid last, Serves first last access := by
  simp only [lookups, List.forall_mem_cons]
  exact ⟨.looked low (within_iff.2 (by omega)), .looked high (within_iff.2 (by omega)),
    List.forall_mem_nil _⟩

theorem serves_splitAccesses {first mid last : Nat} (grammar : Grammar σ) (left right : Cell σ)
    (low : first ≤ mid) (high : mid < last) :
    ∀ access ∈ splitAccesses grammar left right first mid last, Serves first last access := by
  have parts := serves_lookups low high
  simp only [splitAccesses, List.forall_mem_append, List.forall_mem_cons]
  refine ⟨⟨⟨.asked le_rfl low (by omega), .asked (by omega) high le_rfl, .split low high,
    List.forall_mem_nil _⟩, parts⟩, ?_⟩
  split
  · exact List.forall_mem_nil _
  · intro access member
    obtain ⟨_, _, made⟩ := List.mem_flatMap.1 member
    rcases List.mem_append.1 made with part | own
    · exact parts access part
    · exact List.mem_singleton.1 own ▸ .revised

variable [LT σ] [DecidableLT σ] [Zero σ] [Add σ] {grammar : Grammar σ} {beam : Option Int}
  {words : List String} {first last : Nat}

theorem serves_workAccesses (grammar : Grammar σ) (beam : Option Int) (words : List String)
    (ordered : first ≤ last) :
    ∀ access ∈ workAccesses grammar beam words (first, last), Serves first last access := by
  unfold workAccesses
  split
  next wide =>
    simp only [wideAccesses, List.forall_mem_append, List.forall_mem_singleton]
    refine ⟨⟨.asked le_rfl ordered le_rfl, fun access member => ?_⟩, .revised⟩
    obtain ⟨mid, inRange, made⟩ := List.mem_flatMap.1 member
    obtain ⟨low, high⟩ := List.mem_range'_1.1 inRange
    exact serves_splitAccesses grammar _ _ low (by omega) access made
  next single =>
    obtain rfl : first = last := by simp only at single; omega
    split
    · simp only [wordAccesses, List.forall_mem_append, List.forall_mem_cons]
      refine ⟨⟨⟨.asked le_rfl le_rfl le_rfl, List.forall_mem_nil _⟩, fun access member => ?_⟩,
        .revised, .revised, List.forall_mem_nil _⟩
      obtain ⟨_, _, made⟩ := List.mem_flatMap.1 member
      exact List.mem_singleton.1 made ▸ .revised
    · exact List.forall_mem_nil _

theorem mem_spanAccesses (ordered : first ≤ last) {access : Access}
    (member : access ∈ spanAccesses grammar beam words (first, last)) :
    Serves first last access ∨ access = .filled first last := by
  rcases List.mem_append.1 member with before | last
  · exact Or.inl (serves_workAccesses grammar beam words ordered access before)
  · exact Or.inr (List.mem_singleton.1 last)

theorem not_mem_workAccesses (ordered : first ≤ last) {start finish : Nat} :
    .filled start finish ∉ workAccesses grammar beam words (first, last) := by
  intro member
  cases serves_workAccesses grammar beam words ordered _ member

theorem filterMap_filled?_spanAccesses (ordered : first ≤ last) :
    (spanAccesses grammar beam words (first, last)).filterMap Access.filled? =
      [(first, last)] := by
  have none : (workAccesses grammar beam words (first, last)).filterMap Access.filled? = [] := by
    rw [List.filterMap_eq_nil_iff]
    intro access member
    cases serves_workAccesses grammar beam words ordered access member <;> rfl
  rw [spanAccesses, List.filterMap_append, none]
  rfl

omit [LT σ] [DecidableLT σ] [Zero σ] [Add σ] in
theorem filterMap_split?_splitAccesses (left right : Cell σ) (mid : Nat) :
    (splitAccesses grammar left right first mid last).filterMap Access.split? =
      [(first, mid, last)] := by
  unfold splitAccesses
  split <;> simp [lookups, Access.split?, List.filterMap_cons, List.filterMap_flatMap]

theorem filterMap_split?_spanAccesses (grammar : Grammar σ) (beam : Option Int)
    (words : List String) (ordered : first ≤ last) :
    (spanAccesses grammar beam words (first, last)).filterMap Access.split? =
      (List.range' first (last - first)).map fun mid => (first, mid, last) := by
  unfold spanAccesses workAccesses
  split
  next wide =>
    simp [wideAccesses, Access.split?, List.filterMap_cons, List.filterMap_flatMap,
      filterMap_split?_splitAccesses, List.map_eq_flatMap]
  next single =>
    obtain rfl : first = last := by simp only at single; omega
    split <;> simp [wordAccesses, Access.split?, List.filterMap_cons, List.filterMap_flatMap]

/-! ### The whole run -/

theorem filterMap_filled? (grammar : Grammar σ) (beam : Option Int) (words : List String) :
    ((schedule words.length).flatMap (spanAccesses grammar beam words)).filterMap
      Access.filled? = schedule words.length := by
  rw [List.filterMap_flatMap]
  conv_rhs => rw [← List.flatMap_singleton' (schedule words.length)]
  apply List.flatMap_congr
  rintro ⟨first, last⟩ member
  exact filterMap_filled?_spanAccesses (mem_schedule_iff.1 member).1

theorem filterMap_split? (grammar : Grammar σ) (beam : Option Int) (words : List String) :
    ((schedule words.length).flatMap (spanAccesses grammar beam words)).filterMap
      Access.split? = (schedule words.length).flatMap fun span =>
        (List.range' span.1 (span.2 - span.1)).map fun mid => (span.1, mid, span.2) := by
  rw [List.filterMap_flatMap]
  apply List.flatMap_congr
  rintro ⟨first, last⟩ member
  exact filterMap_split?_spanAccesses grammar beam words (mem_schedule_iff.1 member).1

/-- There are as many spans as words and pairs of words. -/
theorem length_schedule (words : Nat) : (schedule words).length = words * (words + 1) / 2 := by
  have sums (count : Nat) (within : count ≤ words) :
      2 * ((List.range count).map (words - ·)).sum = count * (2 * words + 1 - count) := by
    induction count with
    | zero => simp
    | succ count ih =>
      obtain ⟨more, rfl⟩ := Nat.exists_eq_add_of_le within
      have before := ih (by omega)
      rw [show 2 * (count + 1 + more) + 1 - count = count + 2 * more + 3 by omega] at before
      rw [List.range_succ, List.map_append, List.sum_append, Nat.mul_add, before,
        show 2 * (count + 1 + more) + 1 - (count + 1) = count + 2 * more + 2 by omega]
      simp only [List.map_cons, List.map_nil, List.sum_singleton]
      rw [show count + 1 + more - count = more + 1 by omega]
      ring
  have doubled := sums words (Nat.le_refl _)
  rw [show 2 * words + 1 - words = words + 1 by omega] at doubled
  rw [schedule, List.length_flatMap]
  simp only [List.length_map, List.length_range]
  omega

/-- A list of lists is split inside one of them. -/
theorem exists_split_of_flatMap {α β : Type} {xs : List α} {f : α → List β}
    {before after : List β} {y : β} (split : xs.flatMap f = before ++ y :: after) :
    ∃ front x back inner outer, xs = front ++ x :: back ∧ f x = inner ++ y :: outer ∧
      before = front.flatMap f ++ inner ∧ after = outer ++ back.flatMap f := by
  induction xs generalizing before with
  | nil => simp at split
  | cons x rest ih =>
    rw [List.flatMap_cons] at split
    rcases List.append_eq_append_iff.1 split with ⟨later, rfl, found⟩ | ⟨outer, found, last⟩
    · obtain ⟨front, other, back, inner, outer, rfl, own, rfl, rfl⟩ := ih found
      exact ⟨x :: front, other, back, inner, outer, rfl, own, by simp, rfl⟩
    · rcases List.cons_eq_append_iff.1 last with ⟨rfl, next⟩ | ⟨outer, rfl, rfl⟩
      · -- The first list ends just before.
        have onward : rest.flatMap f = [] ++ y :: after := next
        obtain ⟨front, other, back, inner, outer, rfl, own, none, rfl⟩ := ih onward
        refine ⟨x :: front, other, back, inner, outer, rfl, own, ?_, rfl⟩
        rw [List.flatMap_cons, List.append_assoc, ← none, found]
        simp
      · exact ⟨[], x, rest, before, outer, rfl, found, by simp, rfl⟩

theorem eq_nil_of_concat_eq {α : Type} {front inner outer : List α} {x : α} (fresh : x ∉ front)
    (split : front ++ [x] = inner ++ x :: outer) : outer = [] := by
  rcases List.append_eq_append_iff.1 split with ⟨between, -, rest⟩ | ⟨between, rfl, rest⟩
  · cases between <;> simp_all
  · cases between <;> simp_all

/-- An access of the run is one of a span, behind those of the spans before and in front of those of
the spans after. -/
theorem exists_span_of_split {before after : List Access} {access : Access}
    (found : (schedule words.length).flatMap (spanAccesses grammar beam words) =
      before ++ access :: after) :
    ∃ front start finish back inner outer,
      schedule words.length = front ++ (start, finish) :: back ∧ start ≤ finish ∧
      spanAccesses grammar beam words (start, finish) = inner ++ access :: outer ∧
      before = front.flatMap (spanAccesses grammar beam words) ++ inner ∧
      after = outer ++ back.flatMap (spanAccesses grammar beam words) ∧
      (Serves start finish access ∨ access = .filled start finish) := by
  obtain ⟨front, ⟨start, finish⟩, back, inner, outer, listed, own, first, last⟩ :=
    exists_split_of_flatMap found
  have ordered : start ≤ finish :=
    (mem_schedule_iff.1 (listed ▸ List.mem_append_right _ List.mem_cons_self)).1
  exact ⟨front, start, finish, back, inner, outer, listed, ordered, own, first, last,
    mem_spanAccesses ordered (own ▸ List.mem_append_right _ List.mem_cons_self)⟩

theorem orderly_schedule (grammar : Grammar σ) (beam : Option Int) (words : List String) :
    Orderly words.length
      ((schedule words.length).flatMap (spanAccesses grammar beam words)) where
  filled_iff := by
    intro first last
    rw [← Access.mem_filterMap_filled?, filterMap_filled?, mem_schedule_iff]
  filled_once := by
    rw [filterMap_filled?]
    exact nodup_schedule words.length
  filled_count := by
    rw [filterMap_filled?]
    exact length_schedule words.length
  split_iff := by
    intro first mid last
    rw [← Access.mem_filterMap_split?, filterMap_split?, List.mem_flatMap]
    constructor
    · rintro ⟨⟨start, finish⟩, listed, made⟩
      obtain ⟨ordered, inside⟩ := mem_schedule_iff.1 listed
      obtain ⟨cut, inRange, same⟩ := List.mem_map.1 made
      obtain ⟨low, high⟩ := List.mem_range'_1.1 inRange
      cases same
      simp only at *
      omega
    · rintro ⟨low, high, inside⟩
      refine ⟨(first, last), mem_schedule_iff.2 (by omega), List.mem_map.2 ⟨mid, ?_, rfl⟩⟩
      exact List.mem_range'_1.2 (by simp only; omega)
  split_once := by
    rw [filterMap_split?, List.nodup_flatMap]
    constructor
    · intro span _
      exact (List.nodup_range').map fun mid other same => (Prod.mk.inj (Prod.mk.inj same).2).1
    · refine (nodup_schedule words.length).imp fun {span other} apart triple here there => ?_
      obtain ⟨_, _, rfl⟩ := List.mem_map.1 here
      obtain ⟨_, _, same⟩ := List.mem_map.1 there
      obtain ⟨first, rest⟩ := Prod.mk.inj same
      exact apart (Prod.ext first (Prod.mk.inj rest).2).symm
  parts_filled := by
    intro before after first last place found
    obtain ⟨front, start, finish, back, inner, outer, listed, -, own, rfl, -, serves | filled⟩ :=
      exists_span_of_split found
    · cases serves with
      | looked low within =>
        have earlier := (bottomUp_schedule words.length).mem_of_within listed.symm low within
        have noted : .filled _ _ ∈ front.flatMap (spanAccesses grammar beam words) :=
          List.mem_flatMap.2 ⟨_, earlier, List.mem_append_right _ List.mem_cons_self⟩
        exact ⟨_, _, rfl, low, within, List.mem_append_left _ noted⟩
    · cases filled
  unchanged := by
    intro before after first last found again
    obtain ⟨front, start, finish, back, inner, outer, listed, ordered, own, -, rfl,
      serves | filled⟩ := exists_span_of_split found
    · cases serves
    cases filled
    obtain rfl : outer = [] := eq_nil_of_concat_eq (not_mem_workAccesses ordered) own
    -- The spans that are filled after this one have other places.
    obtain ⟨⟨other, far⟩, later, revised⟩ := List.mem_flatMap.1 again
    have inBack : (other, far) ∈ schedule words.length :=
      listed ▸ List.mem_append_right _ (List.mem_cons_of_mem _ later)
    have low := (mem_schedule_iff.1 inBack).1
    rcases mem_spanAccesses low revised with serves | filled
    · generalize placed : placeOf first last = place at serves
      cases serves
      obtain ⟨rfl, rfl⟩ := (placeOf_inj ordered low).1 placed
      have distinct := listed ▸ nodup_schedule words.length
      exact (List.nodup_cons.1 (List.nodup_append.1 distinct).2.1).1 later
    · cases filled
  inside := by
    intro first last asked
    obtain ⟨⟨start, finish⟩, listed, made⟩ := List.mem_flatMap.1 asked
    obtain ⟨ordered, within⟩ := mem_schedule_iff.1 listed
    rcases mem_spanAccesses ordered made with serves | filled
    · cases serves
      omega
    · cases filled

end Spans

/-! ### Main result -/

/-- A chart that is filled in place is filled without being broken off, in good order and with the
cells and the record of the chart: no span outside the sentence is asked for, each span inside has a
place in the table, and no other span has the same. Asking for the best parse then gives that of the
chart. -/
theorem fill_by_schedule [LT σ] [DecidableLT σ] [Zero σ] [Add σ] (grammar : Grammar σ)
    (beam : Option Int) (words : List String) :
    let chart := (fill grammar beam words).value
    let asked : List Access := if words.isEmpty then [] else [.asked 0 (words.length - 1)]
    ∃ draft, (fillRows grammar beam words).run.run {} = (.ok (), draft) ∧
      Orderly words.length draft.accesses ∧
      draft.work = (fill grammar beam words).work ∧
      (∀ first last, first ≤ last → last < words.length →
        (∃ cell, at? draft.rows (placeOf first last) = some cell ∧
          chart.cell? first last = some cell) ∧
        ∀ start finish, start ≤ finish → placeOf start finish = placeOf first last →
          start = first ∧ finish = last) ∧
      (bestParse grammar words).run.run draft = (.ok (chart.best? grammar.start),
        { draft with accesses := draft.accesses ++ asked }) ∧
      ∀ first last, .asked first last ∈ draft.accesses ++ asked →
        0 ≤ first ∧ first ≤ last ∧ last < words.length := by
  intro chart asked
  have orderly := orderly_schedule grammar beam words
  refine ⟨_, run_fillRows grammar beam words, orderly, (work_fill grammar beam words).symm,
    fun first last ordered inside => ⟨?_, fun start finish low => (placeOf_inj low ordered).1⟩,
    run_bestParse grammar beam words, fun first last member => ?_⟩
  · exact ⟨_, at?_filled_schedule grammar beam ordered inside,
      cellIn_fill grammar beam ordered inside⟩
  · rcases List.mem_append.1 member with filling | parsing
    · exact orderly.inside first last filling
    · cases words with
      | nil => simp [asked] at parsing
      | cons word rest =>
        obtain ⟨rfl, rfl⟩ : first = 0 ∧ last = rest.length := by simpa [asked] using parsing
        simp only [List.length_cons]
        omega

end Draft

end ChartParse.Chart
