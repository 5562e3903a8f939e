import ChartParse.Chart.Basic

/-!
Charts in the making.

A chart is filled in place. It is a table with a row for every word, and in the row a place for each
span that begins with the word. A program asks for the places of spans, looks into cells and works
on them where they stand, and it notes each of these accesses. To ask for a span that is not in the
sentence, or for one that has no place in the table, breaks the program off.

A program that works on one cell leaves the draft with another cell in that place
(`Draft.extend`), and there is a lemma for each access that says so.
-/

namespace ChartParse.Chart

variable {σ : Type}

/-! ### Tables -/

/-- A place in a table: the row, and how far into the row. -/
structure Place where
  row : Nat
  offset : Nat
  deriving DecidableEq, Repr

def placeOf (first last : Nat) : Place :=
  ⟨first, last - first⟩

def at? (rows : Array (Array (Cell σ))) (place : Place) : Option (Cell σ) := do
  let row ← rows[place.row]?
  row[place.offset]?

def put (rows : Array (Array (Cell σ))) (place : Place) (cell : Cell σ) : Array (Array (Cell σ)) :=
  rows.modify place.row (·.setIfInBounds place.offset cell)

/-- The row of a word has a place for each word from there on. -/
def blankRows (words : Nat) : Array (Array (Cell σ)) :=
  ((List.range words).map fun first => Array.replicate (words - first) Cell.empty).toArray

theorem at?_put (rows : Array (Array (Cell σ))) (place other : Place) (cell : Cell σ) :
    at? (put rows place cell) other =
      if other = place then (at? rows place).map fun _ => cell else at? rows other := by
  obtain ⟨row, offset⟩ := place
  obtain ⟨otherRow, otherOffset⟩ := other
  by_cases here : row = otherRow
  · subst here
    cases found : rows[row]? with
    | none => simp [at?, put, Array.getElem?_modify, found]
    | some cells =>
      by_cases there : offset = otherOffset
      · subst there
        by_cases inside : offset < cells.size <;>
          simp [at?, put, Array.getElem?_modify, found, inside]
      · simp [at?, put, Array.getElem?_modify, found, there, Ne.symm there]
  · simp [at?, put, Array.getElem?_modify, here, Ne.symm here]

theorem put_put (rows : Array (Array (Cell σ))) (place : Place) (first second : Cell σ) :
    put (put rows place first) place second = put rows place second := by
  apply Array.ext_getElem?
  intro row
  simp only [put, Array.getElem?_modify]
  split <;> simp [Function.comp_def]

/-- To put a cell where it already stands changes nothing. -/
theorem put_eq_self {rows : Array (Array (Cell σ))} {place : Place} {cell : Cell σ}
    (there : at? rows place = some cell) : put rows place cell = rows := by
  apply Array.ext_getElem?
  intro row
  rw [put, Array.getElem?_modify]
  split
  next here =>
    subst here
    obtain ⟨cells, found, stands⟩ := Option.bind_eq_some_iff.1 there
    obtain ⟨inside, rfl⟩ := Array.getElem?_eq_some_iff.1 stands
    simp [found, Array.setIfInBounds, inside]
  next => rfl

theorem at?_blankRows {words first last : Nat} (ordered : first ≤ last) (inside : last < words) :
    at? (blankRows words : Array (Array (Cell σ))) (placeOf first last) = some .empty := by
  have row : first < words := by omega
  have offset : last - first < words - first := by omega
  simp [at?, blankRows, placeOf, row, offset]

/-- Each span has its own place. -/
theorem placeOf_inj {first last start finish : Nat} (ordered : first ≤ last)
    (low : start ≤ finish) : placeOf first last = placeOf start finish ↔
      first = start ∧ last = finish := by
  simp only [placeOf, Place.mk.injEq]
  omega

/-! ### Programs -/

/-- What a program does with a chart in the making. -/
inductive Access where
  -- The place of a span is asked for.
  | asked (first last : Int)
  -- While a span is filled, another cell is looked into.
  | looked (first last : Nat) (place : Place)
  -- A cell is worked on where it stands.
  | revised (place : Place)
  -- A span is split after a word.
  | split (first mid last : Nat)
  -- A span has been filled, and its cell pruned.
  | filled (first last : Nat)
  deriving DecidableEq, Repr

/-- A chart in the making, with the record of the work on it and of the accesses to it. -/
structure Draft (σ : Type) where
  rows : Array (Array (Cell σ)) := #[]
  work : List (Event σ) := []
  accesses : List Access := []

namespace Draft

/-- A program that works on a chart in the making and may be broken off. -/
abbrev Program (σ : Type) : Type → Type := ExceptT SpanError (StateM (Draft σ))

def note (access : Access) : Program σ Unit :=
  modify fun draft => { draft with accesses := draft.accesses ++ [access] }

def record (event : Event σ) : Program σ Unit :=
  modify fun draft => { draft with work := draft.work ++ [event] }

/-- The place of the cell of a span. It has to be a span of the sentence, and the place has to be
there. -/
def ask (words : Nat) (first last : Int) : Program σ Place := do
  note (.asked first last)
  let error := SpanError.mk first last words
  if 0 ≤ first && first ≤ last && last < words then
    let place := Place.mk first.toNat (last - first).toNat
    match at? (← get).rows place with
    | some _ => return place
    | none => throw error
  else throw error

/-- The cell at a place that has been asked for. -/
def cellAt (draft : Draft σ) (place : Place) : Cell σ :=
  (at? draft.rows place).getD .empty

def look (first last : Nat) (place : Place) : Program σ (Cell σ) := do
  note (.looked first last place)
  return cellAt (← get) place

def revise (place : Place) (step : Cell σ → Traced (Event σ) (Cell σ)) : Program σ Unit := do
  note (.revised place)
  modify fun draft =>
    let done := step (cellAt draft place)
    { draft with rows := put draft.rows place done.value, work := draft.work ++ done.work }

section Filling

variable [LT σ] [DecidableLT σ] [Add σ] (grammar : Grammar σ) (beam : Option Int)

/-- Offers to the cell of a span what a rule makes of the cells of two parts. Both are looked into
anew for every rule. -/
def tryRule (own left right : Place) (first last : Nat) (rule : Rule σ) : Program σ Unit := do
  let onLeft ← look first last left
  let onRight ← look first last right
  revise own (offerBinary grammar onLeft onRight · rule)

/-- Offers to the cell of a span all that ends its left part at `mid`. -/
def trySplit (words : Nat) (own : Place) (first last mid : Nat) : Program σ Unit := do
  let left ← ask words first mid
  let right ← ask words (mid + 1 : Nat) last
  record (.children first mid last)
  note (.split first mid last)
  if (← look first last left).isEmpty || (← look first last right).isEmpty then return
  forM grammar.binaryRules (tryRule grammar own left right first last)

def fillWide (words first last : Nat) : Program σ Unit := do
  let own ← ask words first last
  record (.filling first last)
  forM (List.range' first (last - first)) (trySplit grammar words own first last)
  revise own (limit beam first last)
  note (.filled first last)

variable [Zero σ]

def fillWord (words position : Nat) (word : String) : Program σ Unit := do
  let own ← ask words position position
  record (.filling position position)
  forM (grammar.lexicalRulesFor word) fun rule => revise own (offerLexical grammar word · rule)
  revise own fun cell => do
    if cell.isEmpty then Traced.record (.uncovered position word)
    return cell
  revise own (limit beam position position)
  note (.filled position position)

/-- Lays out the table and fills it: the spans of one word, and then the wider ones by width. -/
def fillRows (words : List String) : Program σ Unit := do
  modify fun draft => { draft with rows := blankRows words.length }
  forM words.zipIdx fun word => fillWord grammar beam words.length word.2 word.1
  forM (List.range' 1 (words.length - 1)) fun reach =>
    forM (List.range (words.length - reach)) fun first =>
      fillWide grammar beam words.length first (first + reach)

omit [LT σ] [DecidableLT σ] [Add σ] [Zero σ] in
/-- The best derivation of the start symbol over the whole sentence. -/
def bestParse (words : List String) : Program σ (Option (Derivation σ)) := do
  if words.isEmpty then return none
  let whole ← ask words.length 0 (words.length - 1)
  return (cellAt (← get) whole).get? grammar.start

end Filling

/-! ### Runs -/

/-- The draft after its cell at a place has become another, with what was done for that. -/
def extend (draft : Draft σ) (place : Place) (done : Traced (Event σ) (Cell σ))
    (accesses : List Access) : Draft σ where
  rows := put draft.rows place done.value
  work := draft.work ++ done.work
  accesses := draft.accesses ++ accesses

theorem run_bind_of_ok {α β : Type} {first : Program σ α} {next : α → Program σ β} {value : α}
    {before after : Draft σ} (done : first.run.run before = (.ok value, after)) :
    (first >>= next).run.run before = (next value).run.run after := by
  rw [ExceptT.run_bind, StateT.run_bind, done]
  rfl

theorem run_get {draft : Draft σ} :
    (get : Program σ (Draft σ)).run.run draft = (.ok draft, draft) := rfl

/-- A span of the sentence has its place, if the table has one for it. -/
theorem run_ask_of_isSome {draft : Draft σ} {words first last : Nat} (ordered : first ≤ last)
    (inside : last < words) (there : (at? draft.rows (placeOf first last)).isSome) :
    (ask words first last).run.run draft =
      (.ok (placeOf first last),
        { draft with accesses := draft.accesses ++ [.asked first last] }) := by
  obtain ⟨cell, found⟩ := Option.isSome_iff_exists.1 there
  have place : Place.mk (first : Int).toNat ((last : Int) - first).toNat = placeOf first last := by
    rw [placeOf, Int.toNat_natCast, Int.toNat_sub]
  have within : (decide (0 ≤ (first : Int)) && decide ((first : Int) ≤ last) &&
      decide ((last : Int) < words)) = true := by
    simp [ordered, inside]
  have noted : (note (.asked first last)).run.run draft =
      (.ok (), { draft with accesses := draft.accesses ++ [.asked first last] }) := rfl
  rw [ask, run_bind_of_ok noted, if_pos within, place, run_bind_of_ok run_get]
  simp only [found]
  rfl

section Steps

variable {draft : Draft σ} {own : Place} {done : Traced (Event σ) (Cell σ)}
  {accesses : List Access}

theorem run_note (access : Access) :
    (note access).run.run (draft.extend own done accesses) =
      (.ok (), draft.extend own done (accesses ++ [access])) := by
  simp only [extend, ← List.append_assoc]
  rfl

theorem run_record (event : Event σ) :
    (record event).run.run (draft.extend own done accesses) =
      (.ok (), draft.extend own (do let cell ← done; Traced.record event; return cell) accesses) := by
  simp [extend, record, ← List.append_assoc]
  rfl

theorem run_ask {words first last : Nat} (ordered : first ≤ last) (inside : last < words)
    (there : (at? draft.rows (placeOf first last)).isSome) :
    (ask words first last).run.run (draft.extend own done accesses) =
      (.ok (placeOf first last), draft.extend own done (accesses ++ [.asked first last])) := by
  have present : (at? (draft.extend own done accesses).rows (placeOf first last)).isSome := by
    rw [extend, at?_put]
    split
    next own => rw [← own, Option.isSome_map, there]
    next => exact there
  rw [run_ask_of_isSome ordered inside present]
  simp [extend]

theorem run_look {first last : Nat} {place : Place} {cell : Cell σ} (apart : place ≠ own)
    (there : at? draft.rows place = some cell) :
    (look first last place).run.run (draft.extend own done accesses) =
      (.ok cell, draft.extend own done (accesses ++ [.looked first last place])) := by
  have held : cellAt (draft.extend own done (accesses ++ [.looked first last place])) place =
      cell := by
    rw [cellAt, extend, at?_put, if_neg apart, there, Option.getD_some]
  rw [look, run_bind_of_ok (run_note _), run_bind_of_ok run_get, held]
  rfl

theorem run_revise (there : (at? draft.rows own).isSome)
    (step : Cell σ → Traced (Event σ) (Cell σ)) :
    (revise own step).run.run (draft.extend own done accesses) =
      (.ok (), draft.extend own (done >>= step) (accesses ++ [.revised own])) := by
  have held : cellAt (draft.extend own done (accesses ++ [.revised own])) own = done.value := by
    obtain ⟨cell, found⟩ := Option.isSome_iff_exists.1 there
    simp [cellAt, extend, at?_put, found]
  rw [revise, run_bind_of_ok (run_note _)]
  change ((.ok (), _) : Except SpanError Unit × Draft σ) = _
  simp only [held]
  simp [extend, put_put]

/-- A loop that works on one cell. -/
theorem run_forM {α : Type} {act : α → Program σ Unit}
    {step : Cell σ → α → Traced (Event σ) (Cell σ)} {more : α → List Access} {xs : List α}
    (each : ∀ x ∈ xs, ∀ done accesses, (act x).run.run (draft.extend own done accesses) =
      (.ok (), draft.extend own (done >>= (step · x)) (accesses ++ more x))) :
    (forM xs act).run.run (draft.extend own done accesses) =
      (.ok (), draft.extend own (done >>= fun cell => xs.foldlM step cell)
        (accesses ++ xs.flatMap more)) := by
  induction xs generalizing done accesses with
  | nil => simp; rfl
  | cons x rest ih =>
    obtain ⟨first, later⟩ := List.forall_mem_cons.1 each
    rw [List.forM_cons, run_bind_of_ok (first done accesses), ih later]
    simp [List.append_assoc]

/-- Before anything has been done. -/
theorem extend_pure {cell : Cell σ} (there : at? draft.rows own = some cell) :
    draft.extend own (pure cell) [] = draft := by
  simp [extend, put_eq_self there]

end Steps

end Draft

end ChartParse.Chart
