import ChartParse.Proofs.Chart.Constituents
import ChartParse.Work.Tally

/-!
What the record of a chart says about pruning.

Main statements: without a beam no pruning is on the record (`prunesNothing_fill`), and a counter
stands in the tally of a record just if some event on it touches the counter
(`Tally.mem_counters_iff`).
-/

namespace ChartParse

variable {σ : Type}

def Event.isPruning : Event σ → Bool
  | pruned _ _ _ _ => true
  | _ => false

/-- No pruning is on the record. -/
def PrunesNothing {α : Type} (traced : Traced (Event σ) α) : Prop :=
  ∀ event ∈ traced.work, event.isPruning = false

/-! ### Loops -/

section Traced

variable {α β : Type}

@[simp] theorem prunesNothing_pure (value : α) :
    PrunesNothing (pure value : Traced (Event σ) α) := by
  simp [PrunesNothing]

@[simp] theorem prunesNothing_bind {first : Traced (Event σ) α} {next : α → Traced (Event σ) β} :
    PrunesNothing (first >>= next) ↔ PrunesNothing first ∧ PrunesNothing (next first.value) := by
  simp [PrunesNothing, or_imp, forall_and]

@[simp] theorem prunesNothing_map {f : α → β} {first : Traced (Event σ) α} :
    PrunesNothing (f <$> first) ↔ PrunesNothing first := by
  simp [PrunesNothing]

@[simp] theorem prunesNothing_record {event : Event σ} :
    PrunesNothing (Traced.record event) ↔ event.isPruning = false := by
  simp [PrunesNothing]

theorem prunesNothing_foldlM {step : β → α → Traced (Event σ) β}
    (each : ∀ x state, PrunesNothing (step state x)) (xs : List α) (start : β) :
    PrunesNothing (xs.foldlM step start) := by
  induction xs generalizing start with
  | nil => simp
  | cons x rest ih => simp [each, ih]

theorem prunesNothing_mapM {f : α → Traced (Event σ) β} (each : ∀ x, PrunesNothing (f x))
    (xs : List α) : PrunesNothing (xs.mapM f) := by
  induction xs with
  | nil => simp
  | cons x rest ih => simp [each, ih]

end Traced

/-! ### Filling without a beam -/

section Cells

variable [Add σ] [LT σ] [DecidableLT σ] (grammar : Grammar σ)

theorem Cell.prunesNothing_close (cell : Cell σ) (agenda : List (Derivation σ)) :
    PrunesNothing (cell.close grammar agenda) := by
  fun_induction Cell.close grammar cell agenda with
  | case1 cell => simp
  | case2 cell offered pending _ ih => exact ih
  | case3 cell offered pending _ ih => simpa [Event.isPruning] using ih
  | case4 cell offered pending _ ih => simpa [Event.isPruning] using ih

@[simp] theorem Cell.prunesNothing_add (cell : Cell σ) (offered : Derivation σ) :
    PrunesNothing (cell.add grammar offered) := by
  rw [PrunesNothing, work_add]
  exact prunesNothing_close grammar cell [offered]

end Cells

namespace Chart

variable [LT σ] [DecidableLT σ] [Add σ] (grammar : Grammar σ)

theorem prunesNothing_offerBinary (left right : Cell σ) (rule : Rule σ) (cell : Cell σ) :
    PrunesNothing (offerBinary grammar left right cell rule) := by
  unfold offerBinary
  split
  next =>
    split
    next =>
      split
      next =>
        simp only [prunesNothing_bind, prunesNothing_record, Event.isPruning,
          Cell.prunesNothing_add, true_and]
        -- What is left is whether the derivation was stored.
        split <;> simp [Event.isPruning]
      next => exact prunesNothing_pure cell
    next => exact prunesNothing_pure cell
  next => exact prunesNothing_pure cell

theorem prunesNothing_offerSplit (diagonals : Array (Array (Cell σ))) (first last mid : Nat)
    (cell : Cell σ) : PrunesNothing (offerSplit grammar diagonals first last cell mid) := by
  simp only [offerSplit, prunesNothing_bind, prunesNothing_record, Event.isPruning, true_and]
  split
  next left _ =>
    split
    next right _ =>
      split
      next => exact prunesNothing_pure cell
      next => exact prunesNothing_foldlM (prunesNothing_offerBinary grammar left right) _ cell
    next => exact prunesNothing_pure cell
  next => exact prunesNothing_pure cell

theorem prunesNothing_combinedCell (diagonals : Array (Array (Cell σ))) (first last : Nat) :
    PrunesNothing (combinedCell grammar none diagonals first last) := by
  simp [combinedCell, limit, Event.isPruning,
    prunesNothing_foldlM (prunesNothing_offerSplit grammar diagonals first last)]

variable [Zero σ]

theorem prunesNothing_offerLexical (word : String) (rule : Rule σ) (cell : Cell σ) :
    PrunesNothing (offerLexical grammar word cell rule) := by
  simp [offerLexical, Event.isPruning]

theorem prunesNothing_lexicalCell (position : Nat) (word : String) :
    PrunesNothing (lexicalCell grammar none position word) := by
  simp only [lexicalCell, limit, prunesNothing_bind, prunesNothing_record, Event.isPruning,
    prunesNothing_foldlM (prunesNothing_offerLexical grammar word), true_and]
  split <;> simp [Event.isPruning]

theorem prunesNothing_fill (words : List String) : PrunesNothing (fill grammar none words) := by
  have lexical : PrunesNothing (lexicalDiagonal grammar none words) := by
    simp [lexicalDiagonal, prunesNothing_mapM fun entry : String × Nat =>
      prunesNothing_lexicalCell grammar entry.2 entry.1]
  have wide (reach : Nat) (diagonals : Array (Array (Cell σ))) :
      PrunesNothing (wideDiagonal grammar none words.length diagonals reach) := by
    simp [wideDiagonal, prunesNothing_mapM fun first =>
      prunesNothing_combinedCell grammar diagonals first (first + reach)]
  simp only [fill, prunesNothing_bind, lexical, prunesNothing_pure, and_true, true_and]
  apply prunesNothing_foldlM
  intro reach diagonals
  simp [wide]

end Chart

/-! ### Counters -/

namespace Tally

def counters (tally : Tally) : List Counter :=
  tally.map Prod.fst

theorem mem_counters_add {tally : Tally} {counter touched : Counter} {amount : Nat} :
    counter ∈ (tally.add touched amount).counters ↔
      counter = touched ∨ counter ∈ tally.counters := by
  induction tally with
  | nil => simp [add, counters]
  | cons head rest ih =>
    obtain ⟨other, total⟩ := head
    by_cases hit : other = touched
    · simp [add, counters, hit]
    · simp only [counters] at ih
      simp only [add, counters, if_neg hit, List.map_cons, List.mem_cons, ih]
      exact or_left_comm

theorem mem_counters_foldl_note {work : List (Event σ)} {tally : Tally} {counter : Counter} :
    counter ∈ (work.foldl note tally).counters ↔
      counter ∈ tally.counters ∨
        ∃ event ∈ work, ∃ amount, event.count? = some (counter, amount) := by
  induction work generalizing tally with
  | nil => simp
  | cons event rest ih =>
    have first : counter ∈ (tally.note event).counters ↔
        counter ∈ tally.counters ∨ ∃ amount, event.count? = some (counter, amount) := by
      unfold note
      cases event.count? with
      | none => simp
      | some touch => simp [mem_counters_add, Prod.ext_iff, eq_comm, or_comm]
    rw [List.foldl_cons, ih, first, or_assoc]
    simp

/-- A counter stands in a tally just if some event touches it, be it with nothing. -/
theorem mem_counters_iff {work : List (Event σ)} {counter : Counter} :
    counter ∈ (ofWork work).counters ↔
      ∃ event ∈ work, ∃ amount, event.count? = some (counter, amount) := by
  rw [ofWork, mem_counters_foldl_note]
  simp [counters]

end Tally

theorem PrunesNothing.notMem_counters {α : Type} {traced : Traced (Event σ) α}
    (nothing : PrunesNothing traced) : .pruned ∉ (Tally.ofWork traced.work).counters := by
  rw [Tally.mem_counters_iff]
  rintro ⟨event, member, amount, counts⟩
  cases event with
  | pruned kept first last dropped => cases nothing _ member
  | _ => cases counts

end ChartParse
