import ChartParse.Work.Event

/-!
Tallies of work. A counter is in a tally once some event has touched it, even if it added nothing;
the counters stand in the order in which they were first touched.
-/

namespace ChartParse

inductive Counter where
  | lexical
  | unary
  | cycle
  | binary
  | pruned
  deriving DecidableEq, Repr

def Counter.name : Counter → String
  | lexical => "LEXICAL"
  | unary => "UNARY"
  | cycle => "CYCLE"
  | binary => "BINARY"
  | pruned => "PRUNED"

variable {σ : Type}

def Event.count? : Event σ → Option (Counter × Nat)
  | lexical _ => some (.lexical, 1)
  | extended _ rules => some (.unary, rules)
  | cycle _ => some (.cycle, 1)
  | combined _ => some (.binary, 1)
  | pruned _ _ _ dropped => some (.pruned, dropped)
  -- These leave a line in the log at most.
  | filling _ _ | children _ _ _ | uncovered _ _ | stored _ _ => none

def Event.amount (counter : Counter) (event : Event σ) : Nat :=
  match event.count? with
  | some (touched, amount) => if touched = counter then amount else 0
  | none => 0

abbrev Tally := List (Counter × Nat)

namespace Tally

def add : Tally → Counter → Nat → Tally
  | [], counter, amount => [(counter, amount)]
  | (other, total) :: rest, counter, amount =>
    if other = counter then (other, total + amount) :: rest
    else (other, total) :: add rest counter amount

def note (tally : Tally) (event : Event σ) : Tally :=
  match event.count? with
  | some (counter, amount) => tally.add counter amount
  | none => tally

def ofWork (work : List (Event σ)) : Tally :=
  work.foldl note []

def total (tally : Tally) (counter : Counter) : Nat :=
  ((tally.find? (·.1 = counter)).map Prod.snd).getD 0

/-- A tally as the log shows it: the greatest totals first, equal ones as first touched. -/
def text (tally : Tally) : String :=
  let ranked := tally.mergeSort fun a b => b.2 ≤ a.2
  let entry := fun (counter, total) => "'" ++ Counter.name counter ++ "': " ++ toString total
  if ranked.isEmpty then "Counter()"
  else "Counter(\x7b" ++ ", ".intercalate (ranked.map entry) ++ "\x7d)"

/-! ### Totals are sums over the record -/

def amountOf (counter : Counter) : List (Event σ) → Nat
  | [] => 0
  | event :: rest => event.amount counter + amountOf counter rest

theorem amountOf_append (counter : Counter) (first second : List (Event σ)) :
    amountOf counter (first ++ second) = amountOf counter first + amountOf counter second := by
  induction first with
  | nil => simp [amountOf]
  | cons event rest ih => rw [List.cons_append, amountOf, ih, amountOf, Nat.add_assoc]

theorem total_add (tally : Tally) (counter touched : Counter) (amount : Nat) :
    (tally.add touched amount).total counter =
      tally.total counter + if touched = counter then amount else 0 := by
  induction tally with
  | nil => by_cases same : touched = counter <;> simp [add, total, same]
  | cons head rest ih =>
    obtain ⟨other, sum⟩ := head
    simp only [total] at ih
    by_cases hit : other = touched
    · -- The counter is there, and its total grows in place.
      subst hit
      by_cases same : other = counter <;> simp [add, total, same]
    · by_cases same : other = counter
      · subst same
        simp [add, total, hit, Ne.symm hit]
      · simp [add, total, hit, same, ih]

theorem total_note (tally : Tally) (event : Event σ) (counter : Counter) :
    (tally.note event).total counter = tally.total counter + event.amount counter := by
  unfold note Event.amount
  cases event.count? with
  | none => rfl
  | some touch => exact total_add tally counter touch.1 touch.2

theorem total_foldl_note (work : List (Event σ)) (tally : Tally) (counter : Counter) :
    (work.foldl note tally).total counter =
      tally.total counter + amountOf counter work := by
  induction work generalizing tally with
  | nil => rfl
  | cons event rest ih => rw [List.foldl_cons, ih, total_note, amountOf, Nat.add_assoc]

/-- The total of a counter is the sum of what the events add to it. -/
theorem total_ofWork (work : List (Event σ)) (counter : Counter) :
    (ofWork work).total counter = amountOf counter work := by
  rw [ofWork, total_foldl_note]
  exact Nat.zero_add _

/-- If a counter goes up by one with what a view sees, it counts what the view sees. -/
theorem total_eq_length_seen {α γ : Type} {counter : Counter} (view : Event σ → Option γ)
    (each : ∀ event, event.amount counter = (view event).toList.length)
    (traced : Traced (Event σ) α) :
    (ofWork traced.work).total counter = (traced.seen view).length := by
  rw [total_ofWork, Traced.seen]
  induction traced.work with
  | nil => rfl
  | cons event rest ih =>
    rw [amountOf, each, ih, List.filterMap_cons]
    cases view event <;> simp [Nat.add_comm]

end Tally

end ChartParse
