import ChartParse.Derivation.Basic
import ChartParse.Scale
import ChartParse.Text.Quoted

/-!
Cells: the best derivation of each label over one span of the sentence.

The labels of a cell are distinct and keep the order in which they were first stored: storing a
better derivation leaves its label in place. Pruning ranks the labels by score and drops the worst.

Main statements: `get?_eq_some_iff` reads a look-up off the entries, `get?_store` and
`labels_store` say what storing does to look-ups and labels.
-/

namespace ChartParse

structure Cell (σ : Type) where
  entries : List (Derivation σ)
  nodup : (entries.map Derivation.label).Nodup

structure MissingLabel where
  label : String
  deriving DecidableEq, Repr

def MissingLabel.message (error : MissingLabel) : String :=
  Text.quoted error.label.toList

namespace Cell

variable {σ : Type}

@[ext] theorem ext {first second : Cell σ} (entries : first.entries = second.entries) :
    first = second := by
  cases first
  cases second
  simp_all

def empty : Cell σ :=
  ⟨[], List.nodup_nil⟩

def isEmpty (cell : Cell σ) : Bool :=
  cell.entries.isEmpty

def size (cell : Cell σ) : Nat :=
  cell.entries.length

def labels (cell : Cell σ) : List String :=
  cell.entries.map Derivation.label

def get? (cell : Cell σ) (label : String) : Option (Derivation σ) :=
  cell.entries.find? (·.label = label)

def get (cell : Cell σ) (label : String) : Except MissingLabel (Derivation σ) :=
  match cell.get? label with
  | some derivation => .ok derivation
  | none => .error ⟨label⟩

def contains (cell : Cell σ) (label : String) : Bool :=
  (cell.get? label).isSome

def text (scale : Scale σ) (cell : Cell σ) : String :=
  let entry := fun (derivation : Derivation σ) =>
    Text.quoted derivation.label.toList ++ ": " ++ scale.write derivation.score
  "Cell(\x7b" ++ ", ".intercalate (cell.entries.map entry) ++ "\x7d)"

/-! ### Storing -/

/-- Puts a derivation in the place of the one with its label, or behind the others. -/
def put (derivation : Derivation σ) : List (Derivation σ) → List (Derivation σ)
  | [] => [derivation]
  | entry :: rest =>
    if entry.label = derivation.label then derivation :: rest else entry :: put derivation rest

theorem labels_put (derivation : Derivation σ) (entries : List (Derivation σ)) :
    (put derivation entries).map Derivation.label =
      if derivation.label ∈ entries.map Derivation.label then entries.map Derivation.label
      else entries.map Derivation.label ++ [derivation.label] := by
  induction entries with
  | nil => rfl
  | cons entry rest ih =>
    by_cases same : entry.label = derivation.label
    · simp [put, same]
    · have apart : derivation.label ≠ entry.label := fun equal => same equal.symm
      rw [put, if_neg same, List.map_cons, ih, List.map_cons]
      by_cases later : derivation.label ∈ rest.map Derivation.label
      · rw [if_pos later, if_pos (List.mem_cons_of_mem _ later)]
      · have absent : derivation.label ∉ entry.label :: rest.map Derivation.label := by
          rw [List.mem_cons]
          exact fun either => either.elim apart later
        rw [if_neg later, if_neg absent, List.cons_append]

theorem nodup_put (derivation : Derivation σ) {entries : List (Derivation σ)}
    (nodup : (entries.map Derivation.label).Nodup) :
    ((put derivation entries).map Derivation.label).Nodup := by
  rw [labels_put]
  split
  · exact nodup
  · rename_i absent
    rw [List.nodup_append]
    refine ⟨nodup, by simp, ?_⟩
    intro label member other isNew same
    -- A new label stands behind the others, and only because it was not among them.
    have equal : other = derivation.label := List.mem_singleton.1 isNew
    exact absent (equal ▸ same ▸ member)

/-- Stores a derivation in the place of its label if the cell holds it, else behind the others. -/
def store (cell : Cell σ) (derivation : Derivation σ) : Cell σ :=
  ⟨put derivation cell.entries, nodup_put derivation cell.nodup⟩

/-! ### Look-ups -/

theorem mem_entries_of_get? {cell : Cell σ} {label : String} {derivation : Derivation σ}
    (found : cell.get? label = some derivation) : derivation ∈ cell.entries :=
  List.mem_of_find?_eq_some found

theorem label_of_get? {cell : Cell σ} {label : String} {derivation : Derivation σ}
    (found : cell.get? label = some derivation) : derivation.label = label := by
  simpa using List.find?_some found

theorem find?_label_of_mem {entries : List (Derivation σ)}
    (nodup : (entries.map Derivation.label).Nodup) {derivation : Derivation σ}
    (member : derivation ∈ entries) :
    entries.find? (·.label = derivation.label) = some derivation := by
  induction entries with
  | nil => simp at member
  | cons entry rest ih =>
    rw [List.map_cons, List.nodup_cons] at nodup
    rcases List.mem_cons.1 member with rfl | later
    · simp
    · have apart : entry.label ≠ derivation.label := by
        intro same
        exact nodup.1 (same ▸ List.mem_map_of_mem later)
      simp [apart, ih nodup.2 later]

/-- A cell holds a derivation under its label and no other. -/
theorem get?_eq_some_iff {cell : Cell σ} {label : String} {derivation : Derivation σ} :
    cell.get? label = some derivation ↔
      derivation ∈ cell.entries ∧ derivation.label = label := by
  constructor
  · intro found
    exact ⟨mem_entries_of_get? found, label_of_get? found⟩
  · rintro ⟨member, rfl⟩
    exact find?_label_of_mem cell.nodup member

theorem get?_eq_none_iff {cell : Cell σ} {label : String} :
    cell.get? label = none ↔ label ∉ cell.labels := by
  simp [get?, labels]

theorem contains_iff {cell : Cell σ} {label : String} :
    cell.contains label = true ↔ ∃ held ∈ cell.entries, held.label = label := by
  simp [contains, Option.isSome_iff_exists, get?_eq_some_iff]

@[simp] theorem get?_empty (label : String) : (empty : Cell σ).get? label = none := rfl

theorem find?_put (derivation : Derivation σ) (entries : List (Derivation σ)) (label : String) :
    (put derivation entries).find? (·.label = label) =
      if derivation.label = label then some derivation else entries.find? (·.label = label) := by
  induction entries with
  | nil => by_cases sought : derivation.label = label <;> simp [put, sought]
  | cons entry rest ih =>
    by_cases same : entry.label = derivation.label
    · by_cases sought : derivation.label = label <;> simp [put, same, sought]
    · rw [put, if_neg same, List.find?_cons, ih]
      by_cases first : entry.label = label
      · have apart : derivation.label ≠ label := fun equal => same (first.trans equal.symm)
        simp [first, apart]
      · simp [first]

/-- Storing changes the look-up of one label only. -/
theorem get?_store (cell : Cell σ) (derivation : Derivation σ) (label : String) :
    (cell.store derivation).get? label =
      if derivation.label = label then some derivation else cell.get? label :=
  find?_put derivation cell.entries label

theorem mem_entries_store {cell : Cell σ} {stored other : Derivation σ}
    (member : other ∈ (cell.store stored).entries) : other = stored ∨ other ∈ cell.entries := by
  have found := get?_eq_some_iff.2 ⟨member, rfl⟩
  rw [get?_store] at found
  split at found
  · exact Or.inl (Option.some.inj found).symm
  · exact Or.inr (mem_entries_of_get? found)

/-- Storing keeps the labels in their order and puts a new one behind them. -/
theorem labels_store (cell : Cell σ) (derivation : Derivation σ) :
    (cell.store derivation).labels =
      if derivation.label ∈ cell.labels then cell.labels
      else cell.labels ++ [derivation.label] :=
  labels_put derivation cell.entries

/-! ### Pruning -/

variable [LT σ] [DecidableLT σ]

/-- The derivations of a cell by descending score, equal scores as they stand in the cell. -/
def ranked (cell : Cell σ) : List (Derivation σ) :=
  cell.entries.mergeSort fun a b => !decide (a.score < b.score)

def beamSize (cell : Cell σ) (width : Int) : Nat :=
  -- A negative width counts from the end of the ranking.
  (if 0 ≤ width then width else cell.size + width).toNat

/-- Keeps the best labels of a cell that holds more than the beam is wide. The number that comes
with the cell is by how much the cell was larger than the beam. -/
def prune (cell : Cell σ) (width : Int) : Cell σ × Nat :=
  if (cell.size : Int) ≤ width then (cell, 0)
  else
    let kept : Cell σ := ⟨cell.ranked.take (cell.beamSize width), by
      -- Ranking permutes the labels, and the beam drops some, so they stay distinct.
      have ordered : (cell.ranked.map Derivation.label).Nodup :=
        ((List.mergeSort_perm cell.entries _).map Derivation.label).nodup_iff.2 cell.nodup
      exact ordered.sublist ((List.take_sublist _ _).map Derivation.label)⟩
    (kept, (cell.size - width).toNat)

end Cell

end ChartParse
