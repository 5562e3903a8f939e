import ChartParse.Cell.Closure

/-!
Inserting a derivation into a cell by recursion: what is stored is extended by each unary rule over
its label in turn, and each extension is inserted before the next one is looked at. The agenda of
`Cell.close` works in the same order.
-/

namespace ChartParse.Cell

variable {σ : Type} [Add σ] [LT σ] [DecidableLT σ]

/-- Inserts a derivation and whatever it leads to. Whether it was stored comes with the cell. -/
def insert (grammar : Grammar σ) (cell : Cell σ) (offered : Derivation σ) :
    Traced (Event σ) (Cell σ × Bool) :=
  match _ : cell.judge offered with
  | .notBetter => pure (cell, false)
  | .cycle => do
    Traced.record (.cycle offered)
    return (cell, false)
  | .improves => do
    Traced.record (.extended offered (extensions grammar offered).length)
    let cell ← (extensions grammar offered).attach.foldlM (fun cell ⟨extension, _⟩ => do
      let (cell, _) ← insert grammar cell extension
      return cell) (cell.store offered)
    return (cell, true)
termination_by headroom grammar.unaryTargets offered
decreasing_by exact headroom_lt_of_mem_extensions ‹_› (repeatsLabel_of_judge ‹_›)

theorem insert_eq (grammar : Grammar σ) (cell : Cell σ) (offered : Derivation σ) :
    insert grammar cell offered =
      match cell.judge offered with
      | .notBetter => pure (cell, false)
      | .cycle => (do
        Traced.record (.cycle offered)
        return (cell, false))
      | .improves => (do
        Traced.record (.extended offered (extensions grammar offered).length)
        let cell ← (extensions grammar offered).foldlM (fun cell extension => do
          let (cell, _) ← insert grammar cell extension
          return cell) (cell.store offered)
        return (cell, true)) := by
  rw [insert]
  -- Only the proofs that the recursion ends have to go.
  split <;> simp_all [List.foldlM_subtype]

end ChartParse.Cell
