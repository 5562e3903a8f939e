import ChartParse.Cell.Insertion

/-!
The order in which an agenda is worked off.

What is stored goes on with its extensions before anything that was pending. So a derivation on the
agenda, its extensions, theirs and so on are all dealt with before the next one on the agenda is
looked at, and to work off an agenda is to insert its derivations by recursion, one after another
(`close_eq_insertAll`).

Main statement: `add_eq_insert`.
-/

namespace ChartParse.Cell

variable {σ : Type} [Add σ] [LT σ] [DecidableLT σ]

/-- Inserts derivations one after another. -/
def insertAll (grammar : Grammar σ) (cell : Cell σ) (trees : List (Derivation σ)) :
    Traced (Event σ) (Cell σ) :=
  trees.foldlM (fun cell tree => do
    let (cell, _) ← insert grammar cell tree
    return cell) cell

variable (grammar : Grammar σ) (cell : Cell σ)

@[simp] theorem insertAll_nil : insertAll grammar cell [] = pure cell := rfl

theorem insertAll_cons (first : Derivation σ) (rest : List (Derivation σ)) :
    insertAll grammar cell (first :: rest) =
      (do
        let (cell, _) ← insert grammar cell first
        insertAll grammar cell rest) := by
  rw [insertAll, List.foldlM_cons, bind_assoc]
  rfl

theorem insertAll_append (first second : List (Derivation σ)) :
    insertAll grammar cell (first ++ second) =
      (do
        let cell ← insertAll grammar cell first
        insertAll grammar cell second) :=
  List.foldlM_append

/-! ### Insertion by verdict -/

section Verdicts

variable {offered : Derivation σ}

theorem insert_of_notBetter (verdict : cell.judge offered = .notBetter) :
    insert grammar cell offered = pure (cell, false) := by
  rw [insert_eq, verdict]

theorem insert_of_cycle (verdict : cell.judge offered = .cycle) :
    insert grammar cell offered =
      (do
        Traced.record (.cycle offered)
        return (cell, false)) := by
  rw [insert_eq, verdict]

theorem insert_of_improves (verdict : cell.judge offered = .improves) :
    insert grammar cell offered =
      (do
        Traced.record (.extended offered (extensions grammar offered).length)
        let cell ← insertAll grammar (cell.store offered) (extensions grammar offered)
        return (cell, true)) := by
  rw [insert_eq, verdict]
  rfl

end Verdicts

/-! ### Agendas -/

/-- By induction along the agenda as it changes: where a derivation is stored, its extensions come
first on the new agenda, and the recursion inserts them before it returns. -/
theorem close_eq_insertAll (agenda : List (Derivation σ)) :
    close grammar cell agenda = insertAll grammar cell agenda := by
  fun_induction close grammar cell agenda with
  | case1 cell => rfl
  | case2 cell offered pending verdict ih =>
    rw [ih, insertAll_cons, insert_of_notBetter grammar cell verdict, pure_bind]
  | case3 cell offered pending verdict ih =>
    rw [ih, insertAll_cons, insert_of_cycle grammar cell verdict, bind_assoc]
    rfl
  | case4 cell offered pending verdict ih =>
    rw [ih, insertAll_append, insertAll_cons, insert_of_improves grammar cell verdict, bind_assoc]
    simp only [bind_assoc, pure_bind]

/-- Adding a derivation by way of an agenda is inserting it by recursion: the cell is the same, with
its labels in the same order, and so are the answer whether the derivation was stored and the record
of what was stored, extended and refused, in its order. -/
theorem add_eq_insert (offered : Derivation σ) :
    cell.add grammar offered = insert grammar cell offered := by
  cases verdict : cell.judge offered with
  | notBetter => simp only [add, verdict, insert_of_notBetter grammar cell verdict]
  | cycle => simp only [add, verdict, insert_of_cycle grammar cell verdict]
  | improves =>
    -- The agenda has the derivation alone, which passes the same test again.
    simp only [add, verdict]
    rw [close_eq_insertAll, insertAll_cons, insert_of_improves grammar cell verdict]
    simp only [bind_assoc, pure_bind, insertAll_nil]

end ChartParse.Cell
