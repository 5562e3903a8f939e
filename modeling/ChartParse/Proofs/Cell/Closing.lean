import ChartParse.Cell.Closure
import Mathlib.Logic.Relation

/-!
Closing a cell, step by step.

Adding a derivation is closing with it alone on the agenda, and adding several is closing with all of
them there (`Cell.foldl_close`). A step of closing takes the first derivation off the agenda and
either refuses it or stores it and puts its extensions in front. `Cell.close` is a run of such steps
until the agenda is empty (`run_close`), so what every step keeps holds of a closed cell.

Two kinds of invariant are carried through here once and for all: what everything offered has when
its turn comes (`Closing.Offering`), and so everything stored, and what it has ever after, stored or
refused (`Closing.Settling`).
-/

namespace ChartParse

variable {σ : Type} [Add σ]

theorem Cell.mem_extensions_iff {grammar : Grammar σ} {stored extension : Derivation σ} :
    extension ∈ Cell.extensions grammar stored ↔
      ∃ rule ∈ grammar.rules, grammar.kind? rule = some .unary ∧ rule.rhs = [stored.label] ∧
        extension = .unary rule.lhs (stored.score + rule.weight) stored := by
  simp only [Cell.extensions, List.mem_map, Grammar.mem_unaryRules_iff, and_assoc, eq_comm]

/-! ### Adding is closing -/

namespace Cell

variable [LT σ] [DecidableLT σ]

theorem value_add (grammar : Grammar σ) (cell : Cell σ) (offered : Derivation σ) :
    (cell.add grammar offered).value.1 = (cell.close grammar [offered]).value := by
  unfold add
  cases verdict : cell.judge offered with
  | improves => rfl
  | notBetter => rw [close_cons_of_notBetter grammar cell [] verdict, close_nil]; rfl
  | cycle => rw [close_cons_of_cycle grammar cell [] verdict, close_nil]; rfl

theorem work_add (grammar : Grammar σ) (cell : Cell σ) (offered : Derivation σ) :
    (cell.add grammar offered).work = (cell.close grammar [offered]).work := by
  unfold add
  cases verdict : cell.judge offered with
  | improves => simp
  | notBetter => rw [close_cons_of_notBetter grammar cell [] verdict, close_nil]; rfl
  | cycle => rw [close_cons_of_cycle grammar cell [] verdict, close_nil]; rfl

/-- Closing again and again is closing once, with all offers on the agenda. -/
theorem foldl_close {α : Type} (grammar : Grammar σ) (offers : α → List (Derivation σ))
    (xs : List α) (cell : Cell σ) :
    xs.foldl (fun cell x => (cell.close grammar (offers x)).value) cell =
      (cell.close grammar (xs.flatMap offers)).value := by
  induction xs generalizing cell with
  | nil => simp
  | cons x rest ih =>
    rw [List.foldl_cons, ih, List.flatMap_cons, close_append]
    rfl

end Cell

/-! ### Steps -/

/-- A cell that is being closed, and the derivations still to be offered to it. -/
structure Closing (σ : Type) where
  cell : Cell σ
  agenda : List (Derivation σ)

namespace Closing

variable [LT σ] [DecidableLT σ]

/-- What closing does with the first derivation on the agenda. -/
inductive Step (grammar : Grammar σ) : Closing σ → Closing σ → Prop
  | refuse {cell : Cell σ} {offered : Derivation σ} {pending : List (Derivation σ)}
      (refused : cell.judge offered ≠ .improves) :
      Step grammar ⟨cell, offered :: pending⟩ ⟨cell, pending⟩
  | store {cell : Cell σ} {offered : Derivation σ} {pending : List (Derivation σ)}
      (improves : cell.judge offered = .improves) :
      Step grammar ⟨cell, offered :: pending⟩
        ⟨cell.store offered, Cell.extensions grammar offered ++ pending⟩

abbrev Run (grammar : Grammar σ) : Closing σ → Closing σ → Prop :=
  Relation.ReflTransGen (Step grammar)

/-- Closing is a run that leaves nothing on the agenda. -/
theorem run_close (grammar : Grammar σ) (cell : Cell σ) (agenda : List (Derivation σ)) :
    Run grammar ⟨cell, agenda⟩ ⟨(cell.close grammar agenda).value, []⟩ := by
  fun_induction Cell.close grammar cell agenda with
  | case1 cell => exact .refl
  | case2 cell offered pending verdict ih =>
    exact .head (.refuse (by simp [verdict])) ih
  | case3 cell offered pending verdict ih =>
    exact .head (.refuse (by simp [verdict])) ih
  | case4 cell offered pending verdict ih =>
    exact .head (.store verdict) ih

/-- What every step keeps, every run keeps. -/
theorem Run.invariant {grammar : Grammar σ} {start finish : Closing σ}
    (run : Run grammar start finish) (holds : Closing σ → Prop)
    (step : ∀ {before after}, Step grammar before after → holds before → holds after)
    (initially : holds start) : holds finish := by
  induction run with
  | refl => exact initially
  | tail _ next ih => exact step next ih

/-! ### What is offered and what is stored -/

/-- A property of derivations in a cell that storing others does not take away, and that passes from
what is stored to its extensions. Whatever is offered then has it when its turn comes. -/
structure Offering (grammar : Grammar σ) (offered : Cell σ → Derivation σ → Prop) : Prop where
  lasts {cell : Cell σ} {stored other : Derivation σ} :
    cell.judge stored = .improves → offered cell other → offered (cell.store stored) other
  extend {cell : Cell σ} {stored : Derivation σ} :
    cell.judge stored = .improves → offered cell stored →
      ∀ extension ∈ Cell.extensions grammar stored, offered (cell.store stored) extension

namespace Offering

variable {grammar : Grammar σ} {offered : Cell σ → Derivation σ → Prop}

theorem step (offering : Offering grammar offered) {before after : Closing σ}
    (next : Step grammar before after)
    (pending : ∀ tree ∈ before.agenda, offered before.cell tree) :
    ∀ tree ∈ after.agenda, offered after.cell tree := by
  cases next with
  | refuse => exact (List.forall_mem_cons.1 pending).2
  | store improves =>
    obtain ⟨first, later⟩ := List.forall_mem_cons.1 pending
    exact List.forall_mem_append.2 ⟨offering.extend improves first,
      fun tree member => offering.lasts improves (later tree member)⟩

/-- What is true of a derivation whenever it is stored, and of all that a cell holds, is true of all
that the cell holds when it has been closed. -/
theorem forall_mem_close_of_held (offering : Offering grammar offered)
    {stored : Derivation σ → Prop}
    (store : ∀ {cell tree}, cell.judge tree = .improves → offered cell tree → stored tree)
    {cell : Cell σ} (held : ∀ tree ∈ cell.entries, stored tree) {offers : List (Derivation σ)}
    (initially : ∀ tree ∈ offers, offered cell tree) :
    ∀ tree ∈ (Cell.close grammar cell offers).value.entries, stored tree := by
  refine ((run_close grammar cell offers).invariant
    (fun closing => (∀ tree ∈ closing.agenda, offered closing.cell tree) ∧
      ∀ tree ∈ closing.cell.entries, stored tree)
    ?_ ⟨initially, held⟩).2
  rintro before after next ⟨pending, entries⟩
  refine ⟨offering.step next pending, ?_⟩
  cases next with
  | refuse => exact entries
  | store improves =>
    intro tree member
    rcases Cell.mem_entries_store member with rfl | earlier
    · exact store improves (pending tree List.mem_cons_self)
    · exact entries tree earlier

theorem forall_mem_close (offering : Offering grammar offered) {stored : Derivation σ → Prop}
    (store : ∀ {cell tree}, cell.judge tree = .improves → offered cell tree → stored tree)
    {offers : List (Derivation σ)} (initially : ∀ tree ∈ offers, offered .empty tree) :
    ∀ tree ∈ (Cell.close grammar .empty offers).value.entries, stored tree :=
  offering.forall_mem_close_of_held store (List.forall_mem_nil _) initially

end Offering

/-! ### What becomes of offers -/

/-- Besides, a property that a derivation has from the time that it was offered, whether it was
stored or refused. -/
structure Settling (grammar : Grammar σ) (offered settled : Cell σ → Derivation σ → Prop) : Prop
    extends Offering grammar offered where
  settled_lasts {cell : Cell σ} {stored other : Derivation σ} :
    cell.judge stored = .improves → settled cell other → settled (cell.store stored) other
  store {cell : Cell σ} {stored : Derivation σ} :
    cell.judge stored = .improves → settled (cell.store stored) stored
  refuse {cell : Cell σ} {refused : Derivation σ} :
    cell.judge refused ≠ .improves → offered cell refused → settled cell refused

namespace Settling

variable {grammar : Grammar σ} {offered settled : Cell σ → Derivation σ → Prop}

/-- The offers of a run, and the extensions of whatever the cell holds, are settled or have still
their turn to come. -/
structure Invariant (grammar : Grammar σ) (offered settled : Cell σ → Derivation σ → Prop)
    (offers : List (Derivation σ)) (closing : Closing σ) : Prop where
  pending : ∀ tree ∈ closing.agenda, offered closing.cell tree
  offers : ∀ tree ∈ offers, tree ∈ closing.agenda ∨ settled closing.cell tree
  extensions : ∀ tree ∈ closing.cell.entries, ∀ extension ∈ Cell.extensions grammar tree,
    extension ∈ closing.agenda ∨ settled closing.cell extension

theorem Invariant.refuse (settling : Settling grammar offered settled)
    {offers pending : List (Derivation σ)} {cell : Cell σ} {refused : Derivation σ}
    (invariant : Invariant grammar offered settled offers ⟨cell, refused :: pending⟩)
    (verdict : cell.judge refused ≠ .improves) :
    Invariant grammar offered settled offers ⟨cell, pending⟩ := by
  have done : settled cell refused :=
    settling.refuse verdict (invariant.pending refused List.mem_cons_self)
  -- Only the refused derivation has left the agenda.
  have off {tree : Derivation σ} (before : tree ∈ refused :: pending ∨ settled cell tree) :
      tree ∈ pending ∨ settled cell tree := by
    rcases before with waiting | known
    · rcases List.mem_cons.1 waiting with rfl | later
      · exact Or.inr done
      · exact Or.inl later
    · exact Or.inr known
  exact {
    pending := settling.toOffering.step (.refuse verdict) invariant.pending
    offers := fun tree member => off (invariant.offers tree member)
    extensions := fun tree member extension above =>
      off (invariant.extensions tree member extension above) }

theorem Invariant.store (settling : Settling grammar offered settled)
    {offers pending : List (Derivation σ)} {cell : Cell σ} {stored : Derivation σ}
    (invariant : Invariant grammar offered settled offers ⟨cell, stored :: pending⟩)
    (improves : cell.judge stored = .improves) :
    Invariant grammar offered settled offers
      ⟨cell.store stored, Cell.extensions grammar stored ++ pending⟩ := by
  have done : settled (cell.store stored) stored := settling.store improves
  have off {tree : Derivation σ} (before : tree ∈ stored :: pending ∨ settled cell tree) :
      tree ∈ Cell.extensions grammar stored ++ pending ∨ settled (cell.store stored) tree := by
    rcases before with waiting | known
    · rcases List.mem_cons.1 waiting with rfl | later
      · exact Or.inr done
      · exact Or.inl (List.mem_append_right _ later)
    · exact Or.inr (settling.settled_lasts improves known)
  refine ⟨?_, fun tree member => off (invariant.offers tree member), ?_⟩
  · exact settling.toOffering.step (.store improves) invariant.pending
  · intro tree member extension above
    rcases Cell.mem_entries_store member with rfl | earlier
    · exact Or.inl (List.mem_append_left _ above)
    · exact off (invariant.extensions tree earlier extension above)

theorem Invariant.step (settling : Settling grammar offered settled)
    {offers : List (Derivation σ)} {before after : Closing σ}
    (next : Step grammar before after)
    (invariant : Invariant grammar offered settled offers before) :
    Invariant grammar offered settled offers after := by
  cases next with
  | refuse refused => exact invariant.refuse settling refused
  | store improves => exact invariant.store settling improves

theorem run (settling : Settling grammar offered settled) {offers : List (Derivation σ)}
    (initially : ∀ tree ∈ offers, offered .empty tree) {closing : Closing σ}
    (run : Run grammar ⟨.empty, offers⟩ closing) :
    Invariant grammar offered settled offers closing :=
  run.invariant (Invariant grammar offered settled offers) (Invariant.step settling)
    ⟨initially, fun _ member => Or.inl member, List.forall_mem_nil _⟩

/-- In a closed cell all its offers are settled, and so are the extensions of all it holds. -/
theorem close (settling : Settling grammar offered settled) {offers : List (Derivation σ)}
    (initially : ∀ tree ∈ offers, offered .empty tree) :
    (∀ tree ∈ offers, settled (Cell.close grammar .empty offers).value tree) ∧
      ∀ tree ∈ (Cell.close grammar .empty offers).value.entries,
        ∀ extension ∈ Cell.extensions grammar tree,
          settled (Cell.close grammar .empty offers).value extension := by
  have invariant := settling.run initially (run_close grammar .empty offers)
  have idle {tree : Derivation σ} {holds : Prop} (either : tree ∈ [] ∨ holds) : holds :=
    either.resolve_left (List.not_mem_nil)
  exact ⟨fun tree member => idle (invariant.offers tree member),
    fun tree member extension above => idle (invariant.extensions tree member extension above)⟩

end Settling

end Closing

end ChartParse
