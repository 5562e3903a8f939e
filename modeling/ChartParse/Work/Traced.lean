/-!
Values together with the record of the work done to compute them. The record never influences a
value: `value_bind` computes the value of a sequence from values alone, and `work_bind` says that
its record is the records of its parts one after another.
-/

namespace ChartParse

structure Traced (ε α : Type) where
  value : α
  work : List ε
  deriving DecidableEq, Repr

namespace Traced

variable {ε α β γ : Type}

def record (event : ε) : Traced ε Unit :=
  ⟨(), [event]⟩

instance : Monad (Traced ε) where
  pure value := ⟨value, []⟩
  bind first next :=
    let second := next first.value
    ⟨second.value, first.work ++ second.work⟩

@[simp] theorem value_pure (value : α) : (pure value : Traced ε α).value = value := rfl

@[simp] theorem work_pure (value : α) : (pure value : Traced ε α).work = [] := rfl

@[simp] theorem value_bind (first : Traced ε α) (next : α → Traced ε β) :
    (first >>= next).value = (next first.value).value := rfl

@[simp] theorem work_bind (first : Traced ε α) (next : α → Traced ε β) :
    (first >>= next).work = first.work ++ (next first.value).work := rfl

@[simp] theorem value_map (f : α → β) (first : Traced ε α) : (f <$> first).value = f first.value :=
  rfl

@[simp] theorem work_map (f : α → β) (first : Traced ε α) : (f <$> first).work = first.work :=
  List.append_nil first.work

@[simp] theorem work_record (event : ε) : (record event).work = [event] := rfl

@[ext] theorem ext {first second : Traced ε α} (value : first.value = second.value)
    (work : first.work = second.work) : first = second := by
  cases first
  cases second
  simp_all

instance : LawfulMonad (Traced ε) :=
  LawfulMonad.mk' (Traced ε)
    (fun _ => by ext <;> simp [Functor.map])
    (fun _ _ => rfl)
    (fun _ _ _ => by ext <;> simp)

/-- A loop computes what it computes without the record. -/
theorem value_foldlM (step : β → α → Traced ε β) (start : β) (xs : List α) :
    (xs.foldlM step start).value = xs.foldl (fun state x => (step state x).value) start := by
  induction xs generalizing start with
  | nil => rfl
  | cons x rest ih => simp [ih]

theorem foldlM_congr {step other : β → α → Traced ε β} {xs : List α}
    (same : ∀ x ∈ xs, ∀ state, step state x = other state x) (start : β) :
    xs.foldlM step start = xs.foldlM other start := by
  induction xs generalizing start with
  | nil => rfl
  | cons x rest ih =>
    obtain ⟨first, later⟩ := List.forall_mem_cons.1 same
    rw [List.foldlM_cons, List.foldlM_cons, first start]
    exact congrArg _ (funext fun state => ih later state)

theorem mapM_congr {f g : α → Traced ε β} {xs : List α} (same : ∀ x ∈ xs, f x = g x) :
    xs.mapM f = xs.mapM g := by
  induction xs with
  | nil => rfl
  | cons x rest ih =>
    obtain ⟨first, later⟩ := List.forall_mem_cons.1 same
    rw [List.mapM_cons, List.mapM_cons, first, ih later]

/-- What comes after a program need only agree on the value that the program has. -/
theorem bind_congr {first : Traced ε α} {next other : α → Traced ε β}
    (same : next first.value = other first.value) : first >>= next = first >>= other := by
  ext1 <;> simp [same]

theorem value_mapM (f : α → Traced ε β) (xs : List α) :
    (xs.mapM f).value = xs.map fun x => (f x).value := by
  induction xs with
  | nil => rfl
  | cons x rest ih => simp [ih]

theorem work_mapM (f : α → Traced ε β) (xs : List α) :
    (xs.mapM f).work = xs.flatMap fun x => (f x).work := by
  induction xs with
  | nil => rfl
  | cons x rest ih => simp [ih]

/-! ### Views of a record -/

/-- What a view sees in the events of a record, in their order. -/
def seen (view : ε → Option γ) (traced : Traced ε α) : List γ :=
  traced.work.filterMap view

variable {view : ε → Option γ}

@[simp] theorem seen_pure (value : α) : (pure value : Traced ε α).seen view = [] := rfl

@[simp] theorem seen_bind (first : Traced ε α) (next : α → Traced ε β) :
    (first >>= next).seen view = first.seen view ++ (next first.value).seen view := by
  simp [seen]

@[simp] theorem seen_map (f : α → β) (first : Traced ε α) :
    (f <$> first).seen view = first.seen view := by
  simp [seen]

@[simp] theorem seen_record (event : ε) : (record event).seen view = (view event).toList := by
  cases seen : view event <;> simp [Traced.seen, seen]

theorem seen_foldlM {step : β → α → Traced ε β} {sights : α → List γ} {xs : List α}
    (each : ∀ x ∈ xs, ∀ state, (step state x).seen view = sights x) (start : β) :
    (xs.foldlM step start).seen view = xs.flatMap sights := by
  induction xs generalizing start with
  | nil => rfl
  | cons x rest ih =>
    obtain ⟨first, later⟩ := List.forall_mem_cons.1 each
    rw [List.foldlM_cons, seen_bind, first, ih later, List.flatMap_cons]

end Traced

end ChartParse
