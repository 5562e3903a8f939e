import ChartParse.Proofs.Text.Fields
import ChartParse.Proofs.Text.Utf8
import ChartParse.Text.Lines

/-!
What the lines of a text are, apart from any scan.

With a line feed in the place of each line end, a carriage return with a line feed counting as one,
the lines are the stretches between line feeds, and the last of these only if it is not empty
(`lines_eq`). No line has a line end in it (`endless_of_mem_lines`), and texts without line ends,
each with a line feed behind it, are the lines of what they make up (`lines_flatMap_feed`).
-/

namespace ChartParse.Text

/-- A text with a line feed in the place of each line end. -/
def unifyEnds : List Char → List Char
  | [] => []
  | '\r' :: '\n' :: rest => '\n' :: unifyEnds rest
  | '\r' :: rest => '\n' :: unifyEnds rest
  | c :: rest => c :: unifyEnds rest

def stretches (text : List Char) : List (List Char) :=
  fields (· == '\n') (unifyEnds text)

/-- A list of texts without its last if that is empty. -/
def dropEmptyLast (texts : List (List Char)) : List (List Char) :=
  if texts.getLast? = some [] then texts.dropLast else texts

theorem dropEmptyLast_cons (first : List Char) {texts : List (List Char)} (more : texts ≠ []) :
    dropEmptyLast (first :: texts) = first :: dropEmptyLast texts := by
  obtain ⟨second, others, rfl⟩ := List.exists_cons_of_ne_nil more
  simp only [dropEmptyLast, List.getLast?_cons_cons, List.dropLast_cons_cons]
  split <;> rfl

/-! ### The scan -/

/-- The lines that a scan has at the end of a text. -/
def LineScan.all (scan : LineScan) : List (List Char) :=
  if scan.returned || !scan.line.isEmpty then scan.finish.finished.reverse
  else scan.finished.reverse

/-- From the first character after a line end on, a scan finds what stands between the line ends of
the rest. -/
theorem all_foldl_step {text line : List Char} {finished : List (List Char)}
    (free : ∀ c ∈ line.reverse, (c == '\n') = false) :
    (text.foldl LineScan.step ⟨finished, line, false⟩).all =
      finished.reverse ++
        dropEmptyLast (fields (· == '\n') (line.reverse ++ unifyEnds text)) := by
  fun_induction unifyEnds text generalizing line finished with
  | case1 =>
    rw [List.append_nil, fields_eq_singleton _ free]
    cases line with
    | nil => simp [LineScan.all, dropEmptyLast]
    | cons c line => simp [LineScan.all, LineScan.finish, dropEmptyLast]
  | case2 rest ih =>
    have later := @ih [] (line.reverse :: finished) (List.forall_mem_nil _)
    rw [fields_append_cons _ free rfl, dropEmptyLast_cons _ (fields_ne_nil _ _)]
    simpa [LineScan.step, LineScan.finish] using later
  | case3 rest other ih =>
    have later := @ih [] (line.reverse :: finished) (List.forall_mem_nil _)
    rw [fields_append_cons _ free rfl, dropEmptyLast_cons _ (fields_ne_nil _ _)]
    -- The line is finished by the next character, which then begins another, or by the end.
    cases rest with
    | nil => simp [LineScan.step, LineScan.finish, LineScan.all, dropEmptyLast, fields, unifyEnds]
    | cons c rest =>
      have apart : c ≠ '\n' := by
        rintro rfl
        exact other rest rfl
      simpa [LineScan.step, LineScan.finish, apart] using later
  | case4 c rest pair single ih =>
    by_cases feed : c = '\n'
    · subst feed
      have later := @ih [] (line.reverse :: finished) (List.forall_mem_nil _)
      rw [fields_append_cons _ free rfl, dropEmptyLast_cons _ (fields_ne_nil _ _)]
      simpa [LineScan.step, LineScan.finish] using later
    · have longer : ∀ d ∈ (c :: line).reverse, (d == '\n') = false := by
        rw [List.reverse_cons]
        exact List.forall_mem_append.2 ⟨free, List.forall_mem_singleton.2 (by simpa using feed)⟩
      have later := @ih (c :: line) finished longer
      have ordinary : c ≠ '\r' := single
      simpa [LineScan.step, feed, ordinary] using later

theorem lines_eq (text : List Char) : lines text = dropEmptyLast (stretches text) :=
  all_foldl_step (List.forall_mem_nil _)

/-! ### What stands between line ends -/

/-- A text without line ends. -/
def Endless (text : List Char) : Prop :=
  ∀ c ∈ text, c ≠ '\n' ∧ c ≠ '\r'

-- The characters of the text are looked at, not all that there are.
instance (text : List Char) : Decidable (Endless text) :=
  List.decidableBAll _ text

@[simp] theorem endless_nil : Endless [] :=
  List.forall_mem_nil _

@[simp] theorem endless_cons {c : Char} {text : List Char} :
    Endless (c :: text) ↔ (c ≠ '\n' ∧ c ≠ '\r') ∧ Endless text :=
  List.forall_mem_cons

@[simp] theorem endless_append {first second : List Char} :
    Endless (first ++ second) ↔ Endless first ∧ Endless second :=
  List.forall_mem_append

theorem Endless.of_subset {text part : List Char} (endless : Endless text)
    (within : ∀ c ∈ part, c ∈ text) : Endless part :=
  fun c member => endless c (within c member)

theorem Endless.ne_feed {text : List Char} (endless : Endless text) :
    ∀ c ∈ text, (c == '\n') = false := by
  intro c member
  rw [beq_eq_false_iff_ne]
  exact (endless c member).1

theorem Endless.notMem_return {text : List Char} (endless : Endless text) : '\r' ∉ text :=
  fun member => (endless _ member).2 rfl

theorem unifyEnds_append {text : List Char} (free : '\r' ∉ text) (rest : List Char) :
    unifyEnds (text ++ rest) = text ++ unifyEnds rest := by
  induction text with
  | nil => rfl
  | cons c text ih =>
    rw [List.mem_cons, not_or] at free
    rw [List.cons_append, unifyEnds, ih free.2, List.cons_append]
    · exact fun _ same _ => free.1 same.symm
    · exact fun same => free.1 same.symm

section Stretches

variable {line : List Char} (endless : Endless line)
include endless

theorem stretches_eq_singleton : stretches line = [line] := by
  have same := unifyEnds_append endless.notMem_return []
  rw [unifyEnds, List.append_nil] at same
  rw [stretches, same, fields_eq_singleton _ endless.ne_feed]

theorem stretches_append {ending rest : List Char}
    (unified : unifyEnds ending = '\n' :: unifyEnds rest) :
    stretches (line ++ ending) = line :: stretches rest := by
  rw [stretches, unifyEnds_append endless.notMem_return, unified,
    fields_append_cons _ endless.ne_feed rfl, stretches]

theorem stretches_feed (rest : List Char) :
    stretches (line ++ '\n' :: rest) = line :: stretches rest :=
  stretches_append endless (by simp [unifyEnds])

theorem stretches_return_feed (rest : List Char) :
    stretches (line ++ '\r' :: '\n' :: rest) = line :: stretches rest :=
  stretches_append endless (by rw [unifyEnds])

theorem stretches_return {rest : List Char} (single : rest.head? ≠ some '\n') :
    stretches (line ++ '\r' :: rest) = line :: stretches rest := by
  refine stretches_append endless ?_
  rw [unifyEnds]
  rintro more rfl
  exact single rfl

end Stretches

theorem return_notMem_unifyEnds (text : List Char) : '\r' ∉ unifyEnds text := by
  fun_induction unifyEnds text with
  | case1 => exact List.not_mem_nil
  | case2 rest ih | case3 rest _ ih => simpa using ih
  | case4 c rest pair single ih =>
    rw [List.mem_cons, not_or]
    exact ⟨fun same => single same.symm, ih⟩

theorem endless_of_mem_stretches {text line : List Char} (member : line ∈ stretches text) :
    Endless line := by
  intro c inside
  constructor
  · have apart := not_separates_of_mem_fields _ member inside
    simpa using apart
  · rintro rfl
    exact return_notMem_unifyEnds text (mem_of_mem_fields member inside)

/-! ### Lines -/

theorem mem_of_mem_dropEmptyLast {texts : List (List Char)} {text : List Char}
    (member : text ∈ dropEmptyLast texts) : text ∈ texts := by
  unfold dropEmptyLast at member
  split at member
  · exact List.dropLast_subset _ member
  · exact member

/-- No line has a line end in it. -/
theorem endless_of_mem_lines {text line : List Char} (member : line ∈ lines text) :
    Endless line := by
  rw [lines_eq] at member
  exact endless_of_mem_stretches (mem_of_mem_dropEmptyLast member)

/-- For what takes nothing from an empty line, it makes no difference whether one is there. -/
theorem filterMap_lines {β : Type} {f : List Char → Option β} (bare : f [] = none)
    (text : List Char) : (lines text).filterMap f = (stretches text).filterMap f := by
  rw [lines_eq, dropEmptyLast]
  split
  next last =>
    obtain ⟨before, same⟩ := List.getLast?_eq_some_iff.1 last
    rw [same, List.dropLast_concat, List.filterMap_append]
    simp [bare]
  next => rfl

/-- Texts without line ends, each with a line feed behind it, are the lines of what they make up. -/
theorem lines_flatMap_feed {texts : List (List Char)} (endless : ∀ text ∈ texts, Endless text) :
    lines (texts.flatMap (· ++ ['\n'])) = texts := by
  have pieces : stretches (texts.flatMap (· ++ ['\n'])) = texts ++ [[]] := by
    induction texts with
    | nil => rfl
    | cons text rest ih =>
      obtain ⟨first, later⟩ := List.forall_mem_cons.1 endless
      rw [List.flatMap_cons, List.append_assoc, List.singleton_append, stretches_feed first,
        ih later, List.cons_append]
  rw [lines_eq, pieces, dropEmptyLast, if_pos (by simp), List.dropLast_concat]

/-- Bytes that are read without a fault give the lines of some text. -/
theorem exists_lines_of_complete {bytes : List UInt8} (complete : (readLines bytes).failure = none) :
    ∃ text, (readLines bytes).lines = lines text := by
  unfold readLines at complete ⊢
  split at complete
  next text _ => exact ⟨text, rfl⟩
  next => cases complete

theorem readLines_encode (text : List Char) :
    readLines (Utf8.encode text) = ⟨lines text, none⟩ := by
  rw [readLines, Utf8.decode_encode]

end ChartParse.Text
