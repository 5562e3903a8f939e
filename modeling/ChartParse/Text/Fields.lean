import ChartParse.Text.Blank

/-!
Fields of a text: the stretches between separators. `n` separators make `n + 1` fields, some of
them perhaps empty (`length_fields`), which together are the text without the separators
(`flatten_fields`); words are the non-empty fields between blanks.
-/

namespace ChartParse.Text

/-- The stretches of a text between the characters of a class. -/
def fields (separates : Char → Bool) : List Char → List (List Char)
  | [] => [[]]
  | c :: rest =>
    if separates c then [] :: fields separates rest
    else match fields separates rest with
      | [] => [[c]]
      | field :: others => (c :: field) :: others

def words (text : List Char) : List (List Char) :=
  (fields isBlank text).filter fun field => !field.isEmpty

/-- A text up to a mark that opens a comment. -/
def cutAt (mark : Char) (text : List Char) : List Char :=
  text.takeWhile (· != mark)

theorem fields_ne_nil (separates : Char → Bool) (text : List Char) :
    fields separates text ≠ [] := by
  induction text with
  | nil => simp [fields]
  | cons c rest ih =>
    rw [fields]
    split
    · simp
    · split <;> simp

theorem length_fields (separates : Char → Bool) (text : List Char) :
    (fields separates text).length = text.countP separates + 1 := by
  induction text with
  | nil => rfl
  | cons c rest ih =>
    rw [fields]
    by_cases h : separates c
    · simp [h, ih]
    · -- The character goes to the first of the later fields, and there is one.
      cases found : fields separates rest with
      | nil => exact absurd found (fields_ne_nil separates rest)
      | cons field others =>
        rw [found] at ih
        simpa [h] using ih

theorem fields_eq_singleton (separates : Char → Bool) {text : List Char}
    (free : ∀ c ∈ text, separates c = false) : fields separates text = [text] := by
  induction text with
  | nil => rfl
  | cons c rest ih =>
    have later : fields separates rest = [rest] :=
      ih fun d member => free d (List.mem_cons_of_mem c member)
    simp [fields, free c List.mem_cons_self, later]

/-- A separator splits the fields of a text in two. -/
theorem fields_append_mark (separates : Char → Bool) {mark : Char} (marks : separates mark = true)
    (text rest : List Char) :
    fields separates (text ++ mark :: rest) = fields separates text ++ fields separates rest := by
  induction text with
  | nil => simp [fields, marks]
  | cons c text ih =>
    rw [List.cons_append, fields, fields, ih]
    split
    · rfl
    · cases found : fields separates text with
      | nil => exact absurd found (fields_ne_nil separates text)
      | cons field others => rfl

theorem fields_append_cons (separates : Char → Bool) {field rest : List Char} {mark : Char}
    (free : ∀ c ∈ field, separates c = false) (marks : separates mark = true) :
    fields separates (field ++ mark :: rest) = field :: fields separates rest := by
  rw [fields_append_mark separates marks, fields_eq_singleton separates free, List.singleton_append]

/-- Together the fields are the text without its separators. -/
theorem flatten_fields (separates : Char → Bool) (text : List Char) :
    (fields separates text).flatten = text.filter fun c => !separates c := by
  induction text with
  | nil => rfl
  | cons c rest ih =>
    rw [fields]
    by_cases h : separates c
    · simp [h, ih]
    · cases found : fields separates rest with
      | nil => exact absurd found (fields_ne_nil separates rest)
      | cons field others =>
        rw [found] at ih
        simpa [h] using ih

theorem mem_of_mem_fields {separates : Char → Bool} {text field : List Char}
    (member : field ∈ fields separates text) {c : Char} (inside : c ∈ field) : c ∈ text := by
  have kept := List.mem_flatten_of_mem member inside
  rw [flatten_fields] at kept
  exact (List.mem_filter.1 kept).1

theorem not_separates_of_mem_fields (separates : Char → Bool) {text field : List Char}
    (member : field ∈ fields separates text) {c : Char} (inside : c ∈ field) :
    separates c = false := by
  have kept := List.mem_flatten_of_mem member inside
  rw [flatten_fields] at kept
  simpa using (List.mem_filter.1 kept).2

end ChartParse.Text
