import ChartParse.Text.Fields
import Mathlib.Data.List.TakeWhile

/-!
Trimming, cutting and the words of texts that are put together from parts.

Main statements: `trim_append`, blanks around a text come off again; `words_append_blank`, a blank
splits the words of a text in two; `words_trim`, blanks at the ends make no difference to the words.
-/

namespace ChartParse.Text

/-! ### Trimming -/

theorem dropWhile_append_of_all {p : Char → Bool} {before text : List Char}
    (all : ∀ c ∈ before, p c = true) : (before ++ text).dropWhile p = text.dropWhile p := by
  rw [List.dropWhile_append, List.dropWhile_eq_nil_iff.2 all]
  rfl

theorem trimBy_append {p : Char → Bool} {before text after : List Char}
    (leading : ∀ c ∈ before, p c = true) (trailing : ∀ c ∈ after, p c = true) :
    trimBy p (before ++ text ++ after) = trimBy p text := by
  rw [trimBy, trimBy, List.append_assoc, dropWhile_append_of_all leading]
  by_cases bare : text.dropWhile p = []
  · rw [List.dropWhile_append, bare]
    simp [List.dropWhile_eq_nil_iff.2 trailing]
  · rw [List.dropWhile_append, if_neg (by simpa using bare), List.reverse_append,
      dropWhile_append_of_all (by simpa using trailing)]

theorem trim_append {before text after : List Char} (leading : ∀ c ∈ before, isBlank c = true)
    (trailing : ∀ c ∈ after, isBlank c = true) :
    trim (before ++ text ++ after) = trim text :=
  trimBy_append leading trailing

/-- If there is more than blanks before it, a text that does not end with a blank loses the blanks in
front only. -/
theorem trim_append_of_visible {text rest : List Char} (visible : text.dropWhile isBlank ≠ [])
    (last : ∃ c, rest.getLast? = some c ∧ isBlank c = false) :
    trim (text ++ rest) = text.dropWhile isBlank ++ rest := by
  obtain ⟨first, others, begun⟩ := List.exists_cons_of_ne_nil visible
  obtain ⟨final, ended, kept⟩ := last
  calc trim (text ++ rest)
      = trim (text.takeWhile isBlank ++ (text.dropWhile isBlank ++ rest) ++ []) := by
        rw [List.append_nil, ← List.append_assoc, List.takeWhile_append_dropWhile]
    _ = trim (text.dropWhile isBlank ++ rest) :=
        trim_append (fun _ member => List.mem_takeWhile_imp member) (List.forall_mem_nil _)
    _ = text.dropWhile isBlank ++ rest := by
        refine trim_eq_self (fun c head => ?_) fun c tail => ?_
        · rw [begun] at head
          exact head?_dropWhile_not isBlank text (begun ▸ head)
        · rw [List.getLast?_append, ended] at tail
          exact Option.some.inj tail ▸ kept

theorem trim_eq_nil {text : List Char} (blank : ∀ c ∈ text, isBlank c = true) : trim text = [] := by
  rw [trim, trimBy, List.dropWhile_eq_nil_iff.2 blank]
  rfl

/-- A text is what trimming leaves of it, between blanks. -/
theorem exists_eq_trim (text : List Char) :
    ∃ before after, text = before ++ trim text ++ after ∧ (∀ c ∈ before, isBlank c = true) ∧
      ∀ c ∈ after, isBlank c = true := by
  refine ⟨text.takeWhile isBlank, ((text.dropWhile isBlank).reverse.takeWhile isBlank).reverse,
    ?_, fun c member => List.mem_takeWhile_imp member, fun c member => ?_⟩
  · rw [trim, trimBy, List.append_assoc, ← List.reverse_append, List.takeWhile_append_dropWhile,
      List.reverse_reverse, List.takeWhile_append_dropWhile]
  · exact List.mem_takeWhile_imp (List.mem_reverse.1 member)

theorem mem_of_mem_trim {text : List Char} {c : Char} (member : c ∈ trim text) : c ∈ text := by
  obtain ⟨before, after, whole, -, -⟩ := exists_eq_trim text
  rw [whole]
  exact List.mem_append_left _ (List.mem_append_right _ member)

/-! ### Words -/

theorem words_append_blank {blank : Char} (separates : isBlank blank = true)
    (text rest : List Char) : words (text ++ blank :: rest) = words text ++ words rest := by
  rw [words, fields_append_mark isBlank separates, List.filter_append, ← words, ← words]

theorem words_eq_nil {text : List Char} (blank : ∀ c ∈ text, isBlank c = true) :
    words text = [] := by
  induction text with
  | nil => rfl
  | cons c rest ih =>
    obtain ⟨first, later⟩ := List.forall_mem_cons.1 blank
    exact (words_append_blank first [] rest).trans (ih later)

theorem words_eq_singleton {word : List Char} (nonempty : word ≠ [])
    (free : ∀ c ∈ word, isBlank c = false) : words word = [word] := by
  simp [words, fields_eq_singleton isBlank free, nonempty]

theorem words_append_of_blank {text rest : List Char} (blank : ∀ c ∈ rest, isBlank c = true) :
    words (text ++ rest) = words text := by
  cases rest with
  | nil => rw [List.append_nil]
  | cons c rest =>
    obtain ⟨first, later⟩ := List.forall_mem_cons.1 blank
    rw [words_append_blank first, words_eq_nil later, List.append_nil]

theorem words_of_blank_append {text before : List Char} (blank : ∀ c ∈ before, isBlank c = true) :
    words (before ++ text) = words text := by
  induction before with
  | nil => rfl
  | cons c rest ih =>
    obtain ⟨first, later⟩ := List.forall_mem_cons.1 blank
    exact (words_append_blank first [] (rest ++ text)).trans (ih later)

theorem words_trim (text : List Char) : words (trim text) = words text := by
  obtain ⟨before, after, whole, leading, trailing⟩ := exists_eq_trim text
  calc words (trim text) = words (before ++ trim text ++ after) := by
        rw [words_append_of_blank trailing, words_of_blank_append leading]
    _ = words text := by rw [← whole]

theorem not_blank_of_mem_words {text word : List Char} (member : word ∈ words text) :
    ∀ c ∈ word, isBlank c = false :=
  fun _ inside => not_separates_of_mem_fields isBlank (List.mem_filter.1 member).1 inside

/-! ### Comments -/

theorem cutAt_append {mark : Char} {text : List Char} (free : mark ∉ text) (rest : List Char) :
    cutAt mark (text ++ mark :: rest) = text := by
  have kept : ∀ c ∈ text, (c != mark) = true := by
    intro c member
    rw [bne_iff_ne]
    rintro rfl
    exact free member
  simp [cutAt, List.takeWhile_append_of_pos kept]

theorem cutAt_eq_self {mark : Char} {text : List Char} (free : mark ∉ text) :
    cutAt mark text = text := by
  rw [cutAt, List.takeWhile_eq_self_iff]
  intro c member
  rw [bne_iff_ne]
  rintro rfl
  exact free member

theorem mem_of_mem_cutAt {mark c : Char} {text : List Char} (member : c ∈ cutAt mark text) :
    c ∈ text :=
  (List.takeWhile_prefix _).subset member

end ChartParse.Text
