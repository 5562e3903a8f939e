import ChartParse.Derivation.Helper
import Mathlib.Data.List.Basic

/-!
What hiding nodes leaves of a rendering.

A tree in full is a list of marks: its words, and for each inner node the brackets around what is
below it (`marks`). To hide nodes is to drop their brackets from this list and nothing else; a text
is then written from the marks that are left, with a space wherever one tree is followed by another
(`render_eq_write`). The words are marks of their own, so that whatever is hidden they come as they
stand in the tree (`words_shown`).

Main statement: `render_splices`.
-/

namespace ChartParse

theorem isHelper_eq_true_iff {stem symbol : String} :
    isHelper stem symbol = true ↔ ∃ digits : List Char, digits ≠ [] ∧
      (∀ c ∈ digits, Text.isDigit c = true) ∧ symbol = stem ++ String.ofList digits := by
  simp only [isHelper, Bool.and_eq_true, List.isPrefixOf_iff_prefix, List.all_eq_true,
    Bool.not_eq_true', List.isEmpty_eq_false_iff]
  constructor
  · rintro ⟨⟨⟨digits, whole⟩, nonempty⟩, decimal⟩
    rw [← whole, List.drop_left] at nonempty decimal
    exact ⟨digits, nonempty, decimal, by simp [← String.toList_inj, ← whole]⟩
  · rintro ⟨digits, nonempty, decimal, rfl⟩
    rw [String.toList_append, String.toList_ofList, List.drop_left]
    exact ⟨⟨List.prefix_append _ _, nonempty⟩, decimal⟩

namespace Derivation

variable {σ : Type}

/-- What a rendering is written from. -/
inductive Mark where
  | opening (label : String)
  | word (word : String)
  | closing (label : String)
  deriving DecidableEq, Repr

namespace Mark

/-- Words are always shown, and the brackets of a node together. -/
def isShown (hide : String → Bool) : Mark → Bool
  | opening label => !hide label
  | word _ => true
  | closing label => !hide label

def text : Mark → String
  | opening label => "(" ++ label ++ " "
  | word symbol => symbol
  | closing _ => ")"

def word? : Mark → Option String
  | word symbol => some symbol
  | _ => none

/-- Whether a tree can start with the mark. -/
def starts : Mark → Bool
  | closing _ => false
  | _ => true

/-- Whether a tree can end with the mark. -/
def ends : Mark → Bool
  | opening _ => false
  | _ => true

/-- A space stands between two trees. -/
def gap : Option Mark → Option Mark → String
  | some before, some after => if before.ends && after.starts then " " else ""
  | _, _ => ""

def write : List Mark → String
  | [] => ""
  | mark :: rest => mark.text ++ gap (some mark) rest.head? ++ write rest

end Mark

/-- A tree with nothing hidden. -/
def marks : Derivation σ → List Mark
  | leaf word _ => [.word word]
  | unary label _ child => .opening label :: (child.marks ++ [.closing label])
  | binary label _ left right => .opening label :: (left.marks ++ right.marks ++ [.closing label])

def shown (hide : String → Bool) (node : Derivation σ) : List Mark :=
  node.marks.filter (Mark.isShown hide)

/-! ### Writing marks -/

theorem Mark.write_append (first rest : List Mark) :
    write (first ++ rest) = write first ++ gap first.getLast? rest.head? ++ write rest := by
  induction first with
  | nil => simp [write, gap]
  | cons mark others ih =>
    cases others with
    | nil => simp [write, gap]
    | cons next others =>
      -- The first mark is next to the same mark as before, so its gap is the same.
      have whole : write (mark :: next :: others) =
          mark.text ++ gap (some mark) (some next) ++ write (next :: others) := rfl
      rw [List.cons_append, write, ih, whole]
      simp [String.append_assoc]

/-- Marks that are of one tree or more, all of them whole. -/
structure Whole (marks : List Mark) : Prop where
  starts : ∃ mark ∈ marks.head?, mark.starts = true
  ends : ∃ mark ∈ marks.getLast?, mark.ends = true

theorem whole_word (word : String) : Whole [.word word] where
  starts := ⟨_, rfl, rfl⟩
  ends := ⟨_, rfl, rfl⟩

theorem whole_brackets (label : String) (inner : List Mark) :
    Whole (.opening label :: (inner ++ [.closing label])) where
  starts := ⟨_, rfl, rfl⟩
  ends := ⟨.closing label, by simp [List.getLast?_cons], rfl⟩

theorem Whole.append {left right : List Mark} (first : Whole left) (second : Whole right) :
    Whole (left ++ right) where
  starts := by
    obtain ⟨mark, head, starts⟩ := first.starts
    exact ⟨mark, by simp [Option.mem_def.1 head], starts⟩
  ends := by
    obtain ⟨mark, last, ends⟩ := second.ends
    exact ⟨mark, by simp [Option.mem_def.1 last], ends⟩

theorem Whole.write_append {left right : List Mark} (first : Whole left) (second : Whole right) :
    Mark.write (left ++ right) = Mark.write left ++ " " ++ Mark.write right := by
  obtain ⟨last, found, ends⟩ := first.ends
  obtain ⟨head, there, starts⟩ := second.starts
  rw [Mark.write_append, found, there, Mark.gap, ends, starts]
  rfl

/-- No space stands between brackets and what is inside. -/
theorem Whole.write_brackets {inner : List Mark} (whole : Whole inner) (label : String) :
    Mark.write (.opening label :: (inner ++ [.closing label])) =
      "(" ++ label ++ " " ++ Mark.write inner ++ ")" := by
  obtain ⟨head, there, -⟩ := whole.starts
  obtain ⟨last, found, -⟩ := whole.ends
  have before : Mark.gap (some (.opening label)) (inner ++ [Mark.closing label]).head? = "" := by
    simp [Option.mem_def.1 there, Mark.gap, Mark.ends]
  have after : Mark.gap inner.getLast? [Mark.closing label].head? = "" := by
    simp [Option.mem_def.1 found, Mark.gap, Mark.starts]
  rw [Mark.write, before, Mark.write_append, after]
  simp [Mark.write, Mark.text, Mark.gap, String.append_assoc]

/-! ### What is shown of a tree -/

/-- The marks of a node around those of its children. -/
def enclose (hide : String → Bool) (label : String) (inner : List Mark) : List Mark :=
  if hide label then inner else .opening label :: (inner ++ [.closing label])

variable (hide : String → Bool)

theorem filter_brackets (label : String) (inner : List Mark) :
    (Mark.opening label :: (inner ++ [.closing label])).filter (Mark.isShown hide) =
      enclose hide label (inner.filter (Mark.isShown hide)) := by
  cases hidden : hide label <;> simp [enclose, Mark.isShown, hidden]

theorem shown_leaf (word : String) (score : σ) : (leaf word score).shown hide = [.word word] := rfl

theorem shown_unary (label : String) (score : σ) (child : Derivation σ) :
    (unary label score child).shown hide = enclose hide label (child.shown hide) :=
  filter_brackets hide label child.marks

theorem shown_binary (label : String) (score : σ) (left right : Derivation σ) :
    (binary label score left right).shown hide =
      enclose hide label (left.shown hide ++ right.shown hide) := by
  rw [shown, marks, filter_brackets, List.filter_append, shown, shown]

variable {hide}

theorem Whole.enclose {inner : List Mark} (whole : Whole inner) (label : String) :
    Whole (enclose hide label inner) := by
  unfold Derivation.enclose
  split
  · exact whole
  · exact whole_brackets label inner

theorem Whole.write_enclose {inner : List Mark} (whole : Whole inner) {below : List String}
    (written : Mark.write inner = " ".intercalate below) (label : String) :
    Mark.write (Derivation.enclose hide label inner) =
      " ".intercalate (bracket hide label below) := by
  unfold Derivation.enclose bracket
  split
  · exact written
  · rw [whole.write_brackets, written, String.intercalate_singleton]

theorem whole_shown (node : Derivation σ) : Whole (node.shown hide) := by
  induction node with
  | leaf word score => exact whole_word word
  | unary label score child ih =>
    rw [shown_unary]
    exact ih.enclose label
  | binary label score left right ihLeft ihRight =>
    rw [shown_binary]
    exact (ihLeft.append ihRight).enclose label

theorem bracket_ne_nil {label : String} {inner : List String} (nonempty : inner ≠ []) :
    bracket hide label inner ≠ [] := by
  unfold bracket
  split
  · exact nonempty
  · exact List.cons_ne_nil _ _

theorem parts_ne_nil (node : Derivation σ) : node.parts hide ≠ [] := by
  induction node with
  | leaf word score => exact List.cons_ne_nil _ _
  | unary label score child ih => exact bracket_ne_nil ih
  | binary label score left right ihLeft ihRight =>
    exact bracket_ne_nil (List.append_ne_nil_of_left_ne_nil ihLeft _)

theorem write_shown (node : Derivation σ) :
    Mark.write (node.shown hide) = " ".intercalate (node.parts hide) := by
  induction node with
  | leaf word score => simp [shown_leaf, Mark.write, Mark.text, Mark.gap, parts]
  | unary label score child ih =>
    rw [shown_unary, parts, (whole_shown child).write_enclose ih]
  | binary label score left right ihLeft ihRight =>
    -- Neither child contributes nothing, so there is one space between the two in both texts.
    have written : Mark.write (left.shown hide ++ right.shown hide) =
        " ".intercalate (left.parts hide ++ right.parts hide) := by
      rw [(whole_shown left).write_append (whole_shown right), ihLeft, ihRight,
        String.intercalate_append_of_ne_nil (parts_ne_nil left) (parts_ne_nil right)]
    rw [shown_binary, parts, ((whole_shown left).append (whole_shown right)).write_enclose written]

theorem render_eq_write (node : Derivation σ) :
    node.render hide = Mark.write (node.shown hide) := by
  rw [render_eq, write_shown]

theorem words_brackets (label : String) (inner : List Mark) :
    (Mark.opening label :: (inner ++ [.closing label])).filterMap Mark.word? =
      inner.filterMap Mark.word? := by
  rw [List.filterMap_cons_none rfl, List.filterMap_append, List.filterMap_cons_none rfl,
    List.filterMap_nil, List.append_nil]

theorem words_marks (node : Derivation σ) : node.marks.filterMap Mark.word? = node.yield := by
  induction node with
  | leaf word score => rfl
  | unary label score child ih => rw [marks, words_brackets, ih, yield]
  | binary label score left right ihLeft ihRight =>
    rw [marks, words_brackets, List.filterMap_append, ihLeft, ihRight, yield]

theorem words_shown (node : Derivation σ) :
    (node.shown hide).filterMap Mark.word? = node.yield := by
  rw [shown, List.filterMap_filter, ← words_marks]
  -- A mark that is dropped is a bracket, which gives no word anyway.
  congr 1
  funext mark
  cases mark <;> simp [Mark.isShown, Mark.word?]

theorem Mark.isShown_isHelper_eq_false_iff {stem : String} {mark : Mark} :
    mark.isShown (isHelper stem) = false ↔ ∃ digits : List Char, digits ≠ [] ∧
      (∀ c ∈ digits, Text.isDigit c = true) ∧
        (mark = .opening (stem ++ String.ofList digits) ∨
          mark = .closing (stem ++ String.ofList digits)) := by
  cases mark with
  | word symbol => simp [isShown]
  | opening label => simp [isShown, isHelper_eq_true_iff]
  | closing label => simp [isShown, isHelper_eq_true_iff]

/-- The texts of a node from those of its children, if it has them. -/
theorem partsOnStack_ofParts (label : String) (score : σ) (left right : Option (Derivation σ)) :
    (ofParts label score left right).partsOnStack hide =
      match left with
      | none => [label]
      | some child =>
        let below := child.partsOnStack hide ++ (right.map (partsOnStack hide)).getD []
        if hide label then below else
          ["(" ++ label ++ " " ++ " ".intercalate below ++ ")"] := by
  cases left with
  | none => exact partsOnStack_eq hide (leaf label score)
  | some child =>
    cases right with
    | none => simp [ofParts, partsOnStack_eq, parts, bracket]
    | some second => simp [ofParts, partsOnStack_eq, parts, bracket]

/-! ### Main result -/

/-- For every node, one that has a right child only being a leaf, and for all ways to hide labels:
the renderer finds all the results that it gathers and ends with one, which is the label of a leaf,
what the children of a hidden node contribute, the left before the right, or else this in the
brackets of the node. The text is that of the tree in full without the brackets of the hidden nodes,
and the words stand in it as they do in the tree. The brackets that are hidden with the helpers are
those with the stem and one or more digits for a label. -/
theorem render_splices (hide : String → Bool) (label : String) (score : σ)
    (left right : Option (Derivation σ)) :
    let node := ofParts label score left right
    assemble hide [.visit node] [] = some [node.partsOnStack hide] ∧
    (node.partsOnStack hide =
      match left with
      | none => [label]
      | some child =>
        let below := child.partsOnStack hide ++ (right.map (partsOnStack hide)).getD []
        if hide label then below else ["(" ++ label ++ " " ++ " ".intercalate below ++ ")"]) ∧
    node.render hide = Mark.write (node.marks.filter (Mark.isShown hide)) ∧
    (node.marks.filter (Mark.isShown hide)).filterMap Mark.word? = node.yield ∧
    ∀ (stem : String) (mark : Mark), mark.isShown (isHelper stem) = false ↔
      ∃ digits : List Char, digits ≠ [] ∧ (∀ c ∈ digits, Text.isDigit c = true) ∧
        (mark = .opening (stem ++ String.ofList digits) ∨
          mark = .closing (stem ++ String.ofList digits)) := by
  intro node
  refine ⟨?_, partsOnStack_ofParts label score left right, render_eq_write node, words_shown node,
    fun _ _ => Mark.isShown_isHelper_eq_false_iff⟩
  rw [assemble_visit, assemble, partsOnStack_eq]

example :
    let helper : Derivation Int := .binary "X12" 0 (.leaf "X3" 0) (.unary "X" 0 (.leaf "a" 0))
    (ofParts "S" 0 (some helper) (some (ofParts "b" 0 none (some helper)))).render
      (isHelper "X") = "(S X3 (X a) b)" := by
  cbv

end Derivation

end ChartParse
