import ChartParse.Derivation.Rendering
import ChartParse.Text.Fields

/-!
Reading bracketed trees.

A rendering with nothing hidden is cut at its spaces. A piece that starts with a bracket opens a
node; any other is a word, and each bracket after the word closes a node. The reader keeps the open
nodes on a stack, with the children each of them has so far.

Main statement: the reader gets back a tree from its rendering, but for the scores
(`readTree_render`), where no label or word is empty or has a space or bracket in it.
-/

namespace ChartParse.Derivation

variable {σ : Type}

/-- The tree without its scores. -/
def shape : Derivation σ → Derivation Unit
  | leaf word _ => leaf word ()
  | unary label _ child => unary label () child.shape
  | binary label _ left right => binary label () left.shape right.shape

/-- The labels and words of a tree, in the order they are written. -/
def symbols : Derivation σ → List String
  | leaf word _ => [word]
  | unary label _ child => label :: child.symbols
  | binary label _ left right => label :: (left.symbols ++ right.symbols)

/-- A symbol that is not empty and has neither spaces nor brackets in it. -/
def IsPlain (symbol : String) : Prop :=
  symbol.toList ≠ [] ∧ ∀ c ∈ symbol.toList, c ≠ ' ' ∧ c ≠ '(' ∧ c ≠ ')'

-- The characters of the symbol are looked at, not all that there are.
instance (symbol : String) : Decidable (IsPlain symbol) :=
  @instDecidableAnd _ _ inferInstance (List.decidableBAll _ _)

def Plain (tree : Derivation σ) : Prop :=
  ∀ symbol ∈ tree.symbols, IsPlain symbol

instance (tree : Derivation σ) : Decidable tree.Plain :=
  inferInstanceAs (Decidable (∀ symbol ∈ tree.symbols, IsPlain symbol))

@[simp] theorem plain_leaf {word : String} {score : σ} :
    (leaf word score).Plain ↔ IsPlain word := by
  simp [Plain, symbols]

@[simp] theorem plain_unary {label : String} {score : σ} {child : Derivation σ} :
    (unary label score child).Plain ↔ IsPlain label ∧ child.Plain := by
  simp [Plain, symbols]

@[simp] theorem plain_binary {label : String} {score : σ} {left right : Derivation σ} :
    (binary label score left right).Plain ↔ IsPlain label ∧ left.Plain ∧ right.Plain := by
  simp [Plain, symbols, or_imp, forall_and]

def hideNothing (_label : String) : Bool :=
  false

/-! ### The reader -/

inductive Token where
  | opening (label : String)
  | word (word : String)
  | closing
  deriving DecidableEq, Repr

def pieceTokens : List Char → List Token
  | [] => []
  | first :: rest =>
    if first = '(' then [.opening (String.ofList rest)]
    else
      let piece := first :: rest
      .word (String.ofList (piece.takeWhile (· != ')'))) ::
        (piece.dropWhile (· != ')')).map fun _ => .closing

def scan (text : List Char) : List Token :=
  (Text.fields (· == ' ') text).flatMap pieceTokens

/-- An open node: its label and the children it has so far, the latest first. -/
structure OpenNode where
  label : String
  children : List (Derivation Unit)

/-- Gives a finished tree to the innermost open node. -/
def attach (tree : Derivation Unit) : List OpenNode → Option (List OpenNode)
  | [] => none
  | ⟨label, children⟩ :: outer => some (⟨label, tree :: children⟩ :: outer)

def OpenNode.close? : OpenNode → Option (Derivation Unit)
  | ⟨label, [child]⟩ => some (.unary label () child)
  | ⟨label, [right, left]⟩ => some (.binary label () left right)
  | _ => none

def readToken (stack : List OpenNode) : Token → Option (List OpenNode)
  | .opening label => some (⟨label, []⟩ :: stack)
  | .word word => attach (.leaf word ()) stack
  | .closing =>
    match stack with
    | [] => none
    | node :: outer => node.close?.bind fun tree => attach tree outer

/-- Reads a bracketed text that is a single tree. -/
def readTree? (text : String) : Option (Derivation Unit) :=
  -- The lowest entry of the stack collects what stands outside all brackets.
  match (scan text.toList).foldlM readToken [⟨"", []⟩] with
  | some [⟨_, [tree]⟩] => some tree
  | _ => none

/-! ### Tokens of a rendering -/

/-- The text of a tree with nothing hidden. -/
def bracketed : Derivation σ → List Char
  | leaf word _ => word.toList
  | unary label _ child => '(' :: (label.toList ++ ' ' :: (child.bracketed ++ [')']))
  | binary label _ left right =>
    '(' :: (label.toList ++ ' ' :: (left.bracketed ++ ' ' :: (right.bracketed ++ [')'])))

def tokens : Derivation σ → List Token
  | leaf word _ => [.word word]
  | unary label _ child => .opening label :: (child.tokens ++ [.closing])
  | binary label _ left right =>
    .opening label :: (left.tokens ++ (right.tokens ++ [.closing]))

theorem parts_hideNothing (tree : Derivation σ) :
    tree.parts hideNothing = [String.ofList tree.bracketed] := by
  induction tree with
  | leaf word score => simp [parts, bracketed]
  | unary label score child ih =>
    simp [parts, ih, bracket, hideNothing, bracketed, ← String.toList_inj]
  | binary label score left right ihLeft ihRight =>
    simp [parts, ihLeft, ihRight, bracket, hideNothing, bracketed, ← String.toList_inj]

theorem toList_render (tree : Derivation σ) :
    (tree.render hideNothing).toList = tree.bracketed := by
  rw [render_eq, parts_hideNothing, String.intercalate_singleton, String.toList_ofList]

theorem pieceTokens_opening (label : List Char) :
    pieceTokens ('(' :: label) = [.opening (String.ofList label)] := by
  rw [pieceTokens, if_pos rfl]

theorem pieceTokens_word {word : List Char} (nonempty : word ≠ [])
    (free : ∀ c ∈ word, c ≠ '(' ∧ c ≠ ')') (closings : Nat) :
    pieceTokens (word ++ List.replicate closings ')') =
      .word (String.ofList word) :: List.replicate closings .closing := by
  have inside : ∀ c ∈ word, (c != ')') = true := fun c member => by simp [(free c member).2]
  cases word with
  | nil => exact absurd rfl nonempty
  | cons first rest =>
    rw [List.cons_append, pieceTokens, if_neg (free first List.mem_cons_self).1, ← List.cons_append]
    simp only [List.takeWhile_append_of_pos inside, List.dropWhile_append_of_pos inside]
    simp

/-- A text that ends the piece before it. -/
def EndsPiece (tail : List Char) : Prop :=
  tail = [] ∨ ∃ rest, tail = ' ' :: rest

theorem scan_space (rest : List Char) : scan (' ' :: rest) = scan rest := by
  simp [scan, Text.fields, pieceTokens]

theorem scan_append {piece tail : List Char} (free : ∀ c ∈ piece, (c == ' ') = false)
    (ends : EndsPiece tail) : scan (piece ++ tail) = pieceTokens piece ++ scan tail := by
  rcases ends with rfl | ⟨rest, rfl⟩
  · simp [scan, Text.fields_eq_singleton _ free, Text.fields, pieceTokens]
  · rw [scan_space]
    simp [scan, Text.fields_append_cons _ free]

theorem scan_opening {label : String} (plain : IsPlain label) (rest : List Char) :
    scan ('(' :: (label.toList ++ ' ' :: rest)) = .opening label :: scan rest := by
  have free : ∀ c ∈ '(' :: label.toList, (c == ' ') = false := by
    simpa using fun c member => (plain.2 c member).1
  rw [← List.cons_append, scan_append free (Or.inr ⟨rest, rfl⟩), pieceTokens_opening, scan_space,
    String.ofList_toList, List.singleton_append]

/-- The brackets that close a tree and the nodes around it follow its last word at once. -/
theorem scan_bracketed {tree : Derivation σ} (plain : tree.Plain) (closings : Nat)
    {tail : List Char} (ends : EndsPiece tail) :
    scan (tree.bracketed ++ (List.replicate closings ')' ++ tail)) =
      tree.tokens ++ (List.replicate closings .closing ++ scan tail) := by
  induction tree generalizing closings tail with
  | leaf word score =>
    rw [plain_leaf] at plain
    have free : ∀ c ∈ word.toList ++ List.replicate closings ')', (c == ' ') = false := by
      intro c member
      rcases List.mem_append.1 member with inside | bracket
      · simpa using (plain.2 c inside).1
      · simp [List.eq_of_mem_replicate bracket]
    rw [bracketed, ← List.append_assoc, scan_append free ends,
      pieceTokens_word plain.1 fun c inside => (plain.2 c inside).2, String.ofList_toList, tokens]
    rfl
  | unary label score child ih =>
    rw [plain_unary] at plain
    have below := ih plain.2 (closings + 1) ends
    simp only [List.replicate_succ, List.cons_append] at below
    simp only [bracketed, tokens, List.cons_append, List.append_assoc, List.nil_append,
      scan_opening plain.1, below]
  | binary label score left right ihLeft ihRight =>
    rw [plain_binary] at plain
    have onRight := ihRight plain.2.2 (closings + 1) ends
    simp only [List.replicate_succ, List.cons_append] at onRight
    have onLeft (rest : List Char) :
        scan (left.bracketed ++ ' ' :: rest) = left.tokens ++ scan rest := by
      simpa [scan_space] using ihLeft plain.2.1 0 (Or.inr ⟨rest, rfl⟩)
    simp only [bracketed, tokens, List.cons_append, List.append_assoc, List.nil_append,
      scan_opening plain.1, onLeft, onRight]

theorem scan_render {tree : Derivation σ} (plain : tree.Plain) :
    scan (tree.render hideNothing).toList = tree.tokens := by
  simpa [toList_render, scan, Text.fields, pieceTokens] using scan_bracketed plain 0 (Or.inl rfl)

/-! ### Reading the tokens -/

/-- The tokens of a tree give it to the innermost open node. -/
theorem foldlM_tokens (tree : Derivation σ) (node : OpenNode) (outer : List OpenNode) :
    tree.tokens.foldlM readToken (node :: outer) = attach tree.shape (node :: outer) := by
  induction tree generalizing node outer with
  | leaf word score => rfl
  | unary label score child ih =>
    simp only [tokens, List.foldlM_cons, List.foldlM_append, readToken, Option.bind_eq_bind,
      Option.bind_some, ih, attach]
    rfl
  | binary label score left right ihLeft ihRight =>
    simp only [tokens, List.foldlM_cons, List.foldlM_append, readToken, Option.bind_eq_bind,
      Option.bind_some, ihLeft, ihRight, attach]
    rfl

/-- The reader gets back a tree from its rendering, but for the scores. -/
theorem readTree_render {tree : Derivation σ} (plain : tree.Plain) :
    readTree? (tree.render hideNothing) = some tree.shape := by
  rw [readTree?, scan_render plain, foldlM_tokens]
  rfl

theorem bracketed_shape (tree : Derivation σ) : tree.shape.bracketed = tree.bracketed := by
  induction tree with
  | leaf word score => rfl
  | unary label score child ih => rw [shape, bracketed, bracketed, ih]
  | binary label score left right ihLeft ihRight =>
    rw [shape, bracketed, bracketed, ihLeft, ihRight]

/-- A rendering with nothing hidden determines the tree, but for the scores: a reader of brackets
gets it back. -/
theorem render_determines_shape (first second : Derivation σ) (firstPlain : first.Plain)
    (secondPlain : second.Plain) :
    readTree? (first.render hideNothing) = some first.shape ∧
      (first.render hideNothing = second.render hideNothing ↔ first.shape = second.shape) := by
  refine ⟨readTree_render firstPlain, fun same => ?_, fun same => ?_⟩
  · apply Option.some.inj
    rw [← readTree_render firstPlain, same, readTree_render secondPlain]
  · rw [← String.toList_inj, toList_render, toList_render, ← bracketed_shape, same, bracketed_shape]

theorem render_determines_shape_scores :
    let first : Derivation Int := .binary "S" (-2) (.unary "A" 1 (.unary "B" (-1) (.leaf "b" 0)))
      (.unary "A" (-1) (.leaf "b" 0))
    let second : Derivation Int := .binary "S" 7 (.unary "A" 0 (.unary "B" 0 (.leaf "b" 0)))
      (.unary "A" 0 (.leaf "b" 0))
    first.Plain ∧ second.Plain ∧ first.render hideNothing = second.render hideNothing ∧
      readTree? (first.render hideNothing) = some (.binary "S" ()
        (.unary "A" () (.unary "B" () (.leaf "b" ()))) (.unary "A" () (.leaf "b" ()))) := by
  intro first second
  have firstPlain : first.Plain := by decide
  have secondPlain : second.Plain := by decide
  obtain ⟨read, same⟩ := render_determines_shape first second firstPlain secondPlain
  exact ⟨firstPlain, secondPlain, same.2 rfl, read⟩

end ChartParse.Derivation
