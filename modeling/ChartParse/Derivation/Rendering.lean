import ChartParse.Derivation.Basic
import ChartParse.Scale

/-!
Derivations as bracketed text. A node whose label is hidden leaves out its bracket and label, and
its children take its place; words are never hidden.

`parts` says which texts a node contributes to its parent. `render` computes them with a stack of
jobs, so that the depth of a tree costs no more than its size. Main statement: the stack always
ends with the parts and nothing else (`assemble_visit`), hence `render_eq`.
-/

namespace ChartParse.Derivation

variable {σ : Type}

def bracket (hide : String → Bool) (label : String) (inner : List String) : List String :=
  if hide label then inner else ["(" ++ label ++ " " ++ " ".intercalate inner ++ ")"]

def parts (hide : String → Bool) : Derivation σ → List String
  | leaf word _ => [word]
  | unary label _ child => bracket hide label (child.parts hide)
  | binary label _ left right => bracket hide label (left.parts hide ++ right.parts hide)

/-! ### Rendering on a stack -/

/-- A job of the renderer: to visit a node, or to gather the results of its children once they
are there. -/
inductive Job (σ : Type) where
  | visit (node : Derivation σ)
  | gatherOne (label : String)
  | gatherTwo (label : String)

-- An inner node is visited, and later its results are gathered.
def steps : Derivation σ → Nat
  | leaf _ _ => 1
  | unary _ _ child => child.steps + 2
  | binary _ _ left right => left.steps + right.steps + 2

def Job.steps : Job σ → Nat
  | visit node => node.steps
  | _ => 1

def stepsOf : List (Job σ) → Nat
  | [] => 0
  | job :: rest => job.steps + stepsOf rest

/-- Works off the jobs, with the results of finished nodes on a second stack. -/
def assemble (hide : String → Bool) (jobs : List (Job σ)) (results : List (List String)) :
    Option (List (List String)) :=
  match jobs, results with
  | [], results => some results
  | .visit (.leaf word _) :: jobs, results => assemble hide jobs ([word] :: results)
  | .visit (.unary label _ child) :: jobs, results =>
    assemble hide (.visit child :: .gatherOne label :: jobs) results
  | .visit (.binary label _ left right) :: jobs, results =>
    assemble hide (.visit left :: .visit right :: .gatherTwo label :: jobs) results
  | .gatherOne label :: jobs, inner :: results =>
    assemble hide jobs (bracket hide label inner :: results)
  -- The right child was visited last.
  | .gatherTwo label :: jobs, right :: left :: results =>
    assemble hide jobs (bracket hide label (left ++ right) :: results)
  -- Nothing comes back if a node finds fewer results than it has children.
  | .gatherOne _ :: _, [] => none
  | .gatherTwo _ :: _, [_] => none
  | .gatherTwo _ :: _, [] => none
termination_by stepsOf jobs
decreasing_by all_goals simp only [stepsOf, Job.steps, steps]; omega

def partsOnStack (hide : String → Bool) (node : Derivation σ) : List String :=
  match assemble hide [.visit node] [] with
  | some [result] => result
  | _ => []

def render (hide : String → Bool) (node : Derivation σ) : String :=
  " ".intercalate (node.partsOnStack hide)

/-- The renderer visits a whole subtree before the jobs below it, and leaves its parts on top of
the results. -/
theorem assemble_visit (hide : String → Bool) (node : Derivation σ) (jobs : List (Job σ))
    (results : List (List String)) :
    assemble hide (.visit node :: jobs) results =
      assemble hide jobs (node.parts hide :: results) := by
  induction node generalizing jobs results with
  | leaf word score => rw [assemble, parts]
  | unary label score child ih => rw [assemble, ih, assemble, parts]
  | binary label score left right ihl ihr => rw [assemble, ihl, ihr, assemble, parts]

theorem partsOnStack_eq (hide : String → Bool) (node : Derivation σ) :
    node.partsOnStack hide = node.parts hide := by
  rw [partsOnStack, assemble_visit, assemble]

theorem render_eq (hide : String → Bool) (node : Derivation σ) :
    node.render hide = " ".intercalate (node.parts hide) := by
  rw [render, partsOnStack_eq]

/-! ### Lines of output -/

def line (scale : Scale σ) (hide : String → Bool) (node : Derivation σ) : String :=
  node.render hide ++ " " ++ scale.write node.score

def noParse : String := "NULL"

end ChartParse.Derivation
