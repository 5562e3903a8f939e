/-!
Derivations: the scored trees that a chart holds. A leaf is a word of the sentence, a unary node
applies a rule with one symbol on its right-hand side and a binary node a rule with two. The score
of a node is the sum of the weights of the rules below and at it, as it was computed when the node
was built.
-/

namespace ChartParse

inductive Derivation (σ : Type) where
  | leaf (word : String) (score : σ)
  | unary (label : String) (score : σ) (child : Derivation σ)
  | binary (label : String) (score : σ) (left right : Derivation σ)
  deriving DecidableEq, Repr

namespace Derivation

variable {σ : Type}

/-- A node from its parts. Without a left child it is a leaf, whatever stands on the right. -/
def ofParts (label : String) (score : σ) :
    Option (Derivation σ) → Option (Derivation σ) → Derivation σ
  | none, _ => leaf label score
  | some child, none => unary label score child
  | some left, some right => binary label score left right

def label : Derivation σ → String
  | leaf word _ => word
  | unary label _ _ => label
  | binary label _ _ _ => label

def score : Derivation σ → σ
  | leaf _ score => score
  | unary _ score _ => score
  | binary _ score _ _ => score

def isLeaf : Derivation σ → Bool
  | leaf _ _ => true
  | _ => false

def isUnary : Derivation σ → Bool
  | unary _ _ _ => true
  | _ => false

/-- The labels of the unbroken run of unary nodes that starts at a node. -/
def unaryLabels : Derivation σ → List String
  | unary label _ child => label :: child.unaryLabels
  | _ => []

/-- Whether a unary node reaches its own label again through an unbroken run of unary nodes. -/
def repeatsLabel : Derivation σ → Bool
  | unary label _ child => child.unaryLabels.contains label
  | _ => false

def size : Derivation σ → Nat
  | leaf _ _ => 1
  | unary _ _ child => child.size + 1
  | binary _ _ left right => left.size + right.size + 1

/-- The words under a node, from left to right. -/
def yield : Derivation σ → List String
  | leaf word _ => [word]
  | unary _ _ child => child.yield
  | binary _ _ left right => left.yield ++ right.yield

@[simp] theorem label_leaf (word : String) (score : σ) : (leaf word score).label = word := rfl

@[simp] theorem label_unary (label : String) (score : σ) (child : Derivation σ) :
    (unary label score child).label = label := rfl

@[simp] theorem label_binary (label : String) (score : σ) (left right : Derivation σ) :
    (binary label score left right).label = label := rfl

@[simp] theorem score_leaf (word : String) (score : σ) : (leaf word score).score = score := rfl

@[simp] theorem score_unary (label : String) (score : σ) (child : Derivation σ) :
    (unary label score child).score = score := rfl

@[simp] theorem score_binary (label : String) (score : σ) (left right : Derivation σ) :
    (binary label score left right).score = score := rfl

end Derivation

end ChartParse
