/-! Ordered trees with a label at every node. -/

namespace LiveTemplate

inductive Tree (α : Type) where
  | node (label : α) (children : List (Tree α))

namespace Tree

variable {α β : Type}

def label : Tree α → α
  | node label _ => label

def children : Tree α → List (Tree α)
  | node _ children => children

mutual

def map (f : α → β) : Tree α → Tree β
  | node label children => node (f label) (mapForest f children)

def mapForest (f : α → β) : List (Tree α) → List (Tree β)
  | [] => []
  | tree :: rest => map f tree :: mapForest f rest

end

mutual

def preorder : Tree α → List α
  | node label children => label :: preorderForest children

def preorderForest : List (Tree α) → List α
  | [] => []
  | tree :: rest => preorder tree ++ preorderForest rest

end

mutual

def size : Tree α → Nat
  | node _ children => 1 + sizeForest children

def sizeForest : List (Tree α) → Nat
  | [] => 0
  | tree :: rest => size tree + sizeForest rest

end

end Tree

end LiveTemplate
