import LiveTemplate.Document.Order
import LiveTemplate.Markup.Reader

/-! Changing the trees of a document: moving nodes, adding whole trees, copying. A fragment that is inserted
stands for its children, and no node is moved into its own subtree. The nodes of a tree that is added get
consecutive numbers, each before those below it. -/

namespace LiveTemplate.Document

def detach (document : Document) (id : NodeId) : Document :=
  match document.parent? id with
  | none => document
  | some parent =>
    let siblings := (document.children parent).filter (· != id)
    (document.setChildren parent siblings).setParent none id

def carried (document : Document) (id : NodeId) : List NodeId :=
  if document.kind id = .fragment then document.children id else [id]

/-- A list of children in which `moved` stand before the reference, or at the end when the
reference is not in the list. A reference that moves too gives its place to the first node after
it that stays. -/
def place (moved : List NodeId) (reference? : Option NodeId) (children : List NodeId) :
    List NodeId :=
  let stays := fun id => !moved.contains id
  match reference? with
  | none => children.filter stays ++ moved
  | some reference =>
    (children.takeWhile (· != reference)).filter stays ++ moved
      ++ (children.dropWhile (· != reference)).filter stays

def insertBefore (document : Document) (parent id : NodeId) (reference? : Option NodeId) :
    Document :=
  if document.isInclusiveAncestor id parent then document
  else
    let moved := document.carried id
    let children := place moved reference? (document.children parent)
    let freed := moved.foldl detach document
    moved.foldl (setParent · (some parent)) (freed.setChildren parent children)

def append (document : Document) (parent id : NodeId) : Document :=
  document.insertBefore parent id none

def assemble (document : Document) (tag : String) (attributes : List (String × String))
    (children : List NodeId) : NodeId × Document :=
  let (id, made) := document.create (.element tag [])
  let named := attributes.foldl (fun made (name, value) => made.setAttribute id (.plain name) value) made
  (id, children.foldl (fun filled child => filled.append id child) named)

/-- Makes the listed nodes, which are children of the parent or have no parent, the children of
the parent in that order. Former children that are not listed are detached. -/
def arrange (document : Document) (parent : NodeId) (children : List NodeId) : Document :=
  let dropped := (document.children parent).filter fun id => !children.contains id
  let freed := dropped.foldl (setParent · none) document
  children.foldl (setParent · (some parent)) (freed.setChildren parent children)

mutual

def entries (first : Nat) (parent? : Option NodeId) : Tree Content → List Node
  | .node content children =>
    ⟨content, parent?, roots (first + 1) children⟩ :: entriesAll (first + 1) (some ⟨first⟩) children

def entriesAll (first : Nat) (parent? : Option NodeId) : List (Tree Content) → List Node
  | [] => []
  | tree :: rest =>
    entries first parent? tree ++ entriesAll (first + tree.size) parent? rest

def roots (first : Nat) : List (Tree Content) → List NodeId
  | [] => []
  | tree :: rest => ⟨first⟩ :: roots (first + tree.size) rest

end

def graft (document : Document) (tree : Tree Content) : NodeId × Document :=
  (⟨document.size⟩, ⟨document.nodes ++ entries document.size none tree⟩)

def clone (document : Document) (id : NodeId) (deep : Bool) : NodeId × Document :=
  document.graft (if deep then document.tree id else .node (document.content id) [])

def read? (document : Document) (markup : String) : Option (NodeId × Document) :=
  (Markup.read? markup.toList).map fun trees => document.graft (.node .fragment trees)

end LiveTemplate.Document
