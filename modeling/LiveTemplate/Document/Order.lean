import LiveTemplate.Document.Basic
import LiveTemplate.Markup.Printer

/-! The trees of a document: ancestors, descendants and the order of nodes. Walks up and down are cut off at
the number of nodes, which no chain of parents exceeds. Nodes of different trees never precede each other. -/

namespace LiveTemplate.Document

def lineageUpTo (document : Document) : (limit : Nat) → NodeId → List NodeId
  | 0, id => [id]
  | limit + 1, id =>
    match document.parent? id with
    | none => [id]
    | some parent => id :: lineageUpTo document limit parent

def lineage (document : Document) (id : NodeId) : List NodeId :=
  document.lineageUpTo document.size id

def isInclusiveAncestor (document : Document) (ancestor id : NodeId) : Bool :=
  (document.lineage id).contains ancestor

def top (document : Document) (id : NodeId) : NodeId :=
  (document.lineage id).getLastD id

def placesOf (document : Document) : List NodeId → List Nat
  | id :: parent :: rest =>
    placesOf document (parent :: rest) ++ [(document.children parent).idxOf id]
  | _ => []

def path (document : Document) (id : NodeId) : List Nat :=
  document.placesOf (document.lineage id)

def precedes (document : Document) (first second : NodeId) : Bool :=
  document.top first == document.top second && document.path first < document.path second

def layoutUpTo (document : Document) : (limit : Nat) → NodeId → Tree NodeId
  | 0, id => .node id []
  | limit + 1, id => .node id ((document.children id).map (layoutUpTo document limit))

def layout (document : Document) (id : NodeId) : Tree NodeId :=
  document.layoutUpTo document.size id

def tree (document : Document) (id : NodeId) : Tree Content :=
  (document.layout id).map document.content

def forest (document : Document) (id : NodeId) : List (Tree Content) :=
  (document.tree id).children

def descendants (document : Document) (id : NodeId) : List NodeId :=
  (document.layout id).preorder.tail

def elementsByTag (document : Document) (id : NodeId) (tag : String) : List NodeId :=
  (document.descendants id).filter fun descendant =>
    (document.content descendant).tag?.any (sameTag tag)

def outerMarkup (document : Document) (id : NodeId) : String :=
  String.ofList (Markup.write (document.tree id))

def innerMarkup (document : Document) (id : NodeId) : String :=
  String.ofList (Markup.writeAll (document.forest id))

def text (document : Document) (id : NodeId) : String :=
  Markup.textOf (document.tree id)

end LiveTemplate.Document
