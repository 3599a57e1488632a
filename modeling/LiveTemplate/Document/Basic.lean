import LiveTemplate.Markup.Content

/-! Documents: a table of nodes, each with its content, its parent and its children. Nodes are numbered in
the order in which they were made, and none is ever given up. A number that belongs to no node reads as an
empty fragment. -/

namespace LiveTemplate

structure NodeId where
  index : Nat
  deriving DecidableEq, Inhabited

structure Node where
  content : Content
  parent? : Option NodeId
  children : List NodeId

structure Document where
  nodes : Array Node

namespace Document

def new : Document :=
  ⟨#[⟨.document, none, []⟩]⟩

def root : NodeId :=
  ⟨0⟩

def size (document : Document) : Nat :=
  document.nodes.size

def node (document : Document) (id : NodeId) : Node :=
  document.nodes.getD id.index ⟨.fragment, none, []⟩

def content (document : Document) (id : NodeId) : Content :=
  (document.node id).content

def kind (document : Document) (id : NodeId) : NodeKind :=
  (document.content id).kind

def parent? (document : Document) (id : NodeId) : Option NodeId :=
  (document.node id).parent?

def children (document : Document) (id : NodeId) : List NodeId :=
  (document.node id).children

def isChild (document : Document) (id parent : NodeId) : Bool :=
  document.parent? id == some parent

def successor? (id : NodeId) (siblings : List NodeId) : Option NodeId :=
  (siblings.dropWhile (· != id))[1]?

def siblings (document : Document) (id : NodeId) : List NodeId :=
  match document.parent? id with
  | none => []
  | some parent => document.children parent

def next? (document : Document) (id : NodeId) : Option NodeId :=
  successor? id (document.siblings id)

def previous? (document : Document) (id : NodeId) : Option NodeId :=
  successor? id (document.siblings id).reverse

def firstChild? (document : Document) (id : NodeId) : Option NodeId :=
  (document.children id).head?

def create (document : Document) (content : Content) : NodeId × Document :=
  (⟨document.size⟩, ⟨document.nodes.push ⟨content, none, []⟩⟩)

def modify (document : Document) (id : NodeId) (change : Node → Node) : Document :=
  ⟨document.nodes.modify id.index change⟩

def setContent (document : Document) (id : NodeId) (content : Content) : Document :=
  document.modify id fun node => { node with content }

def setParent (document : Document) (parent? : Option NodeId) (id : NodeId) : Document :=
  document.modify id fun node => { node with parent? }

def setChildren (document : Document) (id : NodeId) (children : List NodeId) : Document :=
  document.modify id fun node => { node with children }

def setData (document : Document) (id : NodeId) (data : String) : Document :=
  document.setContent id ((document.content id).withData data)

def attribute? (document : Document) (id : NodeId) (name : AttributeName) : Option String :=
  Attribute.lookup (document.content id).attributes name

def setAttribute (document : Document) (id : NodeId) (name : AttributeName) (value : String) :
    Document :=
  document.setContent id ((document.content id).mapAttributes (Attribute.assign name value))

def removeAttribute (document : Document) (id : NodeId) (name : AttributeName) : Document :=
  document.setContent id ((document.content id).mapAttributes (Attribute.erase · name))

end Document

end LiveTemplate
