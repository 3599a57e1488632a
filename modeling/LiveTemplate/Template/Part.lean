import LiveTemplate.Document.Basic

/-! Parts: the places of an instance that show the values of expressions. A part writes to an attribute
binding or to a region, by its number, and keeps what was written last. -/

namespace LiveTemplate

inductive PartKind where
  | attribute
  | node
  | inner
  deriving DecidableEq

structure Nested where
  template : NodeId
  directive? : Option String
  deriving DecidableEq

inductive Target where
  | attribute (binding : Nat) (value? : Option String)
  | nodes (region : Nat) (content : List NodeId) (nested? : Option Nested)
  deriving DecidableEq

structure Part where
  expression : String
  target : Target
  deriving DecidableEq

namespace Part

def kind (part : Part) : PartKind :=
  match part.target with
  | .attribute _ _ => .attribute
  | .nodes _ _ none => .node
  | .nodes _ _ (some _) => .inner

def content (part : Part) : List NodeId :=
  match part.target with
  | .attribute _ _ => []
  | .nodes _ content _ => content

def value? (part : Part) : Option String :=
  match part.target with
  | .attribute _ value? => value?
  | .nodes _ _ _ => none

def nested? (part : Part) : Option Nested :=
  match part.target with
  | .attribute _ _ => none
  | .nodes _ _ nested? => nested?

end Part

inductive Piece (α : Type) where
  | literal (value : α)
  | part (index : Nat)
  deriving DecidableEq

structure Binding where
  element : NodeId
  name : AttributeName
  pieces : List (Piece String)

namespace Binding

def isWhole (binding : Binding) : Bool :=
  match binding.pieces with
  | [.part _] => true
  | _ => false

end Binding

/-- A run of siblings that is put together from fixed nodes and parts.

An owning region is all of its parent's content. Any other region lies between two anchors, and a
missing anchor stands for that end of the parent. A region directly in the fragment of its
instance has no recorded parent, since the fragment's content can be moved elsewhere. -/
structure Region where
  parent? : Option NodeId
  previous? : Option NodeId
  next? : Option NodeId
  owning : Bool
  group : List (Piece NodeId)
  rendered : List NodeId
  detached : Bool
  deriving DecidableEq

structure PartGraph where
  fragment : NodeId
  parts : Array Part
  bindings : Array Binding
  regions : Array Region

namespace PartGraph

def empty (fragment : NodeId) : PartGraph :=
  ⟨fragment, #[], #[], #[]⟩

def find? (graph : PartGraph) (expression : String) : Option Nat :=
  graph.parts.findIdx? fun part => part.expression == expression

def contentOf (graph : PartGraph) (index : Nat) : List NodeId :=
  (graph.parts[index]?.map Part.content).getD []

def pieceNodes (graph : PartGraph) : Piece NodeId → List NodeId
  | .literal node => [node]
  | .part index => graph.contentOf index

def nodesOf (graph : PartGraph) (region : Region) : List NodeId :=
  region.group.flatMap graph.pieceNodes

def pieceText (graph : PartGraph) : Piece String → String
  | .literal text => text
  | .part index => (graph.parts[index]?.bind Part.value?).getD ""

def textOf (graph : PartGraph) (binding : Binding) : String :=
  String.join (binding.pieces.map graph.pieceText)

def setTarget (graph : PartGraph) (index : Nat) (target : Target) : PartGraph :=
  { graph with parts := graph.parts.modify index fun part => { part with target } }

def setRegion (graph : PartGraph) (index : Nat) (region : Region) : PartGraph :=
  { graph with regions := graph.regions.setIfInBounds index region }

end PartGraph

end LiveTemplate
