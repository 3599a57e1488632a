import LiveTemplate.Document.Order
import LiveTemplate.Template.Part

/-! Finding the place of a region in a document that may have changed since it was last written. A region
without a recorded parent is searched for wherever its rendered nodes and its anchors are now. -/

namespace LiveTemplate

structure Span where
  parent : NodeId
  previous? : Option NodeId
  next? : Option NodeId
  deriving DecidableEq

namespace Span

def nodes (span : Span) (document : Document) : List NodeId :=
  let children := document.children span.parent
  let after := match span.previous? with
    | none => children
    | some previous => (children.dropWhile (· != previous)).tail
  match span.next? with
  | none => after
  | some next => after.takeWhile (· != next)

def isOrdered (span : Span) (document : Document) : Bool :=
  match span.previous?, span.next? with
  | some previous, some next => previous != next && !document.precedes next previous
  | _, _ => true

end Span

namespace Region

def parents (region : Region) (document : Document) : List NodeId :=
  match region.parent? with
  | some parent => [parent]
  | none =>
    let known := region.rendered ++ region.next?.toList ++ region.previous?.toList
    known.filterMap document.parent?

/-- Finds a region under one parent. An anchor that has left the parent is replaced by the sibling
of the outermost rendered node on that side, if the other anchor is still in place. -/
def spanUnder? (region : Region) (document : Document) (parent : NodeId) : Option Span :=
  let stays (anchor? : Option NodeId) : Bool := anchor?.all (document.isChild · parent)
  let found : Option Span :=
    match stays region.previous?, stays region.next? with
    | true, true => some ⟨parent, region.previous?, region.next?⟩
    | true, false =>
      (region.rendered.getLast?.filter (document.isChild · parent)).map fun last =>
        ⟨parent, region.previous?, document.next? last⟩
    | false, true =>
      (region.rendered.head?.filter (document.isChild · parent)).map fun first =>
        ⟨parent, document.previous? first, region.next?⟩
    | false, false => none
  found.filter (Span.isOrdered · document)

def span? (region : Region) (document : Document) : Option Span :=
  (region.parents document).findSome? (region.spanUnder? document)

def currentParent? (region : Region) (document : Document) : Option NodeId :=
  match region.span? document with
  | some span => some span.parent
  | none => (region.parents document).head?

def isLive (region : Region) (document : Document) : Bool :=
  region.owning || (region.span? document).isSome

end Region

end LiveTemplate
