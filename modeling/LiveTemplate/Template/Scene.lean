import LiveTemplate.Document.Edit
import LiveTemplate.Template.Span

/-! Bringing a document up to date with the parts of an instance. -/

namespace LiveTemplate

structure Scene where
  document : Document
  graph : PartGraph

namespace Document

def fill (document : Document) (span : Span) (nodes : List NodeId) : Document :=
  let cleared := (span.nodes document).foldl detach document
  nodes.foldl (fun document node => document.insertBefore span.parent node span.next?) cleared

def refill (document : Document) (parent : NodeId) (nodes : List NodeId) : Document :=
  let cleared := (document.children parent).foldl detach document
  nodes.foldl (fun document node => document.append parent node) cleared

end Document

namespace Scene

def addNode (scene : Scene) (content : Content) : NodeId × Scene :=
  let (id, document) := scene.document.create content
  (id, { scene with document })

/-- Shows a region in the document. A region that cannot be found leaves the document alone and is
marked as detached. -/
def reconcileRegion (scene : Scene) (index : Nat) : Scene :=
  match scene.graph.regions[index]? with
  | none => scene
  | some region =>
    let nodes := scene.graph.nodesOf region
    let lost : Scene :=
      { scene with graph := scene.graph.setRegion index { region with detached := true } }
    if region.owning then
      match region.parent? with
      | none => lost
      | some parent =>
        { document := scene.document.refill parent nodes
          graph := scene.graph.setRegion index
            { region with rendered := nodes, detached := false } }
    else
      match region.span? scene.document with
      | none => lost
      | some span =>
        { document := scene.document.fill span nodes
          graph := scene.graph.setRegion index
            { region with
              previous? := span.previous?
              next? := span.next?
              rendered := nodes
              detached := false } }

def reconcileBinding (scene : Scene) (index : Nat) : Scene :=
  match scene.graph.bindings[index]? with
  | none => scene
  | some binding =>
    let document :=
      match binding.pieces with
      | [.part part] =>
        match scene.graph.parts[part]?.bind Part.value? with
        | some value => scene.document.setAttribute binding.element binding.name value
        | none => scene.document.removeAttribute binding.element binding.name
      | _ =>
        scene.document.setAttribute binding.element binding.name (scene.graph.textOf binding)
    { scene with document }

end Scene

end LiveTemplate
