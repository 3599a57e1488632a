import LiveTemplate.Template.Scene
import LiveTemplate.Template.Source

/-! Making the parts of an instance from a copy of its template. The content of the instance records no
parent, because it can be moved. A region below a node owns it when everything else there is blank text. -/

namespace LiveTemplate

structure Level where
  parent? : Option NodeId
  owning : Bool

namespace Level

def outer : Level :=
  ⟨none, false⟩

def isOuter (level : Level) : Bool :=
  level.parent?.isNone

end Level

namespace Scene

def isSource (scene : Scene) (config : Config) (id : NodeId) : Bool :=
  (config.source? (scene.document.content id)).isSome

def isOwned (scene : Scene) (config : Config) (children : List NodeId) : Bool :=
  (children.filter (scene.isSource config)).length == 1 &&
    children.all fun id =>
      scene.isSource config id || (scene.document.content id).isBlankText

def addPart (scene : Scene) (part : Part) : Nat × Scene :=
  (scene.graph.parts.size,
    { scene with graph := { scene.graph with parts := scene.graph.parts.push part } })

def addAnchor (scene : Scene) (needed : Bool) : Option NodeId × Scene :=
  if needed then
    let (id, scene) := scene.addNode (.text "")
    (some id, scene)
  else (none, scene)

def addNodePieces (scene : Scene) (region : Nat) : List Token → List (Piece NodeId) × Scene
  | [] => ([], scene)
  | .literal text :: rest =>
    if text = "" then scene.addNodePieces region rest
    else
      let (id, scene) := scene.addNode (.text text)
      let (pieces, scene) := scene.addNodePieces region rest
      (.literal id :: pieces, scene)
  | .placeholder expression :: rest =>
    let (part, scene) := scene.addPart ⟨expression, .nodes region [] none⟩
    let (pieces, scene) := scene.addNodePieces region rest
    (.part part :: pieces, scene)

def addTextPieces (scene : Scene) (binding : Nat) : List Token → List (Piece String) × Scene
  | [] => ([], scene)
  | .literal text :: rest =>
    if text = "" then scene.addTextPieces binding rest
    else
      let (pieces, scene) := scene.addTextPieces binding rest
      (.literal text :: pieces, scene)
  | .placeholder expression :: rest =>
    let (part, scene) := scene.addPart ⟨expression, .attribute binding (some "")⟩
    let (pieces, scene) := scene.addTextPieces binding rest
    (.part part :: pieces, scene)

def addPieces (scene : Scene) (id : NodeId) : Source → List (Piece NodeId) × Scene
  | .inline tokens => scene.addNodePieces scene.graph.regions.size tokens
  | .nested expression directive? =>
    let region := scene.graph.regions.size
    let (part, scene) := scene.addPart ⟨expression, .nodes region [] (some ⟨id, directive?⟩)⟩
    ([.part part], scene)

def addRegion (scene : Scene) (level : Level) (previous? next? : Option NodeId) (id : NodeId)
    (source : Source) : List NodeId × Scene :=
  let (group, scene) := scene.addPieces id source
  let rendered := group.flatMap scene.graph.pieceNodes
  let region : Region :=
    { parent? := level.parent?
      previous?
      next?
      owning := level.owning
      group
      rendered
      detached := false }
  let graph := { scene.graph with regions := scene.graph.regions.push region }
  (rendered, { scene with graph })

def addBinding (scene : Scene) (id : NodeId) (entry : Attribute) : Scene :=
  match Token.templated? entry.value with
  | none => scene
  | some tokens =>
    let index := scene.graph.bindings.size
    let (pieces, scene) := scene.addTextPieces index tokens
    let bindings := scene.graph.bindings.push ⟨id, entry.name, pieces⟩
    reconcileBinding { scene with graph := { scene.graph with bindings } } index

def addBindings (scene : Scene) (id : NodeId) : Scene :=
  (scene.document.content id).attributes.foldl (fun scene entry => scene.addBinding id entry) scene

def buildBelow (config : Config) (parent : NodeId) (former : List NodeId)
    (fill : Level → Scene → List NodeId × Scene) (scene : Scene) : Scene :=
  let owning := scene.isOwned config former
  let (ids, scene) := fill ⟨some parent, owning⟩ scene
  let kept := if owning then ids.filter fun id => !former.contains id else ids
  { scene with document := scene.document.arrange parent kept }

mutual

/-- Instantiates a node, and answers what stands in its place. A source gives way to its region.
The regions of an instance's own content lie between anchors on both sides, and elsewhere an anchor
keeps two neighbouring regions apart; `previous?` stands before the node, `framed` tells that it is
such an anchor, and `rest` follows. -/
def build (config : Config) (level : Level) (previous? : Option NodeId) (framed : Bool)
    (rest : List NodeId) (scene : Scene) : Tree NodeId → List NodeId × Scene
  | .node id children =>
    let below := buildBelow config id (children.map Tree.label) fun level scene =>
      buildAll config level none false scene children
    match config.source? (scene.document.content id) with
    | none => ([id], below (scene.addBindings id))
    | some source =>
      let (lead?, scene) := scene.addAnchor (level.isOuter && !framed)
      let (trail?, scene) :=
        scene.addAnchor (level.isOuter || rest.head?.any (scene.isSource config))
      let (shown, scene) :=
        scene.addRegion level (lead? <|> previous?) (trail? <|> rest.head?) id source
      let scene := match source with
        | .inline _ => below scene
        | .nested _ _ => scene
      (lead?.toList ++ shown ++ trail?.toList, scene)

def buildAll (config : Config) (level : Level) (previous? : Option NodeId) (framed : Bool)
    (scene : Scene) : List (Tree NodeId) → List NodeId × Scene
  | [] => ([], scene)
  | tree :: rest =>
    let isSource := scene.isSource config tree.label
    let (ids, scene) := build config level previous? framed (rest.map Tree.label) scene tree
    let (others, scene) := buildAll config level ids.getLast? isSource scene rest
    (ids ++ others, scene)

end

def instantiate (document : Document) (config : Config) (template : NodeId) : Scene :=
  let (fragment, document) := document.graft (.node .fragment (document.forest template))
  let (ids, scene) :=
    buildAll config .outer none false ⟨document, .empty fragment⟩
      (document.layout fragment).children
  { scene with document := scene.document.arrange fragment ids }

end Scene

end LiveTemplate
