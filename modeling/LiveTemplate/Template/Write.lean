import LiveTemplate.Template.Error
import LiveTemplate.Template.Scene

/-! Writing to single parts, and what parts show. A missing value takes away an attribute that the part is
all of, and counts as the empty text everywhere else. -/

namespace LiveTemplate

inductive Item where
  | text (data : String)
  | node (id : NodeId)

namespace Scene

def setContent (scene : Scene) (index : Nat) (content : List NodeId) : Scene :=
  match scene.graph.parts[index]?.map Part.target with
  | some (.nodes region _ nested?) =>
    let graph := scene.graph.setTarget index (.nodes region content nested?)
    reconcileRegion { scene with graph } region
  | _ => scene

def setAttributeValue (scene : Scene) (index : Nat) (value? : Option String) : Scene :=
  match scene.graph.parts[index]?.map Part.target with
  | some (.attribute binding _) =>
    reconcileBinding { scene with graph := scene.graph.setTarget index (.attribute binding value?) } binding
  | _ => scene

def isWhole (scene : Scene) (index : Nat) : Bool :=
  match scene.graph.parts[index]?.map Part.target with
  | some (.attribute binding _) => (scene.graph.bindings[binding]?.map Binding.isWhole).getD false
  | _ => false

/-- Makes a part show a text. A text node that is all the part shows takes the new text itself, as
long as its region is found; otherwise a new text node takes its place. -/
def setText (scene : Scene) (index : Nat) (data : String) : Scene :=
  match scene.graph.parts[index]?.map Part.target with
  | some (.nodes region content _) =>
    let isLive := (scene.graph.regions[region]?.map (·.isLive scene.document)).getD false
    match content with
    | [only] =>
      if scene.document.kind only = .text ∧ isLive then
        reconcileRegion { scene with document := scene.document.setData only data } region
      else
        let (text, scene) := scene.addNode (.text data)
        scene.setContent index [text]
    | _ =>
      let (text, scene) := scene.addNode (.text data)
      scene.setContent index [text]
  | _ => scene

def setValue (scene : Scene) (index : Nat) (value? : Option String) : Scene :=
  match scene.graph.parts[index]?.map Part.target with
  | some (.attribute _ _) =>
    scene.setAttributeValue index
      (if scene.isWhole index then value? else some (value?.getD ""))
  | some (.nodes _ _ _) => scene.setText index (value?.getD "")
  | none => scene

def setBoolean (scene : Scene) (index : Nat) (present : Bool) : Except PartError Unit × Scene :=
  if scene.isWhole index then
    (.ok (), scene.setAttributeValue index (if present then some "" else none))
  else (.error .notWhole, scene)

def realize (scene : Scene) : Item → NodeId × Scene
  | .text data => scene.addNode (.text data)
  | .node id => (id, scene)

def realizeAll (scene : Scene) : List Item → List NodeId × Scene
  | [] => ([], scene)
  | item :: rest =>
    let (id, scene) := scene.realize item
    let (ids, scene) := scene.realizeAll rest
    (id :: ids, scene)

def refused? (document : Document) : Item → Option NodeKind
  | .text _ => none
  | .node id => if (document.kind id).isContainer then some (document.kind id) else none

def replace (scene : Scene) (index : Nat) (items : List Item) : Except PartError Unit × Scene :=
  match items.findSome? (refused? scene.document) with
  | some kind => (.error (.contentKind kind), scene)
  | none =>
    let (content, scene) := scene.realizeAll items
    (.ok (), scene.setContent index content)

def replaceMarkup (scene : Scene) (index : Nat) (markup : String) :
    Except PartError Unit × Scene :=
  match scene.document.read? markup with
  | none => (.error .markup, scene)
  | some (fragment, document) =>
    (.ok (), { scene with document }.setContent index (document.children fragment))

/-- What a part shows: the live value of an attribute that the part is all of, the value given
last to any other attribute part, and the text of its nodes for the rest. -/
def value? (scene : Scene) (part : Part) : Option String :=
  match part.target with
  | .attribute binding value? =>
    match scene.graph.bindings[binding]? with
    | some binding =>
      if binding.isWhole then scene.document.attribute? binding.element binding.name else value?
    | none => value?
  | .nodes _ content _ => some (String.join (content.map scene.document.text))

def regionOf? (scene : Scene) (index : Nat) : Option Region :=
  match scene.graph.parts[index]?.map Part.target with
  | some (.nodes region _ _) => scene.graph.regions[region]?
  | _ => none

def parentOf? (scene : Scene) (index : Nat) : Option NodeId :=
  (scene.regionOf? index).bind (·.currentParent? scene.document)

def previousOf? (scene : Scene) (index : Nat) : Option NodeId :=
  (scene.regionOf? index).bind fun region =>
    let before := region.group.takeWhile (· != .part index)
    (before.flatMap scene.graph.pieceNodes).getLast? <|> region.previous?

def nextOf? (scene : Scene) (index : Nat) : Option NodeId :=
  (scene.regionOf? index).bind fun region =>
    let after := (region.group.dropWhile (· != .part index)).tail
    (after.flatMap scene.graph.pieceNodes).head? <|> region.next?

end Scene

end LiveTemplate
