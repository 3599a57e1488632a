import LiveTemplate.Json.Value
import LiveTemplate.Template.Write

/-! Giving the parts of an instance the values that a state has for their expressions. -/

namespace LiveTemplate

namespace Scene

def assigned? (scene : Scene) (state : Json) (index : Nat) : Option Json := do
  let members ← state.members?
  let part ← scene.graph.parts[index]?
  Json.member? members part.expression

def assign (state : Json) (scene : Scene) (index : Nat) : Scene :=
  match scene.assigned? state index with
  | none => scene
  | some value => scene.setValue index value.shown

def assignAll (scene : Scene) (state : Json) : Scene :=
  (List.range scene.graph.parts.size).foldl (assign state) scene

def assignMarkup (state : Json) (scene : Scene) (index : Nat) : Except Failure Unit × Scene :=
  match scene.assigned? state index, scene.graph.parts[index]? with
  | some value, some part =>
    if part.kind = .attribute then (.ok (), scene.setValue index value.shown)
    else
      match scene.replaceMarkup index (value.shown.getD "") with
      | (.ok (), scene) => (.ok (), scene)
      | (.error error, scene) =>
        (.error (.within s!"part \x60{part.expression}\x60" (.part error)), scene)
  | _, _ => (.ok (), scene)

def assignMarkupTo (state : Json) : List Nat → Scene → Except Failure Unit × Scene
  | [], scene => (.ok (), scene)
  | index :: rest, scene =>
    match scene.assignMarkup state index with
    | (.ok (), scene) => assignMarkupTo state rest scene
    | (.error failure, scene) => (.error failure, scene)

def assignAllMarkup (scene : Scene) (state : Json) : Except Failure Unit × Scene :=
  assignMarkupTo state (List.range scene.graph.parts.size) scene

end Scene

end LiveTemplate
