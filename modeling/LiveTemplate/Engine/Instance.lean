import LiveTemplate.Engine.Registry
import LiveTemplate.Template.Assign
import LiveTemplate.Template.Build

/-! Engines and their instances, over a document that all of them share. An instance keeps to the registry
of the engine that made it; a registry that was never made is empty. A failure does not undo what was done
before it. -/

namespace LiveTemplate

structure Instance where
  type? : Option String
  registry : Nat
  graph : PartGraph

structure World (Script State : Type) where
  document : Document
  registries : Array (Registry Script)
  state : State

namespace World

variable {Script State : Type}

def registry (world : World Script State) (index : Nat) : Registry Script :=
  world.registries[index]?.getD .empty

def register (world : World Script State) (index : Nat) (name : String)
    (type : TemplateType Script) : World Script State :=
  { world with registries := world.registries.modify index (·.register name type) }

end World

abbrev Outcome (Script State : Type) :=
  Except Failure Unit × Instance × World Script State

abbrev Interpreter (Script State : Type) :=
  Script → Json → Instance → World Script State → Outcome Script State

namespace Callback

variable {Script State : Type}

def run (interpret : Interpreter Script State) (callback : Callback Script) (state : Json)
    (inst : Instance) (world : World Script State) : Outcome Script State :=
  let scene : Scene := ⟨world.document, inst.graph⟩
  match callback with
  | keyMatching =>
    let scene := scene.assignAll state
    (.ok (), { inst with graph := scene.graph }, { world with document := scene.document })
  | markup =>
    let (result, scene) := scene.assignAllMarkup state
    (result, { inst with graph := scene.graph }, { world with document := scene.document })
  | script own => interpret own state inst world

end Callback

namespace Instance

variable {Script State : Type}

def update (interpret : Interpreter Script State) (inst : Instance) (state : Json)
    (world : World Script State) : Outcome Script State :=
  ((world.registry inst.registry).resolve inst.type?).process.run interpret state inst world

end Instance

structure Engine where
  config : Config
  registry : Nat

namespace Engine

variable {Script State : Type}

/-- Makes an instance of a template and brings it to a state: the callbacks are those that the
template's type has before either of them runs. There is no instance of a template without parts,
and none when a callback fails. -/
def instantiate (interpret : Interpreter Script State) (engine : Engine) (template : NodeId)
    (state : Json) (world : World Script State) : Option Instance × World Script State :=
  let type? := world.document.attribute? template (.plain engine.config.typeAttribute)
  let scene := Scene.instantiate world.document engine.config template
  let inst : Instance := ⟨type?, engine.registry, scene.graph⟩
  let world := { world with document := scene.document }
  if scene.graph.parts.isEmpty then (none, world)
  else
    let type := (world.registry engine.registry).resolve type?
    let created : Outcome Script State :=
      match type.create? with
      | none => (.ok (), inst, world)
      | some create => create.run interpret state inst world
    match created with
    | (.error _, _, world) => (none, world)
    | (.ok (), inst, world) =>
      match type.process.run interpret state inst world with
      | (.error _, _, world) => (none, world)
      | (.ok (), inst, world) => (some inst, world)

end Engine

end LiveTemplate
