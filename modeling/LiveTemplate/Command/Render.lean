import LiveTemplate.Command.Input

/-! The command that renders a template with a state and updates to it. -/

namespace LiveTemplate

structure RenderOptions where
  template : String
  state? : Option String
  updates : List String
  config? : Option String
  type? : Option String
  deriving DecidableEq

structure Rendering where
  inst : Instance
  world : CommandWorld

namespace Rendering

def frame (rendering : Rendering) : String :=
  rendering.world.document.innerMarkup rendering.inst.graph.fragment

def step (files : Files) (rendering : Rendering) (path : String) :
    Except CommandError Rendering := do
  let state ← readJson files path
  match rendering.inst.update CommandWorld.noScripts state rendering.world with
  | (.error cause, _, _) => .error (.updateFailed path cause)
  | (.ok (), inst, world) => .ok ⟨inst, world⟩

def frames (files : Files) (rendering : Rendering) : List String → Except CommandError (List String)
  | [] => .ok []
  | path :: rest => do
    let rendering ← rendering.step files path
    let later ← rendering.frames files rest
    return rendering.frame :: later

end Rendering

def startRendering (files : Files) (options : RenderOptions) : Except CommandError Rendering := do
  let config ← readConfig files options.config?
  let (template, document) ← readTemplate files options.template config
  let document := match options.type? with
    | none => document
    | some type => document.setAttribute template (.plain config.typeAttribute) type
  let state ← readState files options.state?
  let world := CommandWorld.start document
  match Engine.instantiate CommandWorld.noScripts ⟨config, 0⟩ template state world with
  | (none, _) => .error (.noInstance options.template)
  | (some inst, world) => .ok ⟨inst, world⟩

def render (files : Files) (options : RenderOptions) : Except CommandError (List String) := do
  let rendering ← startRendering files options
  let later ← rendering.frames files options.updates
  return rendering.frame :: later

end LiveTemplate
