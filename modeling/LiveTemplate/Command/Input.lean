import LiveTemplate.Command.Error
import LiveTemplate.Engine.Instance
import LiveTemplate.Json.Reader

/-! Reading the files of a command: configurations, states and templates. A state without a path is null,
a configuration without one is the standard one, and a template is read into a document of its own.
Commands have no scripts; one type is registered for them, whose values are read as markup. -/

namespace LiveTemplate

def readText (files : Files) (path : String) : Except CommandError String :=
  match files path with
  | none => .error (.unreadable path)
  | some text => .ok text

def readJson (files : Files) (path : String) : Except CommandError Json := do
  let text ← readText files path
  match Json.read? text with
  | none => .error (.invalidJson path)
  | some value => .ok value

def readState (files : Files) (path? : Option String) : Except CommandError Json :=
  match path? with
  | none => .ok .null
  | some path => readJson files path

def readConfig (files : Files) (path? : Option String) : Except CommandError Config :=
  match path? with
  | none => .ok .standard
  | some path => do
    match Config.ofJson? (← readJson files path) with
    | none => .error .invalidConfig
    | some config => .ok config

/-- The template of a fragment: its first template element, or else a new one around all of it. -/
def chooseTemplate (document : Document) (config : Config) (fragment : NodeId) :
    NodeId × Document :=
  match document.elementsByTag fragment config.templateTag with
  | template :: _ => (template, document)
  | [] =>
    let (wrapper, document) := document.create (.element config.templateTag [])
    (wrapper, document.append wrapper fragment)

def readTemplate (files : Files) (path : String) (config : Config) :
    Except CommandError (NodeId × Document) := do
  let markup ← readText files path
  match Document.new.read? markup with
  | none => .error (.invalidTemplate path)
  | some (fragment, document) => .ok (chooseTemplate document config fragment)

abbrev CommandWorld :=
  World Empty Unit

namespace CommandWorld

def markupType : String :=
  "markup"

def start (document : Document) : CommandWorld :=
  ⟨document, #[Registry.empty.register markupType ⟨.markup, none⟩], ()⟩

def noScripts : Interpreter Empty Unit :=
  fun script => nomatch script

end CommandWorld

end LiveTemplate
