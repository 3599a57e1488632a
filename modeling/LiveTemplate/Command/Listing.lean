import LiveTemplate.Command.Input

/-! The command that lists the parts of a template. -/

namespace LiveTemplate

structure ListingOptions where
  template : String
  config? : Option String
  deriving DecidableEq

namespace PartKind

def label : PartKind → String
  | .attribute => "attribute"
  | .node => "node"
  | .inner => "inner"

end PartKind

def listingLine (index : Nat) (part : Part) : String :=
  s!"{index}\t{part.kind.label}\t{part.expression}"

def listParts (files : Files) (options : ListingOptions) : Except CommandError (List String) := do
  let config ← readConfig files options.config?
  let (template, document) ← readTemplate files options.template config
  let world := CommandWorld.start document
  match (Engine.instantiate CommandWorld.noScripts ⟨config, 0⟩ template .null world).1 with
  | none => .error (.noParts options.template)
  | some inst => .ok (inst.graph.parts.toList.mapIdx listingLine)

end LiveTemplate
