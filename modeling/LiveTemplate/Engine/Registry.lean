/-! Callbacks, template types and their registration by name, where the last registration counts. A missing,
empty or unknown name gets key matching. -/

namespace LiveTemplate

/-- What brings an instance to a state. `keyMatching` gives every part the value that the state has
for its expression, `markup` does so with the values of nodes read as markup, and `script` is
whatever the user of the library provides. -/
inductive Callback (Script : Type) where
  | keyMatching
  | markup
  | script (script : Script)

structure TemplateType (Script : Type) where
  process : Callback Script
  create? : Option (Callback Script)

structure Registry (Script : Type) where
  entries : List (String × TemplateType Script)

namespace Registry

variable {Script : Type}

def empty : Registry Script :=
  ⟨[]⟩

def register (registry : Registry Script) (name : String) (type : TemplateType Script) :
    Registry Script :=
  ⟨(name, type) :: registry.entries⟩

def isRegistered (registry : Registry Script) (name : String) : Bool :=
  (registry.entries.lookup name).isSome

def resolve (registry : Registry Script) (name? : Option String) : TemplateType Script :=
  ((name?.filter (· != "")).bind fun name => registry.entries.lookup name).getD ⟨.keyMatching, none⟩

end Registry

end LiveTemplate
