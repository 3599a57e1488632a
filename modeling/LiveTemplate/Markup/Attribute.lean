/-! Attributes and their names, and attribute lists as finite maps. Names agree when namespace and local name
are equal, whatever stands before the first colon. An attribute that is given a value keeps its place and
its own name. -/

namespace LiveTemplate

structure AttributeName where
  space? : Option String
  qualified : String
  deriving DecidableEq

namespace AttributeName

def plain (qualified : String) : AttributeName :=
  ⟨none, qualified⟩

def localName (name : AttributeName) : String :=
  match name.qualified.toList.dropWhile (· != ':') with
  | [] => name.qualified
  | _ :: rest => String.ofList rest

def agrees (first second : AttributeName) : Bool :=
  first.space? == second.space? && first.localName == second.localName

end AttributeName

structure Attribute where
  name : AttributeName
  value : String
  deriving DecidableEq

namespace Attribute

def lookup (attributes : List Attribute) (name : AttributeName) : Option String :=
  (attributes.find? fun entry => entry.name.agrees name).map (·.value)

def assign (name : AttributeName) (value : String) : List Attribute → List Attribute
  | [] => [⟨name, value⟩]
  | entry :: rest =>
    if entry.name.agrees name then { entry with value } :: rest
    else entry :: assign name value rest

def erase (attributes : List Attribute) (name : AttributeName) : List Attribute :=
  attributes.filter fun entry => !entry.name.agrees name

end Attribute

end LiveTemplate
