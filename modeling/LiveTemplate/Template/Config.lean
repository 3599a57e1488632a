import LiveTemplate.Json.Value

/-! The markup conventions of templates. -/

namespace LiveTemplate

structure Config where
  templateTag : String
  typeAttribute : String
  directiveAttribute : String
  expressionAttribute : String
  deriving DecidableEq

namespace Config

def standard : Config where
  templateTag := "template"
  typeAttribute := "type"
  directiveAttribute := "directive"
  expressionAttribute := "expression"

def field? (members : List (String × Json)) (key standard : String) : Option String :=
  match Json.member? members key with
  | none => some standard
  | some (.string text) => some text
  | some _ => none

def strings? (items : List Json) : Option (List String) :=
  if 4 < items.length then none
  else
    items.mapM fun item =>
      match item with
      | .string text => some text
      | _ => none

def ofJson? : Json → Option Config
  | .object members => do
    let templateTag ← field? members "template_tag" standard.templateTag
    let typeAttribute ← field? members "type_attribute" standard.typeAttribute
    let directiveAttribute ← field? members "directive_attribute" standard.directiveAttribute
    let expressionAttribute ← field? members "expression_attribute" standard.expressionAttribute
    return { templateTag, typeAttribute, directiveAttribute, expressionAttribute }
  | .array items => (strings? items).map fun texts =>
    { templateTag := texts[0]?.getD standard.templateTag
      typeAttribute := texts[1]?.getD standard.typeAttribute
      directiveAttribute := texts[2]?.getD standard.directiveAttribute
      expressionAttribute := texts[3]?.getD standard.expressionAttribute }
  | _ => none

end Config

end LiveTemplate
