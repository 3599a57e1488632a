import LiveTemplate.Markup.Content
import LiveTemplate.Placeholder.Token
import LiveTemplate.Template.Config

/-! What single nodes of a template stand for: a text with placeholders, or a nested template. -/

namespace LiveTemplate

inductive Source where
  | inline (tokens : List Token)
  | nested (expression : String) (directive? : Option String)
  deriving DecidableEq

def Token.templated? (text : String) : Option (List Token) :=
  let tokens := tokenize (trim text.toList)
  if 1 < tokens.length then some tokens else none

namespace Config

def isTemplate (config : Config) (content : Content) : Bool :=
  content.tag?.any (sameTag config.templateTag)

def source? (config : Config) (content : Content) : Option Source :=
  match content with
  | .element _ attributes =>
    if config.isTemplate content then
      let expression := Attribute.lookup attributes (.plain config.expressionAttribute)
      let trimmed := String.ofList (trim (expression.getD "").toList)
      some (.nested trimmed (Attribute.lookup attributes (.plain config.directiveAttribute)))
    else none
  | .text data => (Token.templated? data).map .inline
  | _ => none

end Config

def Content.isBlankText : Content → Bool
  | .text data => data.toList.all isBlank
  | _ => false

end LiveTemplate
