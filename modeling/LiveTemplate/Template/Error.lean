import LiveTemplate.Markup.Content

/-! Why something cannot be written to a part, and why a callback fails. -/

namespace LiveTemplate

namespace NodeKind

def name : NodeKind → String
  | document => "Document"
  | doctype => "Doctype"
  | element => "Element"
  | text => "Text"
  | comment => "Comment"
  | fragment => "Fragment"

end NodeKind

inductive PartError where
  | markup
  | contentKind (kind : NodeKind)
  | notWhole
  deriving DecidableEq

namespace PartError

def message : PartError → String
  | markup => "invalid markup"
  | contentKind kind => s!"a {kind.name} node cannot be used as replacement content"
  | notWhole => "attribute is not fully templatized"

end PartError

inductive Failure where
  | stated (message : String)
  | part (error : PartError)
  | within (context : String) (cause : Failure)
  deriving DecidableEq

namespace Failure

def messages : Failure → List String
  | stated message => [message]
  | part error => [error.message]
  | within context cause => context :: cause.messages

end Failure

end LiveTemplate
