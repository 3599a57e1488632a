import LiveTemplate.Markup.Attribute

/-! What a node of a document holds, apart from its place in the tree. -/

namespace LiveTemplate

inductive NodeKind where
  | document
  | doctype
  | element
  | text
  | comment
  | fragment
  deriving DecidableEq

namespace NodeKind

def isContainer : NodeKind → Bool
  | document | doctype | fragment => true
  | element | text | comment => false

end NodeKind

inductive Content where
  | document
  | doctype (name : String)
  | element (tag : String) (attributes : List Attribute)
  | text (data : String)
  | comment (data : String)
  | fragment
  deriving DecidableEq

namespace Content

def kind : Content → NodeKind
  | document => .document
  | doctype _ => .doctype
  | element _ _ => .element
  | text _ => .text
  | comment _ => .comment
  | fragment => .fragment

def tag? : Content → Option String
  | element tag _ => some tag
  | _ => none

def data? : Content → Option String
  | text data | comment data => some data
  | _ => none

def attributes : Content → List Attribute
  | element _ attributes => attributes
  | _ => []

def withData (content : Content) (data : String) : Content :=
  match content with
  | text _ => text data
  | comment _ => comment data
  | other => other

def mapAttributes (content : Content) (change : List Attribute → List Attribute) : Content :=
  match content with
  | element tag attributes => element tag (change attributes)
  | other => other

end Content

def sameTag (first second : String) : Bool :=
  first.toList.map Char.toLower == second.toList.map Char.toLower

def voidElements : List String :=
  ["area", "base", "br", "col", "embed", "hr", "img", "input", "link", "meta", "param", "source",
   "track", "wbr"]

def isVoidElement (tag : String) : Bool :=
  voidElements.any (sameTag tag)

end LiveTemplate
