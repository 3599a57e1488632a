import LiveTemplate.Markup.Content
import LiveTemplate.Markup.Reference
import LiveTemplate.Tree

/-! Writing trees as markup, and the text they hold. Comments have data of their own, but none of it counts
as text of a parent. -/

namespace LiveTemplate.Markup

def writeAttribute (entry : Attribute) : List Char :=
  ' ' :: entry.name.qualified.toList ++ "=\"".toList
    ++ Reference.escape .quoted entry.value.toList ++ ['"']

def writeOpening : Content → List Char
  | .document | .fragment => []
  | .doctype name => "<!DOCTYPE ".toList ++ name.toList ++ ['>']
  | .text data => Reference.escape .content data.toList
  | .comment data => "<!--".toList ++ data.toList ++ "-->".toList
  | .element tag attributes =>
    '<' :: tag.toList ++ attributes.flatMap writeAttribute ++ ['>']

def showsChildren : Content → Bool
  | .document | .fragment => true
  | .element tag _ => !isVoidElement tag
  | .doctype _ | .text _ | .comment _ => false

def writeClosing : Content → List Char
  | .element tag _ => "</".toList ++ tag.toList ++ ['>']
  | _ => []

mutual

def write : Tree Content → List Char
  | .node content children =>
    writeOpening content ++
      if showsChildren content then writeAll children ++ writeClosing content else []

def writeAll : List (Tree Content) → List Char
  | [] => []
  | tree :: rest => write tree ++ writeAll rest

end

mutual

def textOf : Tree Content → String
  | .node content children =>
    match content with
    | .text data | .comment data => data
    | .doctype _ => ""
    | .document | .fragment | .element _ _ => textOfAll children

def textOfAll : List (Tree Content) → String
  | [] => ""
  | tree :: rest =>
    (if tree.label.kind = .comment then "" else textOf tree) ++ textOfAll rest

end

end LiveTemplate.Markup
