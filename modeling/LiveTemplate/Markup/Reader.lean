import LiveTemplate.Markup.Content
import LiveTemplate.Markup.Reference
import LiveTemplate.Tree

/-! Reading markup: elements, texts, comments and doctypes, with every other text refused. A name without a
value that can be read has the empty value. Limits bound the number and the depth of nodes; no node is
shorter than one character, so that the length of the text is one. -/

namespace LiveTemplate.Markup

def isSpace (c : Char) : Bool :=
  c == ' ' || c == '\t' || c == '\r' || c == '\n' || c == '\x0c'

def isNameChar (c : Char) : Bool :=
  c.isAlphanum || c == '-' || c == '_' || c == ':' || c == '.'

def isAttributeNameChar (c : Char) : Bool :=
  !(isSpace c || c == '=' || c == '>' || c == '/' || c == '"' || c == '\'' || c == '<')

def isUnquotedChar (c : Char) : Bool :=
  !(isSpace c || c == '>' || c == '"' || c == '\'' || c == '=' || c == '<' || c == '\x60')

def skipSpace (text : List Char) : List Char :=
  text.dropWhile isSpace

def skip? : List Char → List Char → Option (List Char)
  | [], text => some text
  | expected :: start, c :: text => if c = expected then skip? start text else none
  | _ :: _, [] => none

def run? (member : Char → Bool) (text : List Char) : Option (List Char × List Char) :=
  match text.takeWhile member with
  | [] => none
  | run => some (run, text.dropWhile member)

def untilQuote? (quote : Char) (text : List Char) : Option (List Char × List Char) :=
  match text.dropWhile (· != quote) with
  | [] => none
  | _ :: rest => some (text.takeWhile (· != quote), rest)

def value? : List Char → Option (List Char × List Char)
  | '"' :: text => untilQuote? '"' text
  | '\'' :: text => untilQuote? '\'' text
  | text => run? isUnquotedChar text

def assigned? (text : List Char) : Option (List Char × List Char) :=
  (skip? ['='] (skipSpace text)).bind fun rest => value? (skipSpace rest)

def namespaceOf (name : List Char) : Option String :=
  if (skip? "xlink:".toList name).isSome then some "http://www.w3.org/1999/xlink"
  else if (skip? "xml:".toList name).isSome then some "http://www.w3.org/XML/1998/namespace"
  else none

def attribute? (text : List Char) : Option (Attribute × List Char) :=
  (run? isAttributeNameChar text).map fun (name, rest) =>
    let name' := ⟨namespaceOf name, String.ofList name⟩
    match assigned? rest with
    | some (value, rest) => (⟨name', String.ofList (Reference.decode value)⟩, rest)
    | none => (⟨name', ""⟩, rest)

def attributes : (limit : Nat) → List Char → List Attribute × List Char
  | 0, text => ([], text)
  | limit + 1, text =>
    match (run? isSpace text).bind fun (_, rest) => attribute? rest with
    | none => ([], text)
    | some (entry, rest) =>
      let (entries, rest) := attributes limit rest
      (entry :: entries, rest)

/-- An attribute list in which a repeated name keeps its first place and its last value. -/
def collect (entries : List Attribute) : List Attribute :=
  entries.foldl (fun kept entry => Attribute.assign entry.name entry.value kept) []

structure OpeningTag where
  name : List Char
  attributes : List Attribute
  selfClosing : Bool

def openingTag? (text : List Char) : Option (OpeningTag × List Char) :=
  match text with
  | [] => none
  | c :: _ =>
    if c.isAlpha then
      let name := text.takeWhile isNameChar
      let (entries, rest) := attributes text.length (text.dropWhile isNameChar)
      match skipSpace rest with
      | '/' :: '>' :: rest => some (⟨name, collect entries, true⟩, rest)
      | '>' :: rest => some (⟨name, collect entries, false⟩, rest)
      | _ => none
    else none

def closingTag? (name text : List Char) : Option (List Char) :=
  (skip? ['<', '/'] text).bind fun rest =>
    (skip? name rest).bind fun rest => skip? ['>'] (skipSpace rest)

def untilCommentEnd? : List Char → Option (List Char × List Char)
  | [] => none
  | c :: text =>
    match skip? "-->".toList (c :: text) with
    | some rest => some ([], rest)
    | none => (untilCommentEnd? text).map fun (body, rest) => (c :: body, rest)

def comment? (text : List Char) : Option (Tree Content × List Char) :=
  (skip? "<!--".toList text).bind fun rest =>
    (untilCommentEnd? rest).map fun (body, rest) => (.node (.comment (String.ofList body)) [], rest)

def isDoctypeNameChar (c : Char) : Bool :=
  !(isSpace c || c == '>')

def doctype? (text : List Char) : Option (Tree Content × List Char) :=
  (skip? "<!".toList text).bind fun rest =>
    if (rest.take 7).map Char.toLower == "doctype".toList then
      (run? isSpace (rest.drop 7)).bind fun (_, rest) =>
        (run? isDoctypeNameChar rest).bind fun (name, rest) =>
          (skip? ['>'] (skipSpace rest)).map fun rest =>
            (.node (.doctype (String.ofList name)) [], rest)
    else none

def text? (text : List Char) : Option (Tree Content × List Char) :=
  (run? (· != '<') text).map fun (run, rest) =>
    (.node (.text (String.ofList (Reference.decode run))) [], rest)

def element? (inside : List Char → List (Tree Content) × List Char) (text : List Char) :
    Option (Tree Content × List Char) :=
  (skip? ['<'] text).bind fun rest =>
    (openingTag? rest).bind fun (tag, rest) =>
      let content := Content.element (String.ofList (tag.name.map Char.toLower)) tag.attributes
      if tag.selfClosing || isVoidElement (String.ofList tag.name) then
        some (.node content [], rest)
      else
        let (children, rest) := inside rest
        (closingTag? tag.name rest).map fun rest => (.node content children, rest)

def node? (inside : List Char → List (Tree Content) × List Char) (text : List Char) :
    Option (Tree Content × List Char) :=
  comment? text <|> doctype? text <|> element? inside text <|> text? text

def nodes : (limit : Nat) → List Char → List (Tree Content) × List Char
  | 0, text => ([], text)
  | limit + 1, text =>
    match node? (nodes limit) text with
    | none => ([], text)
    | some (tree, rest) =>
      let (trees, rest) := nodes limit rest
      (tree :: trees, rest)

def read? (text : List Char) : Option (List (Tree Content)) :=
  match nodes text.length text with
  | (trees, []) => some trees
  | _ => none

end LiveTemplate.Markup
