import LiveTemplate.Text.Blank

/-! Placeholders: texts as sequences of literals and double-braced expressions. A backslash is dropped
before a brace or a backslash and kept everywhere else. A text without placeholders, even the empty one, is
one literal; a placeholder that is never closed is dropped. -/

namespace LiveTemplate

inductive Token where
  | literal (text : String)
  | placeholder (expression : String)
  deriving DecidableEq

structure Glyph where
  char : Char
  escaped : Bool
  deriving DecidableEq

namespace Glyph

def opens (glyph : Glyph) : Bool :=
  !glyph.escaped && glyph.char == '{'

def closes (glyph : Glyph) : Bool :=
  !glyph.escaped && glyph.char == '}'

def isSpecial (c : Char) : Bool :=
  c == '{' || c == '}' || c == '\\'

def read : List Char → List Glyph
  | [] => []
  | [c] => [⟨c, false⟩]
  | c :: next :: rest =>
    if c = '\\' ∧ isSpecial next then ⟨next, true⟩ :: read rest
    else ⟨c, false⟩ :: read (next :: rest)

end Glyph

namespace Token

def textOf (seen : List Glyph) : List Char :=
  seen.reverse.map Glyph.char

mutual

def scanLiteral (seen : List Glyph) : List Glyph → List Token
  | first :: second :: rest =>
    if first.opens && second.opens then
      literal (String.ofList (textOf seen)) :: scanExpression [] rest
    else scanLiteral (first :: seen) (second :: rest)
  | [last] => [literal (String.ofList (textOf (last :: seen)))]
  | [] => if seen.isEmpty then [] else [literal (String.ofList (textOf seen))]

def scanExpression (seen : List Glyph) : List Glyph → List Token
  | first :: second :: rest =>
    if first.closes && second.closes then
      placeholder (String.ofList (trim (textOf seen))) :: scanLiteral [] rest
    else scanExpression (first :: seen) (second :: rest)
  | _ => []

end

def tokenize (text : List Char) : List Token :=
  match scanLiteral [] (Glyph.read text) with
  | [] => [literal ""]
  | tokens => tokens

end Token

end LiveTemplate
