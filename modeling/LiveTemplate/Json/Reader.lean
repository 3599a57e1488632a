import LiveTemplate.Json.Number

/-! Reading JSON texts: exactly the texts of the standard, up to 127 levels deep. Half of a surrogate pair
stands for no character, and of a repeated key the last member counts. Limits are bounds on the recursion;
the length of the text is one. -/

namespace LiveTemplate.Json

def isSpace (c : Char) : Bool :=
  c == ' ' || c == '\t' || c == '\n' || c == '\r'

def skipSpace (text : List Char) : List Char :=
  text.dropWhile isSpace

def hexUnit? : List Char → Option (Nat × List Char)
  | a :: b :: c :: d :: rest => (spelledNumber? 16 [a, b, c, d]).map fun unit => (unit, rest)
  | _ => none

def unicode? (text : List Char) : Option (Char × List Char) := do
  let (unit, rest) ← hexUnit? text
  if h : unit.isValidChar then
    return (Char.ofNatAux unit h, rest)
  else
    match rest with
    | '\\' :: 'u' :: rest =>
      let (second, rest) ← hexUnit? rest
      if unit < 0xDC00 ∧ 0xDC00 ≤ second ∧ second < 0xE000 then
        return (Char.ofNat (0x10000 + (unit - 0xD800) * 0x400 + (second - 0xDC00)), rest)
      else
        none
    | _ => none

def escaped? : List Char → Option (Char × List Char)
  | '"' :: rest => some ('"', rest)
  | '\\' :: rest => some ('\\', rest)
  | '/' :: rest => some ('/', rest)
  | 'b' :: rest => some ('\x08', rest)
  | 'f' :: rest => some ('\x0c', rest)
  | 'n' :: rest => some ('\n', rest)
  | 'r' :: rest => some ('\r', rest)
  | 't' :: rest => some ('\t', rest)
  | 'u' :: rest => unicode? rest
  | _ => none

def stringBody? : (limit : Nat) → List Char → Option (List Char × List Char)
  | 0, _ => none
  | limit + 1, text => do
    match text with
    | [] => none
    | '"' :: rest => return ([], rest)
    | '\\' :: rest =>
      let (c, rest) ← escaped? rest
      let (body, rest) ← stringBody? limit rest
      return (c :: body, rest)
    | c :: rest =>
      if c.toNat < 0x20 then none
      else
        let (body, rest) ← stringBody? limit rest
        return (c :: body, rest)

def string? (text : List Char) : Option (String × List Char) :=
  (stringBody? text.length text).map fun (body, rest) => (String.ofList body, rest)

abbrev Scan (α : Type) :=
  List Char → Option (α × List Char)

def word? (value : Json) (word : List Char) : Scan Json := fun text =>
  if word.isPrefixOf text then some (value, text.drop word.length) else none

def moreItems? (scan : Scan Json) : (limit : Nat) → Scan (List Json)
  | 0, _ => none
  | limit + 1, text => do
    match skipSpace text with
    | ']' :: rest => return ([], rest)
    | ',' :: rest =>
      let (item, rest) ← scan rest
      let (items, rest) ← moreItems? scan limit rest
      return (item :: items, rest)
    | _ => none

def items? (scan : Scan Json) (text : List Char) : Option (List Json × List Char) :=
  match skipSpace text with
  | ']' :: rest => some ([], rest)
  | _ => do
    let (item, rest) ← scan text
    let (items, rest) ← moreItems? scan rest.length rest
    return (item :: items, rest)

def entry? (scan : Scan Json) (text : List Char) : Option ((String × Json) × List Char) := do
  match skipSpace text with
  | '"' :: rest =>
    let (key, rest) ← string? rest
    match skipSpace rest with
    | ':' :: rest =>
      let (value, rest) ← scan rest
      return ((key, value), rest)
    | _ => none
  | _ => none

def moreEntries? (scan : Scan Json) : (limit : Nat) → Scan (List (String × Json))
  | 0, _ => none
  | limit + 1, text => do
    match skipSpace text with
    | '}' :: rest => return ([], rest)
    | ',' :: rest =>
      let (entry, rest) ← entry? scan rest
      let (entries, rest) ← moreEntries? scan limit rest
      return (entry :: entries, rest)
    | _ => none

def entries? (scan : Scan Json) (text : List Char) :
    Option (List (String × Json) × List Char) :=
  match skipSpace text with
  | '}' :: rest => some ([], rest)
  | _ => do
    let (entry, rest) ← entry? scan text
    let (entries, rest) ← moreEntries? scan rest.length rest
    return (entry :: entries, rest)

def gather (entries : List (String × Json)) : List (String × Json) :=
  entries.foldl (fun members (key, value) => insert key value members) []

def value? : (levels : Nat) → Scan Json
  | levels, text =>
    match skipSpace text with
    | '"' :: rest => (string? rest).map fun (text, rest) => (string text, rest)
    | '[' :: rest =>
      match levels with
      | 0 => none
      | levels + 1 => (items? (value? levels) rest).map fun (items, rest) => (array items, rest)
    | '{' :: rest =>
      match levels with
      | 0 => none
      | levels + 1 =>
        (entries? (value? levels) rest).map fun (entries, rest) => (object (gather entries), rest)
    | '-' :: rest => number? true rest
    | 't' :: rest => word? (bool true) "rue".toList rest
    | 'f' :: rest => word? (bool false) "alse".toList rest
    | 'n' :: rest => word? null "ull".toList rest
    | text => number? false text

def maxLevels : Nat :=
  127

def read? (text : String) : Option Json :=
  match value? maxLevels text.toList with
  | some (value, rest) => if (skipSpace rest).isEmpty then some value else none
  | none => none

end LiveTemplate.Json
