import LiveTemplate.Decimal.Shortest

/-! JSON values and the compact text that stands for them. The members of an object are kept in increasing
order of their keys. Doubles are written plainly from `0.00001` up to sixteen digits before the point. -/

namespace LiveTemplate

inductive Json where
  | null
  | bool (value : Bool)
  | integer (value : Int)
  | double (value : Float)
  | string (text : String)
  | array (items : List Json)
  | object (members : List (String × Json))

namespace Json

def insert (key : String) (value : Json) : List (String × Json) → List (String × Json)
  | [] => [(key, value)]
  | (other, held) :: rest =>
    if key < other then (key, value) :: (other, held) :: rest
    else if key = other then (key, value) :: rest
    else (other, held) :: insert key value rest

def member? (members : List (String × Json)) (key : String) : Option Json :=
  members.lookup key

def members? : Json → Option (List (String × Json))
  | object members => some members
  | _ => none

def hexDigits (value : Nat) : List Char :=
  [value / 4096 % 16, value / 256 % 16, value / 16 % 16, value % 16].map Nat.digitChar

def escapeChar (c : Char) : List Char :=
  if c = '"' then ['\\', '"']
  else if c = '\\' then ['\\', '\\']
  else if c = '\x08' then ['\\', 'b']
  else if c = '\x0c' then ['\\', 'f']
  else if c = '\n' then ['\\', 'n']
  else if c = '\r' then ['\\', 'r']
  else if c = '\t' then ['\\', 't']
  else if c.toNat < 0x20 then '\\' :: 'u' :: hexDigits c.toNat
  else [c]

def writeString (text : String) : List Char :=
  '"' :: text.toList.flatMap escapeChar ++ ['"']

def doubleLayout : Layout :=
  ⟨-5, 15⟩

def writeInteger (value : Int) : List Char :=
  (if value < 0 then ['-'] else []) ++ Nat.toDigits 10 value.natAbs

mutual

def write : Json → List Char
  | null => "null".toList
  | bool value => (if value then "true" else "false").toList
  | integer value => writeInteger value
  | double value => doubleLayout.write value.toBits
  | string text => writeString text
  | array [] => "[]".toList
  | array (item :: items) => '[' :: write item ++ writeItems items
  | object [] => "\x7b\x7d".toList
  | object ((key, value) :: members) =>
    '{' :: writeString key ++ ':' :: write value ++ writeMembers members

def writeItems : List Json → List Char
  | [] => [']']
  | item :: items => ',' :: write item ++ writeItems items

def writeMembers : List (String × Json) → List Char
  | [] => ['}']
  | (key, value) :: members =>
    ',' :: writeString key ++ ':' :: write value ++ writeMembers members

end

/-- What a placeholder shows for a value: null nothing at all, a string itself, and any other
value its compact text. -/
def shown : Json → Option String
  | null => none
  | string text => some text
  | value => some (String.ofList (write value))

end Json

end LiveTemplate
