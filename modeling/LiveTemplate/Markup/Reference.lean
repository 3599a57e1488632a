import LiveTemplate.Text.Digit

/-! Character references: how text and attribute values are written in markup and read back. A name ends at
the first semicolon, and an ampersand that starts no reference stays as it is. -/

namespace LiveTemplate.Reference

def scalar? (base : Nat) (spelled : List Char) : Option Char :=
  let digits := match spelled with
    | '+' :: digits => digits
    | digits => digits
  (spelledNumber? base digits).bind fun value =>
    if h : value.isValidChar then some (Char.ofNatAux value h) else none

def named? : List Char → Option Char
  | ['a', 'm', 'p'] => some '&'
  | ['l', 't'] => some '<'
  | ['g', 't'] => some '>'
  | ['q', 'u', 'o', 't'] => some '"'
  | ['a', 'p', 'o', 's'] => some '\''
  | ['n', 'b', 's', 'p'] => some '\u00a0'
  | '#' :: 'x' :: digits | '#' :: 'X' :: digits => scalar? 16 digits
  | '#' :: digits => scalar? 10 digits
  | _ => none

def read? (text : List Char) : Option (Char × List Char) :=
  match text.dropWhile (· != ';') with
  | [] => none
  | _ :: rest => (named? (text.takeWhile (· != ';'))).map fun c => (c, rest)

theorem read?_length {text rest : List Char} {c : Char} (found : read? text = some (c, rest)) :
    rest.length < text.length := by
  unfold read? at found
  split at found
  · contradiction
  · next split =>
    obtain ⟨_, _, pair⟩ := Option.map_eq_some_iff.1 found
    cases pair
    have bound := (List.dropWhile_suffix (· != ';') (l := text)).length_le
    rw [split] at bound
    simp only [List.length_cons] at bound
    omega

def decode : List Char → List Char
  | [] => []
  | c :: text =>
    if c = '&' then
      match found : read? text with
      | some (decoded, rest) =>
        have := read?_length found
        decoded :: decode rest
      | none => '&' :: decode text
    else c :: decode text
  termination_by text => text.length
  decreasing_by
    all_goals simp_wf
    omega

inductive Position where
  | content
  | quoted

def escapeChar (position : Position) (c : Char) : List Char :=
  if c = '&' then "&amp;".toList
  else if c = '<' then "&lt;".toList
  else if c = '>' then "&gt;".toList
  else
    match position with
    | .content => [c]
    | .quoted => if c = '"' then "&quot;".toList else [c]

def escape (position : Position) (text : List Char) : List Char :=
  text.flatMap (escapeChar position)

end LiveTemplate.Reference
