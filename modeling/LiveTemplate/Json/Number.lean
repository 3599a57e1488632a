import LiveTemplate.Json.Value
import LiveTemplate.Text.Digit

/-! Reading the numbers of JSON texts. What grows beyond every double is refused. -/

namespace LiveTemplate.Json

structure Numeral where
  negative : Bool
  whole : List Nat
  fraction? : Option (List Nat)
  exponent? : Option Int

namespace Numeral

def wordLimit : Nat :=
  18446744073709551616

def exponentLimit : Int :=
  2147483648

def fill (significand : Nat) : List Nat → Nat × List Nat
  | [] => (significand, [])
  | digit :: digits =>
    if significand * 10 + digit < wordLimit then fill (significand * 10 + digit) digits
    else (significand, digit :: digits)

def scale? (value : Float) (exponent : Int) : (steps : Nat) → Option Float
  | 0 => some value
  | steps + 1 =>
    if exponent.natAbs ≤ 308 then
      let power := Float.ofScientific 1 false exponent.natAbs
      if exponent < 0 then some (value / power)
      else if (value * power).isInf then none else some (value * power)
    else if value == 0 then some value
    else if 0 ≤ exponent then none
    else scale? (value / 1e308) (exponent + 308) steps

def double? (negative : Bool) (significand : Nat) (exponent : Int) : Option Json :=
  -- Three steps down leave zero of any significand.
  (scale? significand.toUInt64.toFloat exponent 4).map fun magnitude =>
    double (if negative then -magnitude else magnitude)

def clamp (exponent : Int) : Int :=
  max (-exponentLimit) (min exponent (exponentLimit - 1))

/-- Whole numbers that fit 64 bits are exact. Every other number, minus zero included, is a double:
the digits that fit a significand of 64 bits count, and the digits before the point that do not fit
only raise the exponent. -/
def value? (numeral : Numeral) : Option Json :=
  let (whole, extra) := fill 0 numeral.whole
  match numeral.fraction?, numeral.exponent?, extra with
  | none, none, [] =>
    if !numeral.negative then some (integer whole)
    else if 0 < whole ∧ whole * 2 ≤ wordLimit then some (integer (-whole))
    else some (double (-whole.toUInt64.toFloat))
  | fraction?, exponent?, extra =>
    let fraction := fraction?.getD []
    let (significand, unused) := fill whole fraction
    let start := (extra.length : Int) - (fraction.length - unused.length : Nat)
    match exponent? with
    | none => double? numeral.negative significand start
    | some exponent =>
      if -exponentLimit < exponent ∧ exponent < exponentLimit then
        double? numeral.negative significand (clamp (start + exponent))
      else if significand ≠ 0 ∧ 0 < exponent then none
      else some (double (if numeral.negative then -0.0 else 0.0))

end Numeral

def digits (text : List Char) : List Nat × List Char :=
  ((text.takeWhile Char.isDigit).filterMap (digitValue? 10), text.dropWhile Char.isDigit)

def someDigits? (text : List Char) : Option (List Nat × List Char) :=
  match digits text with
  | ([], _) => none
  | found => some found

def whole? (text : List Char) : Option (List Nat × List Char) :=
  (someDigits? text).filter fun (found, _) => found.head? != some 0 || found.length == 1

def fraction? : List Char → Option (Option (List Nat) × List Char)
  | '.' :: text => (someDigits? text).map fun (found, rest) => (some found, rest)
  | text => some (none, text)

def exponent? (text : List Char) : Option (Option Int × List Char) :=
  match text with
  | 'e' :: '-' :: rest | 'E' :: '-' :: rest =>
    (someDigits? rest).map fun (found, rest) => (some (-(ofDigits 10 found : Int)), rest)
  | 'e' :: '+' :: rest | 'E' :: '+' :: rest | 'e' :: rest | 'E' :: rest =>
    (someDigits? rest).map fun (found, rest) => (some (ofDigits 10 found : Int), rest)
  | text => some (none, text)

def number? (negative : Bool) (text : List Char) : Option (Json × List Char) := do
  let (whole, rest) ← whole? text
  let (fraction?, rest) ← fraction? rest
  let (exponent?, rest) ← exponent? rest
  let value ← Numeral.value? ⟨negative, whole, fraction?, exponent?⟩
  return (value, rest)

end LiveTemplate.Json
