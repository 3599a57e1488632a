/-! Digits, and the numbers that runs of them spell. -/

namespace LiveTemplate

def digitValue? (base : Nat) (c : Char) : Option Nat :=
  let value? :=
    if '0' ≤ c ∧ c ≤ '9' then some (c.toNat - '0'.toNat)
    else if 'a' ≤ c ∧ c ≤ 'z' then some (c.toNat - 'a'.toNat + 10)
    else if 'A' ≤ c ∧ c ≤ 'Z' then some (c.toNat - 'A'.toNat + 10)
    else none
  value?.filter (· < base)

def ofDigits (base : Nat) (digits : List Nat) : Nat :=
  digits.foldl (fun total digit => total * base + digit) 0

def spelledNumber? (base : Nat) (spelled : List Char) : Option Nat :=
  if spelled.isEmpty then none else (spelled.mapM (digitValue? base)).map (ofDigits base)

end LiveTemplate
