/-! Decimals that stand for doubles: the fewest digits that read back as the same double. The search goes
from a decimal grid that is too coarse to the finest that a double can need. The next smaller double of a
`narrow` one is only half as far away as the next larger one. -/

namespace LiveTemplate

structure Decimal where
  digits : Nat
  exponent : Int

structure Dyadic where
  significand : Nat
  exponent : Int
  narrow : Bool

namespace Dyadic

def ofBits (bits : UInt64) : Dyadic :=
  let unit := Nat.pow 2 52
  let fraction := bits.toNat % unit
  let biased := bits.toNat / unit % 2048
  if biased = 0 then ⟨fraction, -1074, false⟩
  else ⟨unit + fraction, (biased : Int) - 1075, fraction == 0 && decide (1 < biased)⟩

end Dyadic

structure Ratio where
  numerator : Nat
  denominator : Nat

namespace Ratio

def scaled (scale base : Nat) (exponent : Int) : Ratio :=
  match exponent with
  | .ofNat exponent => ⟨scale * base.pow exponent, 1⟩
  | .negSucc exponent => ⟨scale, base.pow (exponent + 1)⟩

def le (first second : Ratio) : Bool :=
  first.numerator * second.denominator ≤ second.numerator * first.denominator

def lt (first second : Ratio) : Bool :=
  first.numerator * second.denominator < second.numerator * first.denominator

def steps (number : Ratio) (exponent : Int) : Nat :=
  let step := scaled 1 10 exponent
  number.numerator * step.denominator / (number.denominator * step.numerator)

end Ratio

namespace Dyadic

def value (dyadic : Dyadic) : Ratio :=
  .scaled (4 * dyadic.significand) 2 (dyadic.exponent - 2)

def lowest (dyadic : Dyadic) : Ratio :=
  .scaled (4 * dyadic.significand - if dyadic.narrow then 1 else 2) 2 (dyadic.exponent - 2)

def highest (dyadic : Dyadic) : Ratio :=
  .scaled (4 * dyadic.significand + 2) 2 (dyadic.exponent - 2)

/-- Whether a number rounds to the double. A number halfway between two doubles rounds to the one
with the even significand. -/
def admits (dyadic : Dyadic) (number : Ratio) : Bool :=
  if dyadic.significand % 2 = 0 then dyadic.lowest.le number && number.le dyadic.highest
  else dyadic.lowest.lt number && number.lt dyadic.highest

/-- The nearer of the two neighbours of the double among the multiples of `10 ^ exponent` that
round to it, and of two equally near ones the even multiple. -/
def onGrid? (dyadic : Dyadic) (exponent : Int) : Option Decimal :=
  let below := dyadic.value.steps exponent
  let isBelow := dyadic.admits (.scaled below 10 exponent)
  let isAbove := dyadic.admits (.scaled (below + 1) 10 exponent)
  let middle := Ratio.scaled (2 * below + 1) 10 exponent
  let doubled := Ratio.mk (2 * dyadic.value.numerator) dyadic.value.denominator
  if isBelow && isAbove then
    if doubled.lt middle then some ⟨below, exponent⟩
    else if middle.lt doubled then some ⟨below + 1, exponent⟩
    else some ⟨below + below % 2, exponent⟩
  else if isBelow then some ⟨below, exponent⟩
  else if isAbove then some ⟨below + 1, exponent⟩
  else none

def bound (dyadic : Dyadic) : Int :=
  let length := (dyadic.significand.log2 : Int) + 1 + dyadic.exponent
  (if 0 ≤ length then length * 31 else length * 30) / 100 + 1

def grids (dyadic : Dyadic) : List Int :=
  (List.range 40).map fun (position : Nat) => dyadic.bound - position

def shortest (dyadic : Dyadic) : Decimal :=
  if dyadic.significand = 0 then ⟨0, 0⟩
  else (dyadic.grids.findSome? dyadic.onGrid?).getD ⟨0, 0⟩

end Dyadic

structure Layout where
  leastPlain : Int
  greatestPlain : Int

namespace Layout

def leading (decimal : Decimal) : List Char × Int :=
  let digits := Nat.toDigits 10 decimal.digits
  let kept := (digits.reverse.dropWhile (· == '0')).reverse
  (if kept.isEmpty then ['0'] else kept, decimal.exponent + (digits.length : Int) - 1)

def plain (digits : List Char) (exponent : Int) : List Char :=
  if exponent < 0 then
    "0.".toList ++ List.replicate (-exponent - 1).toNat '0' ++ digits
  else
    let before := exponent.toNat + 1
    let whole := digits.take before ++ List.replicate (before - digits.length) '0'
    let fraction := digits.drop before
    whole ++ '.' :: if fraction.isEmpty then ['0'] else fraction

def scientific (digits : List Char) (exponent : Int) : List Char :=
  let mantissa := match digits with
    | first :: second :: rest => first :: '.' :: second :: rest
    | digits => digits
  mantissa ++ 'e' :: (if exponent < 0 then '-' else '+') :: Nat.toDigits 10 exponent.natAbs

def write (layout : Layout) (bits : UInt64) : List Char :=
  let (digits, exponent) := leading (Dyadic.ofBits bits).shortest
  let magnitude :=
    if layout.leastPlain ≤ exponent && exponent ≤ layout.greatestPlain then plain digits exponent
    else scientific digits exponent
  if bits.toNat < Nat.pow 2 63 then magnitude else '-' :: magnitude

end Layout

end LiveTemplate
