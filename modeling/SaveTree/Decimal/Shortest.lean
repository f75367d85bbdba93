namespace SaveTree
namespace Decimal

/-!
# The fewest digits that identify a number

A binary floating-point number stands for all reals that round to it.  Among the
decimals in that interval this module finds one with the fewest digits, and of
several the one nearest to the number.  All comparisons are exact, between
natural numbers.
-/

/-- A positive number `numerator / denominator`, with the reals that round to
it: from `numerator - below` to `numerator + above` over the same denominator.
The ends belong to it if `closed`. -/
structure Interval where
  numerator : Nat
  denominator : Nat
  below : Nat
  above : Nat
  closed : Bool

namespace Interval

/-- The reals that round to `significand * 2 ^ exponent`.  Just above a power of
two the neighbour below is only half as far away, which `narrow` says. -/
def ofBinary (significand : Nat) (exponent : Int) (narrow : Bool) : Interval :=
  let scale := Nat.pow 2 exponent.toNat
  { numerator := 4 * significand * scale
    denominator := 4 * Nat.pow 2 (-exponent).toNat
    below := if narrow then scale else 2 * scale
    above := 2 * scale
    closed := significand % 2 = 0 }

/-- Both sides of a comparison of `count * 10 ^ power` with the number, brought
to natural numbers: the decimal first, then the factor of the numerator. -/
def scaled (interval : Interval) (count : Nat) (power : Int) : Nat × Nat :=
  (count * Nat.pow 10 power.toNat * interval.denominator, Nat.pow 10 (-power).toNat)

/-- The decimal `count * 10 ^ power` rounds to the number. -/
def contains (interval : Interval) (count : Nat) (power : Int) : Bool :=
  let (decimal, factor) := interval.scaled count power
  let low := (interval.numerator - interval.below) * factor
  let high := (interval.numerator + interval.above) * factor
  if interval.closed then low ≤ decimal && decimal ≤ high else low < decimal && decimal < high

/-- The exponent of the number's first decimal digit. -/
def magnitude (interval : Interval) : Int :=
  let { numerator, denominator, .. } := interval
  if denominator ≤ numerator then
    (Nat.toDigits 10 (numerator / denominator)).length - 1
  else
    -(Nat.toDigits 10 ((denominator - 1) / numerator)).length

/-- How many times `10 ^ power` goes into the number. -/
def quotient (interval : Interval) (power : Int) : Nat :=
  interval.numerator * Nat.pow 10 (-power).toNat /
    (interval.denominator * Nat.pow 10 power.toNat)

/-- `count * 10 ^ power` is at least as near to the number as the next multiple.
At equal distance the even one counts as nearer. -/
def prefersLower (interval : Interval) (count : Nat) (power : Int) : Bool :=
  let (middle, factor) := interval.scaled (2 * count + 1) power
  let number := 2 * interval.numerator * factor
  number < middle || (number = middle && count % 2 = 0)

/-- The decimal of the given number of digits that rounds to the number, if one
does.  Only the two multiples of the last place around the number can. -/
def withDigits? (interval : Interval) (digits : Nat) : Option (Nat × Int) :=
  let power := interval.magnitude - digits + 1
  let count := interval.quotient power
  match interval.contains count power, interval.contains (count + 1) power with
  | true, true =>
    some (if interval.prefersLower count power then count else count + 1, power)
  | true, false => some (count, power)
  | false, true => some (count + 1, power)
  | false, false => none

/-- A decimal of fewest digits that rounds to the number, as a count and a power
of ten.  Seventeen digits are always enough for a double. -/
def shortest (interval : Interval) : Nat × Int :=
  ((List.range 17).findSome? fun n => interval.withDigits? (n + 1)).getD
    (interval.quotient (interval.magnitude - 16), interval.magnitude - 16)

end Interval

/-- Where the exponent begins in the bits of a double: above 52 bits of
fraction. -/
def fractionSize : Nat := 0x10000000000000

/-- The interval of a positive finite double. -/
def Interval.ofFloat (x : Float) : Interval :=
  let bits := x.toBits.toNat
  let biased := bits / fractionSize % 0x800
  let fraction := bits % fractionSize
  if biased = 0 then .ofBinary fraction (-1074) false
  else .ofBinary (fraction + fractionSize) ((biased : Int) - 1075) (fraction = 0 && 1 < biased)

/-- The digits of a positive finite double, without zeros at the end, and the
exponent of the first one. -/
def digits (x : Float) : List Char × Int :=
  let (count, power) := (Interval.ofFloat x).shortest
  let all := Nat.toDigits 10 count
  ((all.reverse.dropWhile (· = '0')).reverse, power + all.length - 1)

/-- Decisions on how digits are laid out. -/
structure Layout where
  /-- The least exponent of the first digit written without an exponent. -/
  plainFrom : Int
  /-- The least exponent of the first digit written with one again. -/
  plainBelow : Int

namespace Layout

/-- Digits with a point and no exponent.  At least one digit stands on each side
of the point. -/
def plain (digits : List Char) (exponent : Int) : List Char :=
  if exponent < 0 then
    "0.".toList ++ List.replicate (-exponent - 1).toNat '0' ++ digits
  else
    let places := exponent.toNat + 1
    let whole := digits.take places ++ List.replicate (places - digits.length) '0'
    let rest := digits.drop places
    whole ++ '.' :: (if rest = [] then ['0'] else rest)

/-- Digits with a signed exponent.  The point stands after the first digit, if
there are more. -/
def scientific (digits : List Char) (exponent : Int) : List Char :=
  let mantissa :=
    match digits with
    | first :: second :: rest => first :: '.' :: second :: rest
    | _ => digits
  let sign := if exponent < 0 then '-' else '+'
  mantissa ++ 'e' :: sign :: Nat.toDigits 10 exponent.natAbs

/-- The text of a finite double. -/
def text (layout : Layout) (x : Float) : List Char :=
  let negative := 0x8000000000000000 ≤ x.toBits.toNat
  let size := x.abs
  let body :=
    if size == 0 then "0.0".toList
    else
      let (digits, exponent) := digits size
      if layout.plainFrom ≤ exponent ∧ exponent < layout.plainBelow then plain digits exponent
      else scientific digits exponent
  if negative then '-' :: body else body

end Layout

end Decimal
end SaveTree
