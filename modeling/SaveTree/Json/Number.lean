import SaveTree.Decimal.Shortest
import SaveTree.Json.Source

namespace SaveTree
namespace Json

/-!
# Numbers

A number literal without fraction and exponent is an integer as long as it fits
in 64 bits, with or without sign.  Every other literal is a double.

A double is computed from the leading digits that fit in 64 bits and a power of
ten.  A literal too large for a double has no value.
-/

/-- A number as it is kept. -/
inductive Number where
  | int (value : Int)
  | float (value : Float)

namespace Number

/-- Doubles have at least one decimal place, and an exponent with a sign when
they are below a hundred-thousandth or from ten quadrillion on. -/
def layout : Decimal.Layout where
  plainFrom := -5
  plainBelow := 16

/-- The text of a number. -/
def text : Number → List Char
  | int value =>
    if value < 0 then '-' :: Nat.toDigits 10 value.natAbs else Nat.toDigits 10 value.natAbs
  | float value => layout.text value

/-- The natural number below `bound` that the number is. -/
def below? (bound : Nat) : Number → Option Nat
  | int value => if 0 ≤ value ∧ value.toNat < bound then some value.toNat else none
  | float _ => none

end Number

/-- A number as it is written.  Digits are given by value. -/
structure Literal where
  negative : Bool
  whole : List Nat
  /-- Empty if there is no fraction. -/
  fraction : List Nat
  /-- The exponent's sign and digits. -/
  exponent : Option (Bool × List Nat)
  deriving DecidableEq

namespace Literal

/-- A number that the end of the text cuts short.  A skipped number is checked
character by character only. -/
def cutShort : Flaw :=
  ⟨.truncated, .malformed⟩

/-- Reads at least one digit. -/
def someDigits (source : Source) : Except Flaw (List Nat × Source) :=
  match source.takeDigits with
  | ([], []) => .error cutShort
  | ([], _) => .error (.always .malformed)
  | (digits, rest) => .ok (digits, rest)

/-- Reads the digits before the point.  A zero in front of others is refused. -/
def readWhole (source : Source) : Except Flaw (List Nat × Source) := do
  match ← someDigits source with
  | (0 :: _ :: _, _) => .error (.always .malformed)
  | read => .ok read

/-- Reads the point and the digits behind it, if there is a point. -/
def readFraction : Source → Except Flaw (List Nat × Source)
  | some '.' :: rest => someDigits rest
  | source => .ok ([], source)

/-- Reads the exponent, if there is one. -/
def readExponent (source : Source) : Except Flaw (Option (Bool × List Nat) × Source) :=
  match source with
  | some 'e' :: rest | some 'E' :: rest => do
    let (negative, rest) :=
      match rest with
      | some '-' :: rest => (true, rest)
      | some '+' :: rest => (false, rest)
      | rest => (false, rest)
    let (digits, rest) ← someDigits rest
    .ok (some (negative, digits), rest)
  | _ => .ok (none, source)

/-- Reads a number. -/
def read (source : Source) : Except Flaw (Literal × Source) := do
  let (negative, source) :=
    match source with
    | some '-' :: rest => (true, rest)
    | source => (false, source)
  let (whole, source) ← readWhole source
  let (fraction, source) ← readFraction source
  let (exponent, source) ← readExponent source
  .ok (⟨negative, whole, fraction, exponent⟩, source)

/-- Appends digits to a number while it fits in 64 bits.  The digits that no
longer fit are returned. -/
def fill (number : Nat) : List Nat → Nat × List Nat
  | [] => (number, [])
  | digit :: rest =>
    if number * 10 + digit < UInt64.size then fill (number * 10 + digit) rest
    else (number, digit :: rest)

/-- The number that digits spell. -/
def valueOf (digits : List Nat) : Nat :=
  digits.foldl (fun number digit => number * 10 + digit) 0

/-- The largest power of ten that is a double. -/
def topPower : Nat := 308

/-- A power of ten as a double. -/
def tenTo (power : Nat) : Float :=
  Float.ofScientific 1 false power

/-- Divides by a power of ten, by the largest one as long as it is not too
large. -/
def divideDown (x : Float) (power : Nat) : Float :=
  if power ≤ topPower then x / tenTo power
  else if x == 0 then x
  else divideDown (x / tenTo topPower) (power - topPower)
termination_by power
decreasing_by
  simp only [topPower] at *
  omega

/-- `number * 10 ^ power` as a double, unless it is too large for one. -/
def scale? (number : Nat) (power : Int) : Option Float :=
  let x := (UInt64.ofNat number).toFloat
  if power < 0 then some (divideDown x power.natAbs)
  else if power.toNat ≤ topPower then
    let scaled := x * tenTo power.toNat
    if scaled.isInf then none else some scaled
  else if number = 0 then some x
  else none

/-- The largest exponent that is read in full. -/
def topExponent : Nat := 0x7fffffff

/-- The literal's double, without its sign. -/
def magnitude? (literal : Literal) : Option Float :=
  let (number, spare) := fill 0 literal.whole
  let (number, dropped) := fill number literal.fraction
  let power : Int := spare.length - (literal.fraction.length - dropped.length : Nat)
  match literal.exponent with
  | none => scale? number power
  | some (negative, digits) =>
    let exponent := valueOf digits
    if topExponent < exponent then
      if number = 0 ∨ negative then some 0 else none
    else scale? number (if negative then power - exponent else power + exponent)

/-- The literal is a plain row of digits. -/
def isInteger (literal : Literal) : Bool :=
  literal.fraction = [] && literal.exponent = none

/-- The value of a literal, or nothing if it is too large. -/
def number? (literal : Literal) : Option Number :=
  let signed (x : Float) : Number := .float (if literal.negative then -x else x)
  let integer := valueOf literal.whole
  if literal.isInteger && integer < UInt64.size then
    if !literal.negative then some (.int integer)
    else if 0 < integer && integer ≤ 0x8000000000000000 then some (.int (-integer))
    else some (signed (UInt64.ofNat integer).toFloat)
  else literal.magnitude?.map signed

end Literal

end Json
end SaveTree
