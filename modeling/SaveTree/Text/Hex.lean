namespace SaveTree
namespace Hex

/-!
# Hexadecimal text

Bytes as two lower-case digits each, and the dump of a byte sequence: sixteen
bytes to a line, each line opened by the position of its first byte.
-/

/-- The digit of a number below sixteen. -/
def digit (value : Nat) : Char :=
  if value < 10 then Char.ofNat ('0'.toNat + value) else Char.ofNat ('a'.toNat + value - 10)

/-- The number that a digit of either case stands for. -/
def value? (c : Char) : Option Nat :=
  if c.isDigit then some (c.toNat - '0'.toNat)
  else if 'a' ≤ c ∧ c ≤ 'f' then some (c.toNat - 'a'.toNat + 10)
  else if 'A' ≤ c ∧ c ≤ 'F' then some (c.toNat - 'A'.toNat + 10)
  else none

/-- The two digits of a byte. -/
def byte (value : UInt8) : List Char :=
  [digit (value.toNat / 16), digit (value.toNat % 16)]

/-- The digits of all bytes, one after the other. -/
def encode (bytes : ByteArray) : String :=
  String.ofList (bytes.toList.flatMap byte)

/-- The bytes that pairs of digits spell. -/
def decode? : List Char → Option (List UInt8)
  | [] => some []
  | [_] => none
  | high :: low :: rest => do
    let high ← value? high
    let low ← value? low
    return UInt8.ofNat (high * 16 + low) :: (← decode? rest)

/-- A position in eight digits, or in as many as it needs. -/
def position (index : Nat) : List Char :=
  let digits := Nat.toDigits 16 index
  List.replicate (8 - digits.length) '0' ++ digits

/-- One line of a dump. -/
def line (start : Nat) (bytes : List UInt8) : List Char :=
  position start ++ [' ', ' '] ++ [' '].intercalate (bytes.map byte)

/-- The lines of a dump that begins at position `start`. -/
def lines (start : Nat) : List UInt8 → List (List Char)
  | [] => []
  | first :: rest =>
    line start ((first :: rest).take 16) :: lines (start + 16) (rest.drop 15)
termination_by bytes => bytes.length

/-- The dump of a byte sequence. -/
def dump (bytes : ByteArray) : String :=
  String.ofList ((lines 0 bytes.toList).flatMap (· ++ ['\n']))

end Hex
end SaveTree
