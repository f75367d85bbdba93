import SaveTree.Text.Hex
import SaveTree.Text.Hidden

namespace SaveTree
namespace Quotation

/-!
# Quoted texts

A text between double quotes, so that it stands on one line and every character
can be told.  Quotes, backslashes and the usual controls have short spellings,
other controls and hidden characters are given by their number.
-/

/-- A character given by its number. -/
def numbered (c : Char) : List Char :=
  ['\\', 'u', '\x7b'] ++ Nat.toDigits 16 c.toNat ++ ['\x7d']

/-- The spelling of a character in quotes. -/
def character (c : Char) : List Char :=
  if c = '\x00' then ['\\', '0']
  else if c = '\t' then ['\\', 't']
  else if c = '\n' then ['\\', 'n']
  else if c = '\r' then ['\\', 'r']
  else if c = '"' then ['\\', '"']
  else if c = '\\' then ['\\', '\\']
  else if c.toNat < 0x20 ∨ isHidden c then numbered c
  else [c]

/-- The text in quotes. -/
def quote (text : String) : String :=
  String.ofList ('"' :: text.toList.flatMap character ++ ['"'])

end Quotation
end SaveTree
