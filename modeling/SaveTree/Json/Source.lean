import SaveTree.Json.Error

namespace SaveTree
namespace Json

/-!
# Text to be read

JSON is read from characters.  A document on disk is bytes, and some of them may
spell no character.  Such a byte is kept as `none`: it does no harm inside a
string that is skipped, and is refused anywhere else.
-/

/-- What is left to read: characters, with `none` for a byte that belongs to no
character. -/
abbrev Source := List (Option Char)

namespace Source

/-- The characters of a text. -/
def ofString (text : String) : Source :=
  text.toList.map some

/-- The characters from position `index` of `bytes` on. -/
def decodeFrom (bytes : ByteArray) (index : Nat) : Source :=
  if index < bytes.size then
    match bytes.utf8DecodeChar? index with
    | some c => some c :: decodeFrom bytes (index + c.utf8Size)
    | none => none :: decodeFrom bytes (index + 1)
  else []
termination_by bytes.size - index
decreasing_by
  · have := c.utf8Size_pos
    omega
  · omega

/-- The characters that the bytes spell, in their order. -/
def ofBytes (bytes : ByteArray) : Source :=
  match String.fromUTF8? bytes with
  | some text => ofString text
  | none => decodeFrom bytes 0

/-- Blanks between the parts of a text. -/
def isBlank (c : Char) : Bool :=
  c = ' ' || c = '\n' || c = '\t' || c = '\r'

/-- Without the blanks at the front. -/
def skipBlanks : Source → Source
  | some c :: rest => if isBlank c then skipBlanks rest else some c :: rest
  | source => source

/-- The number of bytes the source was spelled with. -/
def byteSize : Source → Nat
  | [] => 0
  | some c :: rest => c.utf8Size + byteSize rest
  | none :: rest => 1 + byteSize rest

/-- Reads the given characters. -/
def expect : List Char → Source → Except Error Source
  | [], source => .ok source
  | _ :: _, [] => .error .truncated
  | c :: word, next :: rest => if next = some c then expect word rest else .error .malformed

/-- The digits at the front, by value, and what follows them. -/
def takeDigits : Source → List Nat × Source
  | some c :: rest =>
    if c.isDigit then
      let (digits, rest) := takeDigits rest
      ((c.toNat - '0'.toNat) :: digits, rest)
    else ([], some c :: rest)
  | source => ([], source)

end Source

/-- A place where reading ends early, with what is reported there by a reader
that keeps the value and by one that skips it. -/
structure Flaw where
  kept : Error
  skipped : Error
  deriving DecidableEq

namespace Flaw

/-- Reported alike by every reader. -/
def always (error : Error) : Flaw :=
  ⟨error, error⟩

end Flaw

end Json
end SaveTree
