import SaveTree.Json.Source
import SaveTree.Text.Hex

namespace SaveTree
namespace Json
namespace Quoted

/-!
# Strings

Between its quotes a string holds characters and escapes.  `pieces` finds the
closing quote and takes the string into pieces; this is all that a reader needs
who skips the string.  Who keeps it also has to join the pieces to characters:
two escaped 16-bit units may form one character, and a unit alone or a byte
without character spells nothing.
-/

/-- A piece of a string. -/
inductive Piece where
  | char (c : Char)
  /-- An escaped 16-bit unit. -/
  | unit (value : Nat)
  /-- A byte that belongs to no character. -/
  | stray
  deriving DecidableEq

/-- The character that stands behind a backslash, for the one-letter escapes. -/
def unescape? : Char → Option Char
  | '"' => some '"'
  | '\\' => some '\\'
  | '/' => some '/'
  | 'b' => some '\x08'
  | 'f' => some '\x0c'
  | 'n' => some '\n'
  | 'r' => some '\r'
  | 't' => some '\t'
  | _ => none

/-- The unit that four hexadecimal digits spell. -/
def unit? (a b c d : Option Char) : Option Nat := do
  let a ← Hex.value? (← a)
  let b ← Hex.value? (← b)
  let c ← Hex.value? (← c)
  let d ← Hex.value? (← d)
  some (((a * 16 + b) * 16 + c) * 16 + d)

/-- Adds a piece at the front. -/
def push (piece : Piece) (read : List Piece × Except Error Source) :
    List Piece × Except Error Source :=
  (piece :: read.1, read.2)

/-- The pieces up to the closing quote, and what follows it or why there is
none. -/
def pieces : Source → List Piece × Except Error Source
  | [] => ([], .error .truncated)
  | none :: rest => push .stray (pieces rest)
  | some c :: rest =>
    if c = '"' then ([], .ok rest)
    else if c = '\\' then
      match rest with
      | [] => ([], .error .truncated)
      | none :: _ => ([], .error .malformed)
      | some letter :: rest =>
        if letter = 'u' then
          match rest with
          | a :: b :: c :: d :: rest =>
            match unit? a b c d with
            | some value => push (.unit value) (pieces rest)
            | none => ([], .error .malformed)
          | short =>
            ([], .error (if Source.byteSize short < 4 then .truncated else .malformed))
        else
          match unescape? letter with
          | some c => push (.char c) (pieces rest)
          | none => ([], .error .malformed)
    else if c.toNat < 0x20 then ([], .error .malformed)
    else push (.char c) (pieces rest)

/-- A unit that can only open a pair. -/
def isLeading (value : Nat) : Bool :=
  0xD800 ≤ value && value < 0xDC00

/-- A unit that can only close a pair. -/
def isTrailing (value : Nat) : Bool :=
  0xDC00 ≤ value && value < 0xE000

/-- The characters that the pieces spell.  `ending` is the problem behind the
last piece, or `none` at a closing quote.  A byte without character is noticed
last, when all else is well. -/
def characters (ending : Option Error) : List Piece → Except Error (List Char)
  | [] =>
    match ending with
    | none => .ok []
    | some error => .error error
  | .char c :: rest => return c :: (← characters ending rest)
  | .stray :: rest => do
    let _ ← characters ending rest
    .error .malformed
  | .unit value :: rest =>
    if isTrailing value then .error .malformed
    else if isLeading value then
      match rest with
      | .unit second :: rest =>
        if isTrailing second then do
          let c := Char.ofNat (0x10000 + (value - 0xD800) * 0x400 + (second - 0xDC00))
          return c :: (← characters ending rest)
        else .error .malformed
      | [] => .error (ending.getD .malformed)
      | _ => .error .malformed
    else return Char.ofNat value :: (← characters ending rest)

/-- Reads a string whose opening quote has been read.  It ends at a closing
quote, and then its text may still be no text to keep; or it ends in a flaw. -/
def read (source : Source) : Except Flaw (Except Error String × Source) :=
  match pieces source with
  | (found, .ok rest) => .ok ((characters none found).map String.ofList, rest)
  | (found, .error error) =>
    match characters (some error) found with
    | .error kept => .error ⟨kept, error⟩
    | .ok _ => .error (.always error)

/-- The escape of a character, where it has a short one. -/
def escape? : Char → Option Char
  | '"' => some '"'
  | '\\' => some '\\'
  | '\x08' => some 'b'
  | '\x0c' => some 'f'
  | '\n' => some 'n'
  | '\r' => some 'r'
  | '\t' => some 't'
  | _ => none

/-- A character as it stands inside a string: only quotes, backslashes and
control characters are escaped. -/
def spell (c : Char) : List Char :=
  match escape? c with
  | some letter => ['\\', letter]
  | none =>
    if c.toNat < 0x20 then
      ['\\', 'u', '0', '0', Hex.digit (c.toNat / 16), Hex.digit (c.toNat % 16)]
    else [c]

/-- The text of a string, with its quotes. -/
def text (content : String) : List Char :=
  '"' :: content.toList.flatMap spell ++ ['"']

end Quoted
end Json
end SaveTree
