import SaveTree.Json.Draft
import SaveTree.Path.Basic

namespace SaveTree

/-!
# Entries

A save tree is stored as a flat collection of entries.  An entry is a file or a
directory under a path.  A file remembers whether it was written as text or as
bytes, but can be read either way.

In JSON an entry is an object with its path, its kind and, for a file, its
content.  The content names its encoding: text stands as a string, bytes stand
as an array of numbers.
-/

/-- What a file holds, as it was written. -/
inductive Content where
  | text (value : String)
  | bytes (value : ByteArray)

namespace Content

instance : DecidableEq Content
  | text a, text b =>
    @decidable_of_decidable_of_iff (a = b) _ (instDecidableEqString a b)
      ⟨congrArg text, text.inj⟩
  | bytes a, bytes b =>
    @decidable_of_decidable_of_iff (a = b) _ (ByteArray.instDecidableEq a b)
      ⟨congrArg bytes, bytes.inj⟩
  | text _, bytes _ => isFalse nofun
  | bytes _, text _ => isFalse nofun

/-- The bytes of a file. -/
def toBytes : Content → ByteArray
  | text value => value.toUTF8
  | bytes value => value

/-- The text of a file, if its bytes spell one. -/
def toText? : Content → Option String
  | text value => some value
  | bytes value => String.fromUTF8? value

end Content

/-- What stands under a path. -/
inductive Node where
  | file (content : Content)
  | directory
  deriving DecidableEq

namespace Node

/-- Whether it is a file or a directory. -/
def kind : Node → Kind
  | file _ => .file
  | directory => .directory

/-- What the file holds; a directory holds nothing. -/
def content? : Node → Option Content
  | file content => some content
  | directory => none

end Node

/-- A stored record. -/
structure Entry where
  path : String
  node : Node
  deriving DecidableEq

open Json

namespace Content

/-- The content as JSON. -/
def toValue : Content → Value
  | text value => .object [("encoding", .string "text"), ("data", .string value)]
  | bytes value => .object [
      ("encoding", .string "bytes"),
      ("data", .array (value.toList.map fun byte => .nat byte.toNat))]

/-- How a file was written. -/
inductive Encoding where
  | text
  | bytes

/-- The encoding of a name. -/
def Encoding.ofName? : String → Option Encoding
  | "text" => some .text
  | "bytes" => some .bytes
  | _ => none

/-- The encoding that a member gives: by its name, which may also be the only
member of an object with nothing in it. -/
def Encoding.ofMember? : Value → Option Encoding
  | .string name => ofName? name
  | .object [(name, .null)] => ofName? name
  | .object [(name, .object [])] => ofName? name
  | _ => none

/-- The encoding that an item gives: by its name or by its number. -/
def Encoding.ofItem? : Value → Option Encoding
  | .string name => ofName? name
  | .number (.int 0) => some .text
  | .number (.int 1) => some .bytes
  | _ => none

/-- A byte. -/
def byte? : Value → Option UInt8
  | .number value => (value.below? 256).map UInt8.ofNat
  | _ => none

/-- Content with the given encoding and data. -/
def ofParts : Option Encoding → Value → Except Error Content
  | some .text, .string value => .ok (text value)
  | some .bytes, .array items =>
    match items.mapM byte? with
    | some found => .ok (bytes found.toByteArray)
    | none => .error .mismatched
  | _, _ => .error .mismatched

/-- Reads content.  It may also be an array of its encoding and its data. -/
def ofValue : Value → Except Error Content
  | .array [encoding, data] => ofParts (Encoding.ofItem? encoding) data
  | .object members =>
    match Value.only? "encoding" members, Value.only? "data" members with
    | some encoding, some data => ofParts (Encoding.ofMember? encoding) data
    | _, _ => .error .mismatched
  | _ => .error .mismatched

end Content

namespace Node

/-- The members of an entry that tell what it is. -/
def toMembers : Node → List (String × Value)
  | file content => [("kind", .string "file"), ("content", content.toValue)]
  | directory => [("kind", .string "dir")]

/-- The kind that a value gives, by its name or by its number. -/
def kind? : Value → Option Kind
  | .string "file" => some .file
  | .string "dir" => some .directory
  | .number (.int 0) => some .file
  | .number (.int 1) => some .directory
  | _ => none

/-- Finds out what an entry is from its members.  A directory may have any other
members. -/
def ofMembers (members : List (String × Value)) : Except Error Node :=
  match (Value.only? "kind" members).bind kind? with
  | some .directory => .ok directory
  | some .file =>
    match Value.only? "content" members with
    | some content => return file (← Content.ofValue content)
    | none => .error .mismatched
  | none => .error .mismatched

end Node

namespace Entry

/-- The entry as JSON. -/
def toValue (entry : Entry) : Value :=
  .object (("path", .string entry.path) :: entry.node.toMembers)

/-- The entry's text in one line. -/
def text (entry : Entry) : String :=
  entry.toValue.compact

/-- Reads the members of an entry: its path, and all the others. -/
def ofMembers (room : Nat) :
    Members → Option String → Except Error (Option String × List (String × Value))
  | .done, path => .ok (path, [])
  | .broken flaw, _ => .error flaw.kept
  | .cons key value rest, path => do
    let key ← key
    if key = "path" then
      if path.isSome then .error .mismatched
      else ofMembers room rest (some (← value.asString))
    else do
      let value ← value.keep room
      let (path, others) ← ofMembers room rest path
      .ok (path, (key, value) :: others)

/-- Reads an entry that may nest `room` deep. -/
def ofDraft (room : Nat) : Draft → Except Error Entry
  | .object members => do
    match ← ofMembers (room - 1) members none with
    | (some path, others) => return ⟨path, ← Node.ofMembers others⟩
    | (none, _) => .error .mismatched
  | draft => .error draft.refusal

/-- Reads an entry from its text. -/
def parse (text : String) : Except Error Entry :=
  Json.parse (ofDraft Draft.nesting) (.ofString text)

end Entry

end SaveTree
