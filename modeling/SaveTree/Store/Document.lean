import SaveTree.Json.Record
import SaveTree.Store.Call

namespace SaveTree

/-!
# Store documents

A durable store is one JSON document: a version number and the entries, sorted
by path.  A document is read member by member; of entries with one path the last
counts.
-/

namespace Document

open Json

/-- The only version that is written and read. -/
def version : Nat := 1

/-- A catalog as JSON. -/
def toValue (catalog : Catalog) : Value :=
  .object [
    ("version", .nat version),
    ("entries", .array (catalog.sorted.map Entry.toValue))]

/-- The bytes of a catalog's document. -/
def encode (catalog : Catalog) : ByteArray :=
  (toValue catalog).compact.toUTF8

/-- A document of which some fields may still be missing. -/
structure Partial where
  version : Option Nat := none
  entries : Option (List Entry) := none

/-- The fields of a document. -/
def fields : List (Record.Field Partial) := [
  { name := "version"
    isSet := fun found => found.version.isSome
    read := fun draft found => do
      .ok { found with version := some (← draft.asNat UInt32.size) } },
  { name := "entries"
    isSet := fun found => found.entries.isSome
    read := fun draft found => do
      let entries ← draft.asList (Entry.ofDraft (Draft.nesting - 2))
      .ok { found with entries := some entries } }]

/-- Reads a document of any version.  The entries may be missing. -/
def ofDraft (draft : Draft) : Except Error (Nat × List Entry) := do
  let found ← Record.read fields {} draft
  match found.version with
  | some version => .ok (version, found.entries.getD [])
  | none => .error .mismatched

/-- Reads the catalog from the bytes of the document at `path`. -/
def decode (path : String) (bytes : ByteArray) : Except FsError Catalog :=
  match Json.parse ofDraft (.ofBytes bytes) with
  | .error error => .error (.corruptDocument path error)
  | .ok (found, entries) =>
    if found = version then .ok (.ofEntries entries)
    else .error (.unsupportedVersion path found)

end Document

end SaveTree
