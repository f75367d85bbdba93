import SaveTree.Entry
import SaveTree.Error
import SaveTree.Program
import SaveTree.Table

namespace SaveTree

/-!
# Stores and sessions

A store keeps entries by path, at most one for each.  It knows nothing of
directories: a tree is made of its entries by those who call it.  A session is a
program over the calls of a store.  It ends at the first call that fails.
-/

/-- What a store holds: nodes by path. -/
abbrev Catalog := Table String Node

namespace Catalog

/-- The entries, in no particular order. -/
def entries (catalog : Catalog) : List Entry :=
  catalog.rows.map fun row => ⟨row.1, row.2⟩

/-- Puts an entry in place of the one with its path. -/
def put (catalog : Catalog) (entry : Entry) : Catalog :=
  catalog.insert entry.path entry.node

/-- Puts entries one after the other. -/
def putAll (catalog : Catalog) (entries : List Entry) : Catalog :=
  entries.foldl put catalog

/-- Takes out the entries under the given paths. -/
def eraseAll (catalog : Catalog) (paths : List String) : Catalog :=
  paths.foldl Table.erase catalog

/-- A catalog of entries, where the last one with a path counts. -/
def ofEntries (entries : List Entry) : Catalog :=
  putAll .empty entries

/-- The entries sorted by path. -/
def sorted (catalog : Catalog) : List Entry :=
  catalog.entries.mergeSort fun a b => a.path ≤ b.path

end Catalog

namespace Store

/-- A call on a store. -/
inductive Call where
  | get (path : String)
  | list
  | put (entry : Entry)
  | delete (path : String)
  | putMany (entries : List Entry)
  | deleteMany (paths : List String)

/-- What a call that succeeds returns. -/
def Call.Answer : Call → Type
  | get _ => Option Node
  | list => List Entry
  | put _ | delete _ | putMany _ | deleteMany _ => Unit

/-- The calls of a store.  Each one may fail. -/
abbrev calls : Interface where
  Call := Call
  Reply := fun call => Except FsError call.Answer

end Store

/-- A program over the calls of a store that can fail. -/
abbrev Session (α : Type) := ExceptT FsError (Program Store.calls) α

namespace Session

/-- Makes one call, and fails if it does. -/
def call (request : Store.Call) : Session request.Answer :=
  ExceptT.mk (@Program.request Store.calls request)

/-- What is stored under a path. -/
def get (path : String) : Session (Option Node) :=
  call (.get path)

/-- All entries, in no particular order. -/
def list : Session (List Entry) :=
  call .list

/-- Stores an entry in place of the one with its path. -/
def put (entry : Entry) : Session Unit :=
  call (.put entry)

/-- Deletes the entry under a path, if there is one. -/
def delete (path : String) : Session Unit :=
  call (.delete path)

/-- Stores several entries. -/
def putMany (entries : List Entry) : Session Unit :=
  call (.putMany entries)

/-- Deletes several entries. -/
def deleteMany (paths : List String) : Session Unit :=
  call (.deleteMany paths)

end Session

namespace Store

/-- Changes of a catalog, one for each call that changes anything. -/
def Call.effect : Call → Catalog → Catalog
  | get _, catalog | list, catalog => catalog
  | put entry, catalog => catalog.put entry
  | delete path, catalog => catalog.erase path
  | putMany entries, catalog => catalog.putAll entries
  | deleteMany paths, catalog => catalog.eraseAll paths

/-- What a call returns when it is made on a catalog. -/
def Call.answer (catalog : Catalog) : (call : Call) → call.Answer
  | get path => catalog.get? path
  | list => catalog.entries
  | put _ | delete _ | putMany _ | deleteMany _ => ()

/-- A store in memory.  Its calls do not fail. -/
def memory (call : Call) : StateM Catalog (Except FsError call.Answer) := do
  let catalog ← get
  set (call.effect catalog)
  return .ok (call.answer catalog)

end Store

end SaveTree
