import SaveTree.Native.Tree
import SaveTree.Store.Durable
import SaveTree.Virtual.Tree

namespace SaveTree

/-!
# File systems

A file system is a save tree that is open: in a store or in a directory of the
host.  Code that performs operations need not know which.
-/

/-- A save tree that is open. -/
inductive FileSystem where
  /-- A tree in a store. -/
  | stored (backend : Backend)
  /-- A tree below a directory of the host. -/
  | native (root : String)

namespace FileSystem

/-- Computations that use a file system and the host. -/
abbrev Using := StateT FileSystem Host.Program

/-- Opens the store that the settings choose. -/
def openChoice (choice : StoreChoice) : ExceptT FsError Host.Program FileSystem :=
  return stored (← Backend.openChoice choice)

/-- Performs an operation. -/
def perform (operation : Operation) : Using (Except FsError Answer) := do
  match ← get with
  | stored backend =>
    let (result, backend) ← (Backend.run (Virtual.perform operation)).run backend
    set (stored backend)
    return result
  | native root => (Native.perform root operation).run

/-- Reads a file as JSON. -/
def readJson {α : Type} (parse : String → Except Json.Error α) (path : String) :
    Using (Except FsError α) := do
  match ← perform (.readText path) with
  | .ok (.text text) => return (parse text).mapError .json
  | .ok _ => return .error (.fileNotFound path)
  | .error error => return .error error

/-- Writes a value as JSON. -/
def writeJson (path : String) (value : Json.Value) : Using (Except FsError Unit) := do
  return (← perform (.writeJson path value)).map fun _ => ()

end FileSystem

end SaveTree
