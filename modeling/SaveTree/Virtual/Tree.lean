import SaveTree.Key
import SaveTree.Store.Call
import SaveTree.Virtual.Listing

namespace SaveTree
namespace Virtual

/-!
# A save tree in a store

The operations of a save tree as sessions with a store.  A directory is an entry
like a file, and an operation that puts something below a directory first walks
down to it and puts the directories that are missing.  Nothing is locked between
the calls of one operation.
-/

/-- Makes sure that every place from the root down to `key` is a directory. -/
def ensureDirectories (key : String) : Session Unit :=
  (Key.chain key).forM fun place => do
    match ← Session.get place with
    | some (.file _) => throw (.notADirectory place)
    | some .directory => pure ()
    | none => Session.put ⟨place, .directory⟩

/-- Puts a file at `key`, with the directories above it. -/
def putFile (key : String) (content : Content) : Session Unit := do
  ensureDirectories (Key.parent key)
  match ← Session.get key with
  | some .directory => throw (.conflict key)
  | _ => Session.put ⟨key, .file content⟩

/-- What the file at `key` holds. -/
def contentAt (key : String) : Session Content := do
  match ← Session.get key with
  | some (.file content) => return content
  | _ => throw (.fileNotFound key)

/-- Every entry strictly below `key`. -/
def descendants (key : String) : Session (List Entry) := do
  return (← Session.list).filter fun entry => Key.isBelow key entry.path

/-- Writes a file. -/
def writeFile (path : String) (content : Content) : Session Unit := do
  let key ← Key.require path
  putFile key content

/-- Reads a file as text. -/
def readText (path : String) : Session String := do
  let key ← Key.require path
  match (← contentAt key).toText? with
  | some text => return text
  | none => throw (.invalidUtf8 key)

/-- Reads a file as bytes. -/
def readBytes (path : String) : Session ByteArray := do
  let key ← Key.require path
  return (← contentAt key).toBytes

/-- Whether something is stored under a path.  The root always is. -/
def find (path : String) : Session Bool := do
  let key := Key.ofPath path
  if key = "" then return true
  return (← Session.get key).isSome

/-- Makes a directory.  Without `recursive` its parent must be there. -/
def makeDirectory (path : String) (recursive : Bool) : Session Unit := do
  let key ← Key.require path
  let parent := Key.parent key
  if !recursive then
    unless ← find parent do throw (.parentMissing parent)
  match ← Session.get key with
  | some (.file _) => throw (.conflict key)
  | _ => ensureDirectories key

/-- The listing of the directory at `key`, whether it is stored or not. -/
def listingAt (key : String) (recursive : Bool) : Session (List Listed) := do
  match listing key (← Session.list) recursive with
  | some listed => return listed
  | none => throw .endless

/-- Lists a directory.  A file has no children. -/
def list (path : String) (recursive : Bool) : Session (List Listed) := do
  let key := Key.ofPath path
  if key ≠ "" then
    if (← Session.get key).isNone then throw (.directoryNotFound key)
  listingAt key recursive

/-- Removes all entries. -/
def removeAll : Session Unit := do
  Session.deleteMany ((← Session.list).map Entry.path)

/-- Removes a file, or with `recursive` a directory and all below it.  A missing
path is no failure. -/
def remove (path : String) (recursive : Bool) : Session Unit := do
  if Key.ofPath path = "" then
    if !recursive then throw .rootRemoval
    removeAll
  else
    let key ← Key.require path
    let node? ← Session.get key
    let below ← descendants key
    if node?.isNone ∧ below.isEmpty then return
    if (node? = some .directory ∨ !below.isEmpty) ∧ !recursive then
      throw (.directoryNotEmpty key)
    Session.deleteMany (below.map Entry.path ++ if node?.isSome then [key] else [])

/-- Copies a file. -/
def copy (source target : String) : Session Unit := do
  let source ← Key.require source
  let target ← Key.require target
  let content ← contentAt source
  putFile target content

/-- Moves the directory at `source` with all below it to `target`, which must be
free or an empty directory. -/
def renameDirectory (source target : String) : Session Unit := do
  if Key.isBelow source target then throw (.moveIntoItself source)
  let occupied ← descendants target
  match ← Session.get target with
  | some (.file _) => throw (.conflict target)
  | _ => if !occupied.isEmpty then throw (.destinationNotEmpty target)
  ensureDirectories (Key.parent target)
  let below ← descendants source
  Session.putMany
    (⟨target, .directory⟩ ::
      below.map fun entry => ⟨Key.rebase source target entry.path, entry.node⟩)
  Session.deleteMany (below.map Entry.path ++ [source])

/-- Moves a file or a directory.  A file is copied and then deleted. -/
def rename (source target : String) : Session Unit := do
  let source ← Key.require source
  let target ← Key.require target
  match ← Session.get source with
  | none => throw (.fileNotFound source)
  | some node =>
    if source = target then return
    match node with
    | .directory => renameDirectory source target
    | .file _ => do
      copy source target
      Session.delete source

/-- Performs an operation. -/
def perform : Operation → Session Answer
  | .writeText path text => do
    writeFile path (.text text)
    return .done
  | .write path bytes => do
    writeFile path (.bytes bytes)
    return .done
  | .readText path => return .text (← readText path)
  | .read path => return .bytes (← readBytes path)
  | .find path => return .found (← find path)
  | .makeDirectory path recursive => do
    makeDirectory path recursive
    return .done
  | .list path recursive => return .listing (← list path recursive)
  | .remove path recursive => do
    remove path recursive
    return .done
  | .copy source target => do
    copy source target
    return .done
  | .rename source target => do
    rename source target
    return .done

end Virtual
end SaveTree
