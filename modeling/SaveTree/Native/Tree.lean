import SaveTree.Host.Call
import SaveTree.Host.Location
import SaveTree.Key
import SaveTree.Operation

namespace SaveTree
namespace Native

/-!
# A save tree in a directory of the host

The operations of a save tree as programs over calls on the host.  Keys are
paths below the root directory.  Before an operation changes anything it looks
at what is there, so that most refusals are the same as those of a tree in a
store; what the host itself refuses is passed on.
-/

/-- A program on the host that can fail in the ways of file operations. -/
abbrev Act (α : Type) := ExceptT FsError Host.Program α

/-- Passes a failure of the host on. -/
def onHost {α : Type} (action : Host.Action α) : Act α :=
  Host.orFail .host action

/-- The host path of a key below the root. -/
def hostPath (root key : String) : String :=
  if key = "" then root else Host.Location.join root key

/-- What stands at a key. -/
def kind? (root key : String) : Act (Option Kind) :=
  onHost (Host.kind? (hostPath root key))

/-- Makes sure that every place from the root down to `key` is a directory. -/
def ensureDirectories (root key : String) : Act Unit :=
  (Key.chain key).forM fun place => do
    match ← kind? root place with
    | some .file => throw (.notADirectory place)
    | some .directory => pure ()
    | none => onHost (Host.makeDirectory (hostPath root place))

/-- Puts a file at `key`, with the directories above it. -/
def putFile (root key : String) (bytes : ByteArray) : Act Unit := do
  ensureDirectories root (Key.parent key)
  if (← kind? root key) = some .directory then throw (.conflict key)
  onHost (Host.write (hostPath root key) bytes)

/-- The bytes of the file at `key`. -/
def bytesAt (root key : String) : Act ByteArray := do
  if (← kind? root key) ≠ some .file then throw (.fileNotFound key)
  onHost (Host.read (hostPath root key))

/-- Writes a file. -/
def writeFile (root path : String) (bytes : ByteArray) : Act Unit := do
  let key ← Key.require path
  putFile root key bytes

/-- Reads a file as text. -/
def readText (root path : String) : Act String := do
  let key ← Key.require path
  match String.fromUTF8? (← bytesAt root key) with
  | some text => return text
  | none => throw (.invalidUtf8 key)

/-- Reads a file as bytes. -/
def readBytes (root path : String) : Act ByteArray := do
  let key ← Key.require path
  bytesAt root key

/-- Whether something stands at a path.  The root is taken to be there. -/
def find (root path : String) : Act Bool := do
  let key := Key.ofPath path
  if key = "" then return true
  return (← kind? root key).isSome

/-- Makes a directory.  Without `recursive` its parent must be there. -/
def makeDirectory (root path : String) (recursive : Bool) : Act Unit := do
  let key ← Key.require path
  let parent := Key.parent key
  if !recursive then
    unless ← find root parent do throw (.parentMissing parent)
  if (← kind? root key) = some .file then throw (.conflict key)
  ensureDirectories root key

/-- The listing of the directory at `key`, sorted by name.  `levels` bounds how
deep it goes. -/
def listLevels (root : String) (recursive : Bool) : Nat → String → Act (List Listed)
  | 0, _ => return []
  | levels + 1, key => do
    let found ← onHost (Host.list (hostPath root key))
    (found.mergeSort fun a b => a.1 ≤ b.1).mapM fun (name, kind) => do
      let path := if key = "" then name else key ++ "/" ++ name
      if recursive ∧ kind = .directory then
        return .mk path name kind (some (← listLevels root recursive levels path))
      else return .mk path name kind none

/-- The host refuses longer paths, so that no directory is deeper than this. -/
def deepest : Nat := 4096

/-- Lists a directory.  A file has no children, and neither has a root that is
not there. -/
def list (root path : String) (recursive : Bool) : Act (List Listed) := do
  let key := Key.ofPath path
  match ← kind? root key with
  | some .directory => listLevels root recursive deepest key
  | some .file => return []
  | none => if key = "" then return [] else throw (.directoryNotFound key)

/-- Empties the root, if it is a directory. -/
def removeAll (root : String) : Act Unit := do
  if (← kind? root "") = some .directory then
    for (name, kind) in ← onHost (Host.list root) do
      match kind with
      | .directory => onHost (Host.removeTree (Host.Location.join root name))
      | .file => onHost (Host.removeFile (Host.Location.join root name))

/-- Removes a file, or with `recursive` a directory and all below it.  A missing
path is no failure. -/
def remove (root path : String) (recursive : Bool) : Act Unit := do
  if Key.ofPath path = "" then
    if !recursive then throw .rootRemoval
    removeAll root
  else
    let key ← Key.require path
    match ← kind? root key with
    | none => pure ()
    | some .file => onHost (Host.removeFile (hostPath root key))
    | some .directory =>
      if !recursive then throw (.directoryNotEmpty key)
      onHost (Host.removeTree (hostPath root key))

/-- Copies a file. -/
def copy (root source target : String) : Act Unit := do
  let source ← Key.require source
  let target ← Key.require target
  let bytes ← bytesAt root source
  putFile root target bytes

/-- Moves a file or a directory.  The target must be free, a file for a file, or
an empty directory for a directory. -/
def rename (root source target : String) : Act Unit := do
  let source ← Key.require source
  let target ← Key.require target
  match ← kind? root source with
  | none => throw (.fileNotFound source)
  | some kind =>
    if source = target then return
    if Key.isBelow source target then throw (.moveIntoItself source)
    ensureDirectories root (Key.parent target)
    match ← kind? root target with
    | none => pure ()
    | some found =>
      if found ≠ kind then throw (.conflict target)
      if found = .directory then
        if (← onHost (Host.list (hostPath root target))) ≠ [] then
          throw (.destinationNotEmpty target)
    onHost (Host.rename (hostPath root source) (hostPath root target))

/-- Performs an operation on the tree below `root`. -/
def perform (root : String) : Operation → Act Answer
  | .writeText path text => do
    writeFile root path text.toUTF8
    return .done
  | .write path bytes => do
    writeFile root path bytes
    return .done
  | .readText path => return .text (← readText root path)
  | .read path => return .bytes (← readBytes root path)
  | .find path => return .found (← find root path)
  | .makeDirectory path recursive => do
    makeDirectory root path recursive
    return .done
  | .list path recursive => return .listing (← list root path recursive)
  | .remove path recursive => do
    remove root path recursive
    return .done
  | .copy source target => do
    copy root source target
    return .done
  | .rename source target => do
    rename root source target
    return .done

end Native
end SaveTree
