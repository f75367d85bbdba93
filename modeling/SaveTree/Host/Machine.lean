import SaveTree.Host.Disk
import SaveTree.Host.Location

namespace SaveTree
namespace Host

/-!
# A machine that answers host calls

A machine is a disk and the directory its programs start in.  A path is walked
from there, or from the root if it is absolute: `.` stays, `..` goes up, and a
name must be in the directory where the walk stands.  Calls that create or move
something walk to the directory first and then look at the last segment.

A text that is no path at all is refused before the walk, and a name that is too
long is refused when the walk comes to it.

The hosts meant have such a disk, and no limits but those on the lengths of paths
and names.  No one else uses the disk, and every single call is done as a whole:
one that fails has changed nothing, also a write or the removal of a tree.
-/

/-- A disk and the place where relative paths begin. -/
structure Machine where
  disk : Disk
  here : Place

namespace Machine

/-- The most bytes a name may have. -/
def nameLimit : Nat := 255

/-- Paths must have fewer bytes than this. -/
def pathLimit : Nat := 4096

/-- Refuses a path that is empty or too long. -/
def admitLength (path : String) : Except HostError Unit :=
  if path = "" then .error .notFound
  else if pathLimit ≤ path.utf8ByteSize then .error .nameTooLong
  else .ok ()

/-- Refuses a name that is too long. -/
def admitName (name : String) : Except HostError Unit :=
  if nameLimit < name.utf8ByteSize then .error .nameTooLong else .ok ()

/-- One segment of a walk. -/
def enter (disk : Disk) (place : Place) (segment : String) : Except HostError Place := do
  if disk.kind? place = some .file then throw .notADirectory
  if segment = "." then return place
  if segment = ".." then return place.dropLast
  admitName segment
  match disk.kind? (place ++ [segment]) with
  | some _ => return place ++ [segment]
  | none => throw .notFound

/-- Where the walk along a path begins. -/
def start (machine : Machine) (path : String) : Place :=
  if Location.isAbsolute path then [] else machine.here

/-- The place a path leads to, and what stands there.  A slash at the end asks
for a directory. -/
def locate (machine : Machine) (path : String) : Except HostError (Place × Kind) := do
  checkBytes path
  admitLength path
  let place ← (Location.segments path).foldlM (enter machine.disk) (machine.start path)
  match machine.disk.kind? place with
  | none => throw .notFound
  | some .file =>
    if Location.endsWithSlash path then throw .notADirectory
    return (place, .file)
  | some .directory => return (place, .directory)

/-- The directory in which a path's last segment is looked up, and that segment
if it is a name. -/
def locateParent (machine : Machine) (path : String) :
    Except HostError (Place × Option String) := do
  admitLength path
  let segments := Location.segments path
  let place ← segments.dropLast.foldlM (enter machine.disk) (machine.start path)
  match machine.disk.kind? place, segments.getLast? with
  | none, _ => throw .notFound
  | some .file, _ => throw .notADirectory
  | some .directory, none | some .directory, some "." | some .directory, some ".." =>
    return (place, none)
  | some .directory, some name => return (place, some name)

/-- Writes a file. -/
def write (machine : Machine) (path : String) (bytes : ByteArray) : Except HostError Machine := do
  checkBytes path
  match ← machine.locateParent path with
  | (_, none) => throw .isADirectory
  | (parent, some name) =>
    if Location.endsWithSlash path then throw .isADirectory
    admitName name
    let place := parent ++ [name]
    if machine.disk.kind? place = some .directory then throw .isADirectory
    return { machine with disk := machine.disk.putFile place bytes }

/-- Makes a directory. -/
def makeDirectory (machine : Machine) (path : String) : Except HostError Machine := do
  checkBytes path
  match ← machine.locateParent path with
  | (_, none) => throw .alreadyExists
  | (parent, some name) =>
    admitName name
    let place := parent ++ [name]
    if (machine.disk.kind? place).isSome then throw .alreadyExists
    return { machine with disk := machine.disk.makeDirectory place }

/-- Removes a file. -/
def removeFile (machine : Machine) (path : String) : Except HostError Machine := do
  match ← machine.locate path with
  | (_, .directory) => throw .isADirectory
  | (place, .file) => return { machine with disk := machine.disk.remove place }

/-- Removes a directory with all it holds. -/
def removeTree (machine : Machine) (path : String) : Except HostError Machine := do
  match ← machine.locate path with
  | (_, .file) => throw .notADirectory
  | (place, .directory) => return { machine with disk := machine.disk.remove place }

/-- Moves a file or directory.  A file takes the place of a file, and a directory
that of an empty directory. -/
def rename (machine : Machine) (source target : String) : Except HostError Machine := do
  checkBytes source
  checkBytes target
  let (sourceParent, sourceName?) ← machine.locateParent source
  let (targetParent, targetName?) ← machine.locateParent target
  let some sourceName := sourceName? | throw .busy
  let some targetName := targetName? | throw .busy
  admitName sourceName
  let old := sourceParent ++ [sourceName]
  let new := targetParent ++ [targetName]
  let some kind := machine.disk.kind? old | throw .notFound
  admitName targetName
  if kind = .file ∧ (Location.endsWithSlash source ∨ Location.endsWithSlash target) then
    throw .notADirectory
  if old.isPrefixOf targetParent then throw .invalidArgument
  if new.isPrefixOf sourceParent then throw .notEmpty
  if old = new then return machine
  match kind, machine.disk.kind? new with
  | .directory, some .file => throw .notADirectory
  | .file, some .directory => throw .isADirectory
  | .directory, some .directory =>
    if machine.disk.children new ≠ [] then throw .notEmpty
  | _, _ => pure ()
  return { machine with disk := machine.disk.move old new }

/-- Makes a change, if it can be made. -/
def change (result : Machine → Except HostError Machine) : StateM Machine (Except HostError Unit) := do
  match result (← get) with
  | .ok machine =>
    set machine
    return .ok ()
  | .error error => return .error error

/-- Answers a call. -/
def serve : (call : Call) → StateM Machine (Except HostError call.Answer)
  | .kind path => return ((← get).locate path).map Prod.snd
  | .read path => do
    let machine ← get
    return do
      let (place, _) ← machine.locate path
      match machine.disk.get? place with
      | some (.file bytes) => return bytes
      | _ => throw .isADirectory
  | .list path => do
    let machine ← get
    return do
      match ← machine.locate path with
      | (_, .file) => throw .notADirectory
      | (place, .directory) => return machine.disk.children place
  | .write path bytes => change (·.write path bytes)
  | .makeDirectory path => change (·.makeDirectory path)
  | .removeFile path => change (·.removeFile path)
  | .removeTree path => change (·.removeTree path)
  | .rename source target => change (·.rename source target)
  | .pause _ => return .ok ()

/-- Runs a program on a machine. -/
def run {α : Type} (machine : Machine) (program : Program α) : α × Machine :=
  (SaveTree.Program.run serve program : StateM Machine α).run machine

end Machine

end Host
end SaveTree
