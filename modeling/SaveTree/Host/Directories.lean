import SaveTree.Host.Call
import SaveTree.Host.Location

namespace SaveTree
namespace Host

/-!
# Directories with their parents

Creating a directory together with all that are missing above it.  It is tried
first, and only if it cannot be created for want of a parent are the parents
created.  A directory that is already there is no failure.
-/

/-- A path leads to a directory. -/
def isDirectory (path : String) : Action Bool := do
  try return (← kind? path) = some .directory
  catch _ => return false

/-- Creates a directory, or finds it there. -/
def createOrFind (path : String) : Action Unit := do
  try makeDirectory path
  catch error =>
    unless ← isDirectory path do throw error

/-- Creates the first of the given paths.  The rest are the paths above it. -/
def createUpwards : List String → Action Unit
  | [] => pure ()
  | path :: above => do
    try makeDirectory path
    catch
      | .notFound => do
        createUpwards above
        createOrFind path
      | error => unless ← isDirectory path do throw error

/-- Creates a directory with its parents.  The empty path needs none. -/
def createDirectories (path : String) : Action Unit :=
  if path = "" then pure () else createUpwards (path :: Location.above path)

end Host
end SaveTree
