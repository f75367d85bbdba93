import SaveTree.Error
import SaveTree.Path.Basic

namespace SaveTree
namespace Key

/-!
# Keys

A key names a place in a save tree.  It is the normal form of a path without
slashes at its ends, and the empty key is the root.  `require` admits the paths
that stay inside the tree and name something other than its root.

Keys are plain strings, because a store can hold records under any string.  The
functions below read a key as names between slashes.
-/

/-- The key a path names.  A path that climbs above the root keeps its `..`. -/
def ofPath (path : String) : String :=
  let trimmed := Path.dropAround (Path.normal path.toList)
  if trimmed = ['.'] then "" else String.ofList trimmed

/-- Names a place above the root. -/
def climbs (key : String) : Bool :=
  key = ".." || "../".toList.isPrefixOf key.toList

/-- The key of a path below the root. -/
def require (path : String) : Except FsError String :=
  let key := ofPath path
  if key = "" then .error .emptyPath
  else if climbs key then .error (.invalidPath path)
  else .ok key

/-- The key one name shorter, or the root. -/
def parent (key : String) : String :=
  match Path.splitLast '/' key.toList with
  | some (before, _) => String.ofList before
  | none => ""

/-- The names of a key, outermost first.  The root has none. -/
def segments (key : String) : List (List Char) :=
  if key = "" then [] else key.toList.splitOn '/'

/-- The non-empty beginnings of a list, shortest first. -/
def beginnings {α : Type} : List α → List (List α)
  | [] => []
  | a :: rest => [a] :: (beginnings rest).map (a :: ·)

/-- The key's ancestors below the root and the key itself, shallowest first. -/
def chain (key : String) : List String :=
  (beginnings (segments key)).map fun names => String.ofList (['/'].intercalate names)

/-- What keys strictly below `key` begin with.  Everything is below the root. -/
def stem (key : String) : List Char :=
  if key = "" then [] else key.toList ++ ['/']

/-- `other` continues `key` after a slash. -/
def isBelow (key other : String) : Bool :=
  (key.toList ++ ['/']).isPrefixOf other.toList

/-- The key below `target` that stands where `key` stands below `source`. -/
def rebase (source target key : String) : String :=
  String.ofList (target.toList ++ key.toList.drop source.toList.length)

end Key
end SaveTree
