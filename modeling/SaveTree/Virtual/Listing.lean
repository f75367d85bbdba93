import SaveTree.Entry
import SaveTree.Key
import SaveTree.Operation

namespace SaveTree
namespace Virtual

/-!
# Listings of a flat collection

A directory's children are read off the paths below it: the first name behind
the directory's own path is a child, and a path that goes on after it makes the
child a directory, whatever else is stored.  Every name is listed once, in the
order of names.  A recursive listing may never come to an end, and then there is
none.
-/

/-- The first name of a path below some directory, and whether more follows. -/
def firstName (relative : List Char) : String × Bool :=
  (String.ofList (relative.takeWhile (· ≠ '/')), relative.contains '/')

/-- The child that an entry shows below `stem`, if it shows one. -/
def child? (stem : List Char) (entry : Entry) : Option (String × Kind) :=
  if stem.isPrefixOf entry.path.toList then
    match entry.path.toList.drop stem.length with
    | [] => none
    | relative =>
      let (name, nested) := firstName relative
      some (name, if nested then .directory else entry.node.kind)
  else none

/-- Adds a child to children sorted by name.  A name that is there already
becomes a directory if it is one here. -/
def addChild (name : String) (kind : Kind) : List (String × Kind) → List (String × Kind)
  | [] => [(name, kind)]
  | (other, old) :: rest =>
    if name = other then (other, if kind = .directory then .directory else old) :: rest
    else if name < other then (name, kind) :: (other, old) :: rest
    else (other, old) :: addChild name kind rest

/-- The children that entries show below `stem`, sorted by name. -/
def childrenBelow (stem : List Char) (entries : List Entry) : List (String × Kind) :=
  (entries.filterMap (child? stem)).foldl (fun found child => addChild child.1 child.2 found) []

/-- The listing of the directory `base`, or nothing if it goes deeper than
`levels`. -/
def listLevels (entries : List Entry) (recursive : Bool) : Nat → String → Option (List Listed)
  | 0, _ => none
  | levels + 1, base =>
    (childrenBelow (Key.stem base) entries).mapM fun (name, kind) =>
      let path := String.ofList (Key.stem base ++ name.toList)
      if recursive ∧ kind = .directory then
        (listLevels entries recursive levels path).map fun children =>
          .mk path name kind (some children)
      else some (.mk path name kind none)

/-- The length of the longest path. -/
def longest (entries : List Entry) : Nat :=
  (entries.map fun entry => entry.path.length).foldl max 0

/-- The listing of the directory `base`, or nothing if it never comes to an end.
Each level has a longer path than the one above it, so that the longest path
bounds their number.  The root alone may list itself: a stored path that begins
with a slash shows a child there that has no name, and so the root's own path. -/
def listing (base : String) (entries : List Entry) (recursive : Bool) : Option (List Listed) :=
  listLevels entries recursive (longest entries + 2) base

end Virtual
end SaveTree
