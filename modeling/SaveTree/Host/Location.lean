namespace SaveTree
namespace Host
namespace Location

/-!
# Host paths as texts

What can be said about a host path without looking at the disk: the path of the
directory it stands in, its last name, and paths beside or below it.

A segment that is empty or a `.` is idle: it leads nowhere.  The other segments
are steps, and so is the `.` that a relative path begins with.  A path above
another one is a beginning of its text.  It ends with a step, and the idle
segments before that step stay as they are written.
-/

/-- Begins at the root of the disk. -/
def isAbsolute (path : String) : Bool :=
  path.toList.head? = some '/'

/-- Ends with a slash. -/
def endsWithSlash (path : String) : Bool :=
  path.toList.getLast? = some '/'

/-- The segments between slashes, without the empty ones. -/
def segments (path : String) : List String :=
  ((path.toList.splitOn '/').filter (· ≠ [])).map String.ofList

/-- The segment leads nowhere. -/
def isIdle (segment : String) : Bool :=
  segment = "" || segment = "."

/-- Where a path begins. -/
inductive Origin where
  /-- At the root of the disk. -/
  | root
  /-- At a `.` that stands for the current directory. -/
  | dot
  /-- In the current directory, which is not mentioned. -/
  | unnamed

/-- The text of an origin. -/
def Origin.text : Origin → String
  | root => "/"
  | dot => "."
  | unnamed => ""

/-- A path cut into its origin and the segments behind it, last one first. -/
structure Cut where
  origin : Origin
  backwards : List String

namespace Cut

/-- Cuts what stands behind an origin. -/
def behind (origin : Origin) (body : List Char) : Cut :=
  ⟨origin, ((body.splitOn '/').map String.ofList).reverse⟩

/-- Cuts a path. -/
def ofPath (path : String) : Cut :=
  match path.toList with
  | '/' :: body => behind .root body
  | ['.'] => behind .dot []
  | '.' :: '/' :: body => behind .dot ('/' :: body)
  | body => behind .unnamed body

/-- The path that was cut. -/
def text (cut : Cut) : String :=
  cut.origin.text ++ String.intercalate "/" cut.backwards.reverse

/-- The cut without idle segments at its end. -/
def trim (cut : Cut) : Cut :=
  { cut with backwards := cut.backwards.dropWhile isIdle }

end Cut

/-- A path below another one. -/
def join (base relative : String) : String :=
  if base = "" ∨ endsWithSlash base then base ++ relative else base ++ "/" ++ relative

/-- The path with its last step taken off, if it has one. -/
def parent? (path : String) : Option String :=
  match (Cut.ofPath path).trim with
  | ⟨origin, _ :: rest⟩ => some (Cut.trim ⟨origin, rest⟩).text
  | ⟨.dot, []⟩ => some ""
  | ⟨_, []⟩ => none

/-- The last step, if it is a name. -/
def fileName? (path : String) : Option String :=
  match (Cut.ofPath path).trim.backwards.head? with
  | some ".." => none
  | last => last

/-- The path with its last name replaced. -/
def withFileName (path name : String) : String :=
  match fileName? path, parent? path with
  | some _, some parent => join parent name
  | _, _ => join path name

/-- The paths that end with a step behind an origin, longest first, and the
origin itself unless it is unnamed. -/
def stepwise (origin : Origin) : List String → List String
  | [] => if origin.text = "" then [] else [origin.text]
  | segment :: rest =>
    if isIdle segment then stepwise origin rest
    else (Cut.mk origin (segment :: rest)).text :: stepwise origin rest

/-- The paths above a path, longest first.  The empty path is left out. -/
def above (path : String) : List String :=
  match (Cut.ofPath path).trim with
  | ⟨origin, _ :: rest⟩ => stepwise origin rest
  | ⟨_, []⟩ => []

end Location
end Host
end SaveTree
