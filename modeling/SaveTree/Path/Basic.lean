namespace SaveTree
namespace Path

/-!
# Slash paths

A path is a text of segments between slashes.  `normalize` reads it as a walk:
empty segments and `.` stay, `..` undoes the step before it, and every other
segment goes one name deeper.  A walk that starts at a slash cannot climb above
its start.  A relative one can, and then keeps its leading `..` segments.

`join` and `resolve` combine several texts and normalize the result.  The
remaining functions take one text apart from its right end; they look at plain
slashes only and do not normalize.

Every function is given on lists of characters first, and the version on
strings is that function between `String.toList` and `String.ofList`.
-/

/-- Stands between the segments of a path. -/
def separator : Char := '/'

/-- Stands between the paths of a list of paths. -/
def delimiter : Char := ':'

/-- Reads a backslash as a slash. -/
def slashed (path : List Char) : List Char :=
  path.map fun c => if c = '\\' then '/' else c

/-- A path that begins at the root. -/
def startsAtRoot (path : List Char) : Bool :=
  path.head? = some '/'

/-- One segment of the walk.  The stack holds the names passed so far, the
deepest one first. -/
def visit (absolute : Bool) (stack : List (List Char)) (segment : List Char) :
    List (List Char) :=
  if segment = [] ∨ segment = ['.'] then stack
  else if segment = ['.', '.'] then
    match stack with
    | [] => if absolute then [] else [segment]
    | top :: below =>
      if top ≠ ['.', '.'] then below else if absolute then stack else segment :: stack
  else segment :: stack

/-- The names left after walking all segments, outermost first. -/
def names (absolute : Bool) (segments : List (List Char)) : List (List Char) :=
  (segments.foldl (visit absolute) []).reverse

/-- The text of a walk's names.  No names are the root or the place itself. -/
def spell (absolute : Bool) (names : List (List Char)) : List Char :=
  let body := ['/'].intercalate names
  if absolute then '/' :: body else if body = [] then ['.'] else body

/-- `normalize` on characters. -/
def normal (path : List Char) : List Char :=
  let path := slashed path
  let absolute := startsAtRoot path
  spell absolute (names absolute (path.splitOn '/'))

/-- The shortest text of the same walk: no empty segment, no `.`, and `..` only
at the start of a relative path. -/
def normalize (path : String) : String :=
  String.ofList (normal path.toList)

/-- Puts a slash between the segments and normalizes. -/
def join (segments : List String) : String :=
  String.ofList (normal (['/'].intercalate (segments.map String.toList)))

/-- The segments from the rightmost absolute one on, or all of them if none is
absolute. -/
def fromBase : List (List Char) → List (List Char)
  | [] => []
  | segment :: rest => if rest.any startsAtRoot then fromBase rest else segment :: rest

/-- Joins the segments from the rightmost absolute one on. -/
def resolve (segments : List String) : String :=
  let parts := fromBase (segments.map fun segment => slashed segment.toList)
  String.ofList (normal (['/'].intercalate parts))

/-- Begins with a slash. -/
def isAbsolute (path : String) : Bool :=
  startsAtRoot path.toList

/-- Without the slashes at the end. -/
def dropTrailing (path : List Char) : List Char :=
  (path.reverse.dropWhile (· = '/')).reverse

/-- Without the slashes at both ends. -/
def dropAround (path : List Char) : List Char :=
  dropTrailing (path.dropWhile (· = '/'))

/-- The characters after the last slash, once trailing slashes are gone. -/
def lastName (path : List Char) : List Char :=
  ((dropTrailing path).reverse.takeWhile (· ≠ '/')).reverse

/-- Takes an ending off a name that has it. -/
def withoutEnding (ending name : List Char) : List Char :=
  if ending.isSuffixOf name then name.take (name.length - ending.length) else name

/-- The last name of a path, without `ending` if it is given and present. -/
def basename (path : String) (ending : Option String) : String :=
  let name := lastName path.toList
  String.ofList <|
    match ending with
    | none => name
    | some ending => withoutEnding ending.toList name

/-- What stands before the last occurrence of `mark`, and what stands after it. -/
def splitLast (mark : Char) (text : List Char) : Option (List Char × List Char) :=
  match text.reverse.dropWhile (· ≠ mark) with
  | [] => none
  | _ :: before => some (before.reverse, (text.reverse.takeWhile (· ≠ mark)).reverse)

/-- What stands before the last name, or the root if nothing does. -/
def dirname (path : String) : String :=
  match splitLast '/' (dropTrailing path.toList) with
  | some (c :: before, _) => String.ofList (c :: before)
  | _ => "/"

/-- The last name from its last dot on.  A dot that begins the name starts no
extension. -/
def extname (path : String) : String :=
  match splitLast '.' (lastName path.toList) with
  | some (_ :: _, after) => String.ofList ('.' :: after)
  | _ => ""

end Path

/-- What a path can lead to. -/
inductive Kind where
  | file
  | directory
  deriving DecidableEq

end SaveTree
