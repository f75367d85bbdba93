import SaveTree.Error
import SaveTree.Json.Draft
import SaveTree.Path.Basic

namespace SaveTree

/-!
# File operations

The ten operations on a save tree and what they return.  The same operations
work on a tree in a store and on a tree in a directory of the host.
-/

/-- One place in a directory listing.  A directory's children are given in a
recursive listing. -/
inductive Listed where
  | mk (path name : String) (kind : Kind) (children : Option (List Listed))

namespace Listed

open Json

def path : Listed → String
  | mk path _ _ _ => path

def name : Listed → String
  | mk _ name _ _ => name

def kind : Listed → Kind
  | mk _ _ kind _ => kind

def children : Listed → Option (List Listed)
  | mk _ _ _ children => children

/-- What is said of every place. -/
def members (path name : String) (kind : Kind) : List (String × Value) := [
  ("path", .string path),
  ("name", .string name),
  ("isFile", .bool (kind = .file)),
  ("isDirectory", .bool (kind = .directory))]

mutual

/-- A listed place as JSON. -/
def toValue : Listed → Value
  | mk path name kind none => .object (members path name kind)
  | mk path name kind (some children) =>
    .object (members path name kind ++ [("children", .array (toValues children))])
termination_by structural listed => listed

/-- Listed places as JSON. -/
def toValues : List Listed → List Value
  | [] => []
  | listed :: rest => listed.toValue :: toValues rest
termination_by structural all => all

end

end Listed

/-- An operation on a save tree. -/
inductive Operation where
  | writeText (path text : String)
  | write (path : String) (bytes : ByteArray)
  | readText (path : String)
  | read (path : String)
  | find (path : String)
  | makeDirectory (path : String) (recursive : Bool)
  | list (path : String) (recursive : Bool)
  | remove (path : String) (recursive : Bool)
  | copy (source target : String)
  | rename (source target : String)

/-- What an operation returns. -/
inductive Answer where
  | done
  | text (value : String)
  | bytes (value : ByteArray)
  | found (value : Bool)
  | listing (value : List Listed)

namespace Operation

/-- Writes a value as an indented JSON text. -/
def writeJson (path : String) (value : Json.Value) : Operation :=
  writeText path value.pretty

end Operation

end SaveTree
