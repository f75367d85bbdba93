import SaveTree.Host.Error
import SaveTree.Json.Error

namespace SaveTree

/-!
# Failures of file operations

One type for every reason an operation on a save tree can fail, whether the
tree lives in a store or in a directory of the host.  An operation that never
comes to an end has its place among them, since it gives no answer either.
-/

/-- Why an operation gave no answer.  The text is the path or key concerned. -/
inductive FsError where
  | emptyPath
  | invalidPath (path : String)
  | moveIntoItself (key : String)
  | fileNotFound (key : String)
  | directoryNotFound (key : String)
  | conflict (key : String)
  | notADirectory (key : String)
  | parentMissing (key : String)
  | directoryNotEmpty (key : String)
  | destinationNotEmpty (key : String)
  | rootRemoval
  | storeUnavailable (document : String) (cause : HostError)
  | corruptDocument (document : String) (cause : Json.Error)
  | unsupportedVersion (document : String) (version : Nat)
  | invalidUtf8 (key : String)
  | host (cause : HostError)
  | json (cause : Json.Error)
  /-- The operation never comes to an end.  Whoever asked for it gets to see
  nothing, and what was to be done after it is not done. -/
  | endless
  deriving DecidableEq

namespace FsError

/-- What the failure is about: a path, a key, or a sentence that names one. -/
def subject : FsError → String
  | emptyPath | rootRemoval | endless => ""
  | moveIntoItself key => "cannot move \"" ++ key ++ "\" into itself"
  | storeUnavailable document cause => document ++ ": " ++ cause.message
  | corruptDocument document cause => document ++ ": corrupt document: " ++ cause.message
  | unsupportedVersion document version =>
    document ++ ": unsupported document version " ++ Nat.repr version
  | host cause => cause.message
  | json cause => cause.message
  | invalidPath text | fileNotFound text | directoryNotFound text | conflict text
  | notADirectory text | parentMissing text | directoryNotEmpty text
  | destinationNotEmpty text | invalidUtf8 text => text

/-- The failure as a sentence for the user. -/
def message (error : FsError) : String :=
  match error with
  | emptyPath => "Path cannot be empty"
  | rootRemoval => "Removing root requires recursive"
  | invalidPath _ | moveIntoItself _ => "Invalid path: " ++ error.subject
  | fileNotFound _ => "File not found: " ++ error.subject
  | directoryNotFound _ => "Directory not found: " ++ error.subject
  | conflict _ => "Path already exists with a different kind: " ++ error.subject
  | notADirectory _ => "\"" ++ error.subject ++ "\" is a file, expected directory"
  | parentMissing _ => "Parent directory does not exist: " ++ error.subject
  | directoryNotEmpty _ =>
    "\"" ++ error.subject ++ "\" is not empty. Pass recursive to remove it"
  | destinationNotEmpty _ =>
    "Cannot move onto \"" ++ error.subject ++ "\": destination is not empty"
  | storeUnavailable _ _ => "Store unavailable: " ++ error.subject
  | corruptDocument _ _ | unsupportedVersion _ _ => "Store error: " ++ error.subject
  | invalidUtf8 _ => "File is not valid UTF-8: " ++ error.subject
  | host _ => "I/O error: " ++ error.subject
  | json _ => "JSON error: " ++ error.subject
  | endless => "Operation never comes to an end"

end FsError

end SaveTree
