import SaveTree.Error
import SaveTree.Text.Quotation

namespace SaveTree

/-!
# Diagnoses

How a failure is printed when it ends a command: the name of its kind, and what
it is about in quotes.
-/

namespace HostError

/-- The name of the kind of failure. -/
def kindName : HostError → String
  | notFound => "NotFound"
  | permissionDenied => "PermissionDenied"
  | busy => "ResourceBusy"
  | alreadyExists => "AlreadyExists"
  | notADirectory => "NotADirectory"
  | isADirectory => "IsADirectory"
  | invalidArgument => "InvalidInput"
  | nameTooLong => "InvalidFilename"
  | notEmpty => "DirectoryNotEmpty"
  | zeroByte => "InvalidInput"
  | notText => "InvalidData"
  | other _ _ => "Uncategorized"

/-- The failure with its number, kind and words. -/
def diagnosis (error : HostError) : String :=
  let words := "kind: " ++ error.kindName ++ ", message: " ++ Quotation.quote error.description
  match error.code? with
  | some code => "Os \x7b code: " ++ Nat.repr code ++ ", " ++ words ++ " \x7d"
  | none => "Error \x7b " ++ words ++ " \x7d"

end HostError

namespace FsError

/-- The name of the kind of failure. -/
def kindName : FsError → String
  | emptyPath => "EmptyPath"
  | invalidPath _ | moveIntoItself _ => "InvalidPath"
  | fileNotFound _ => "FileNotFound"
  | directoryNotFound _ => "DirectoryNotFound"
  | conflict _ => "Conflict"
  | notADirectory _ => "NotADirectory"
  | parentMissing _ => "ParentMissing"
  | directoryNotEmpty _ => "DirectoryNotEmpty"
  | destinationNotEmpty _ => "DestinationNotEmpty"
  | rootRemoval => "RootRemoval"
  | storeUnavailable _ _ => "StoreUnavailable"
  | corruptDocument _ _ | unsupportedVersion _ _ => "Store"
  | invalidUtf8 _ => "InvalidUtf8"
  | host _ => "Io"
  | json _ => "Json"
  | endless => "Endless"

/-- The failure with its kind and its subject. -/
def diagnosis (error : FsError) : String :=
  match error with
  | emptyPath | rootRemoval | endless => error.kindName
  | host cause => error.kindName ++ "(" ++ cause.diagnosis ++ ")"
  | error => error.kindName ++ "(" ++ Quotation.quote error.subject ++ ")"

end FsError

end SaveTree
