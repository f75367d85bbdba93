import SaveTree.Host.Error
import SaveTree.Path.Basic
import SaveTree.Program

namespace SaveTree
namespace Host

/-!
# Calls on the host

The few calls that are ever made on the host: those on its file system, which
take paths as texts and may fail, and one to let time pass.
-/

/-- A call on the host. -/
inductive Call where
  /-- What the path leads to. -/
  | kind (path : String)
  /-- The bytes of a file. -/
  | read (path : String)
  /-- Writes a file whole, creating it if it is missing. -/
  | write (path : String) (bytes : ByteArray)
  /-- Creates one directory. -/
  | makeDirectory (path : String)
  /-- The names in a directory, in no particular order. -/
  | list (path : String)
  /-- Removes a file. -/
  | removeFile (path : String)
  /-- Removes a directory with all it holds. -/
  | removeTree (path : String)
  /-- Moves a file or a directory. -/
  | rename (source target : String)
  /-- Lets so many milliseconds pass. -/
  | pause (delay : Nat)

/-- What a call that succeeds returns. -/
def Call.Answer : Call → Type
  | kind _ => Kind
  | read _ => ByteArray
  | list _ => List (String × Kind)
  | write _ _ | makeDirectory _ | removeFile _ | removeTree _ | rename _ _ | pause _ => Unit

/-- Refuses a path that holds a zero byte.  No host can be asked for it. -/
def checkBytes (path : String) : Except HostError Unit :=
  if path.toList.contains '\x00' then .error .zeroByte else .ok ()

/-- The calls of the host. -/
abbrev calls : Interface where
  Call := Call
  Reply := fun call => Except HostError call.Answer

/-- A program over the calls of the host. -/
abbrev Program (α : Type) := SaveTree.Program calls α

/-- A program over the calls of the host that can fail. -/
abbrev Action (α : Type) := ExceptT HostError Program α

/-- Makes one call, and fails if it does. -/
def call (request : Call) : Action request.Answer :=
  ExceptT.mk (@SaveTree.Program.request calls request)

/-- Lets a program fail with what its host failure means to others. -/
def orFail {α ε : Type} (reason : HostError → ε) (action : Action α) : ExceptT ε Program α :=
  ExceptT.mk do return (← action.run).mapError reason

/-- What the path leads to; nothing if it leads nowhere. -/
def kind? (path : String) : Action (Option Kind) := ExceptT.mk do
  match ← (call (.kind path)).run with
  | .ok kind => return .ok (some kind)
  | .error .notFound => return .ok none
  | .error error => return .error error

/-- The bytes of a file. -/
def read (path : String) : Action ByteArray :=
  call (.read path)

/-- The text of a file. -/
def readText (path : String) : Action String := do
  match String.fromUTF8? (← read path) with
  | some text => return text
  | none => throw .notText

/-- Writes a file whole. -/
def write (path : String) (bytes : ByteArray) : Action Unit :=
  call (.write path bytes)

/-- Creates one directory. -/
def makeDirectory (path : String) : Action Unit :=
  call (.makeDirectory path)

/-- The names in a directory. -/
def list (path : String) : Action (List (String × Kind)) :=
  call (.list path)

/-- Removes a file. -/
def removeFile (path : String) : Action Unit :=
  call (.removeFile path)

/-- Removes a directory with all it holds. -/
def removeTree (path : String) : Action Unit :=
  call (.removeTree path)

/-- Moves a file or a directory. -/
def rename (source target : String) : Action Unit :=
  call (.rename source target)

/-- Lets some time pass. -/
def pause (delay : Nat) : Program Unit := do
  let _ ← (call (.pause delay)).run

end Host
end SaveTree
