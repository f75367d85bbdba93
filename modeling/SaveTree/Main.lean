import SaveTree.Cli.Run

namespace SaveTree
namespace Host

/-!
# The command

The outermost layer: calls are made on the real host, and what a command line
prints is printed.
-/

/-- The failure with a number of 32 bits.  Some layers give the number negated. -/
def failureOfCode (code : UInt32) (words : String) : HostError :=
  .ofCode (min code (-code)).toNat words

/-- The host's failure behind an error of the system. -/
def failureOf : IO.Error → HostError
  | .alreadyExists _ code words | .otherError code words | .resourceBusy code words
  | .resourceVanished code words | .unsupportedOperation code words
  | .hardwareFault code words | .unsatisfiedConstraints code words
  | .illegalOperation code words | .protocolError code words | .timeExpired code words
  | .interrupted _ code words | .noFileOrDirectory _ code words
  | .invalidArgument _ code words | .permissionDenied _ code words
  | .resourceExhausted _ code words | .inappropriateType _ code words
  | .noSuchThing _ code words => failureOfCode code words
  | error => .other 5 (toString error)

/-- Makes a call with paths that the host can be asked for. -/
def attempt {α : Type} (paths : List String) (action : IO α) : IO (Except HostError α) := do
  match paths.forM checkBytes with
  | .error error => return .error error
  | .ok () =>
    try return .ok (← action)
    catch error => return .error (failureOf error)

/-- What a path leads to.  A directory can be opened, but nothing can be read
from it. -/
def kindOf (path : String) : IO (Except HostError Kind) := do
  match ← attempt [path] (do (← IO.FS.Handle.mk path .read).read 1) with
  | .ok _ => return .ok .file
  | .error .isADirectory => return .ok .directory
  | .error error => return .error error

/-- Lets some milliseconds pass. -/
def sleep (delay : Nat) : IO Unit := do
  let longest := UInt32.size - 1
  for _ in [0 : delay / longest] do IO.sleep (UInt32.ofNat longest)
  IO.sleep (UInt32.ofNat (delay % longest))

/-- Makes a call on the real host.  No command lists a directory of the host, so
that call is refused. -/
def serve : (call : Call) → IO (Except HostError call.Answer)
  | .kind path => kindOf path
  | .read path => attempt [path] (IO.FS.readBinFile path)
  | .write path bytes => attempt [path] (IO.FS.writeBinFile path bytes)
  | .makeDirectory path => attempt [path] (IO.FS.createDir path)
  | .list _ => return .error .invalidArgument
  | .removeFile path => attempt [path] (IO.FS.removeFile path)
  | .removeTree path => attempt [path] (IO.FS.removeDirAll path)
  | .rename source target => attempt [source, target] (IO.FS.rename source target)
  | .pause delay => attempt [] (sleep delay)

end Host

/-- How the command is used. -/
def Cli.usage : String :=
  "Usage: [--store FILE | --memory] [--config FILE] COMMAND\n" ++
  "Commands: write PATH TEXT, import PATH FILE, read PATH, read-bytes PATH, exists PATH,\n" ++
  "  mkdir [-r] PATH, ls [-r] [--json] [PATH], rm [-r] PATH, cp FROM TO, mv FROM TO,\n" ++
  "  autosave PATH [--ticks N] [--every N] [--tick-ms N]\n"

end SaveTree

/-- Runs a command line. -/
def main (arguments : List String) : IO UInt32 := do
  match SaveTree.Cli.Invocation.ofArguments? arguments with
  | none =>
    IO.eprint SaveTree.Cli.usage
    return 2
  | some invocation =>
    let report ← SaveTree.Program.run SaveTree.Host.serve invocation.run
    IO.print report.output.render
    IO.eprint report.errors
    return UInt32.ofNat report.code
