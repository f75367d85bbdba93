import SaveTree.Cli.Switches

namespace SaveTree
namespace Cli

/-!
# Command lines

A command line chooses a store, names a command and gives its arguments.  A line
that does not fit is a usage error, whatever is wrong with it.
-/

/-- A command with its arguments. -/
inductive Command where
  | write (path text : String)
  /-- Copies a file of the host into the tree. -/
  | bring (path file : String)
  | read (path : String)
  | readBytes (path : String)
  | find (path : String)
  | makeDirectory (path : String) (recursive : Bool)
  | list (path : String) (recursive json : Bool)
  | remove (path : String) (recursive : Bool)
  | copy (source target : String)
  | rename (source target : String)
  | autosave (path : String) (ticks every tickMs : Nat)
  deriving DecidableEq

/-- A whole command line. -/
structure Invocation where
  /-- The document of a durable store. -/
  store? : Option String
  /-- The store is in memory. -/
  memory : Bool
  /-- The file with the settings. -/
  settings? : Option String
  command : Command
  deriving DecidableEq

/-- A number of 64 bits in decimal digits.  A plus sign may come first. -/
def number? (text : String) : Option Nat :=
  let digits := match text.toList with
    | '+' :: rest => rest
    | all => all
  if digits = [] ∨ !digits.all Char.isDigit then none
  else
    let value := digits.foldl (fun value digit => value * 10 + (digit.toNat - '0'.toNat)) 0
    if value < UInt64.size then some value else none

/-- The value of a switch that takes a number. -/
def numberOr (default : Nat) (name : String) (reading : Reading) : Option Nat :=
  match reading.value? name with
  | none => some default
  | some text => number? text

/-- A text that names a file of the host. -/
def file? (text : String) : Option String :=
  if text = "" then none else some text

/-- The file that a switch names, if it is given. -/
def fileOf (name : String) (reading : Reading) : Option (Option String) :=
  match reading.value? name with
  | none => some none
  | some text => (file? text).map some

/-- Goes into directories. -/
def recursive : Switch := ⟨"recursive", some 'r', false⟩

/-- Prints JSON. -/
def json : Switch := ⟨"json", none, false⟩

/-- The switches before the command. -/
def globalSwitches : List Switch := [
  ⟨"store", some 's', true⟩,
  ⟨"memory", none, false⟩,
  ⟨"config", some 'c', true⟩]

/-- The switches of a command; nothing if there is no such command. -/
def switchesOf? : String → Option (List Switch)
  | "write" | "import" | "read" | "read-bytes" | "exists" | "cp" | "mv" => some []
  | "mkdir" | "rm" => some [recursive]
  | "ls" => some [recursive, json]
  | "autosave" => some [⟨"ticks", none, true⟩, ⟨"every", none, true⟩, ⟨"tick-ms", none, true⟩]
  | _ => none

/-- The command of a name with what was given after it. -/
def Command.ofReading? (name : String) (reading : Reading) : Option Command :=
  match name, reading.words with
  | "write", [path, text] => some (.write path text)
  | "import", [path, file] => (file? file).map (.bring path)
  | "read", [path] => some (.read path)
  | "read-bytes", [path] => some (.readBytes path)
  | "exists", [path] => some (.find path)
  | "mkdir", [path] => some (.makeDirectory path (reading.has "recursive"))
  | "ls", [] => some (.list "" (reading.has "recursive") (reading.has "json"))
  | "ls", [path] => some (.list path (reading.has "recursive") (reading.has "json"))
  | "rm", [path] => some (.remove path (reading.has "recursive"))
  | "cp", [source, target] => some (.copy source target)
  | "mv", [source, target] => some (.rename source target)
  | "autosave", [path] => do
    let ticks ← numberOr 600 "ticks" reading
    let every ← numberOr 1 "every" reading
    let tickMs ← numberOr 0 "tick-ms" reading
    some (.autosave path ticks every tickMs)
  | _, _ => none

/-- Reads a command line.  There is nothing if it does not fit. -/
def Invocation.ofArguments? (arguments : List String) : Option Invocation := do
  let (front, rest) ← readFront globalSwitches arguments
  let store? ← fileOf "store" front
  let settings? ← fileOf "config" front
  if !front.isPlain ∨ (front.has "store" ∧ front.has "memory") then none
  match rest with
  | [] => none
  | name :: rest =>
    let switches ← switchesOf? name
    let reading ← readAll switches rest
    if !reading.isPlain then none
    let command ← Command.ofReading? name reading
    some ⟨store?, front.has "memory", settings?, command⟩

end Cli
end SaveTree
