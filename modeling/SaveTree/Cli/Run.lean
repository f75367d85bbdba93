import SaveTree.Autosave
import SaveTree.Cli.Command
import SaveTree.Cli.Diagnosis
import SaveTree.Settings.Basic
import SaveTree.Text.Hex

namespace SaveTree
namespace Cli

/-!
# Running a command line

A command line is run as a program on the host: it reads the settings, opens the
store, does its work and says what to print.  Each run opens the store anew, so
that all that one run leaves to the next is the store's document.
-/

/-- Why a run failed. -/
inductive Failure where
  | fs (error : FsError)
  /-- A file to bring into the tree could not be read. -/
  | unreadable (file : String) (cause : HostError)
  deriving DecidableEq

/-- The failure as it is printed. -/
def Failure.text : Failure → String
  | fs error => error.diagnosis
  | unreadable file cause =>
    Quotation.quote ("Failed to read " ++ file ++ ": " ++ cause.message)

/-- What a run prints. -/
inductive Output where
  | plain (text : String)
  /-- How an autosave went. -/
  | autosaved (ticks enqueued saves : Nat)

/-- How many ticks there were, and how many of them handed over a snapshot. -/
def Output.tally (ticks enqueued : Nat) : String :=
  Nat.repr ticks ++ " ticks, " ++ Nat.repr enqueued ++ " snapshots enqueued"

/-- The text to print. -/
def Output.render : Output → String
  | plain text => text
  | autosaved ticks enqueued saves =>
    tally ticks enqueued ++ ", " ++ Nat.repr saves ++ " saves written\n"

/-- What came of a run. -/
structure Report where
  output : Output
  /-- Lines for the user that are no output. -/
  notices : String
  failure? : Option Failure

namespace Report

/-- A run that printed something. -/
def printed (text : String) : Report :=
  ⟨.plain text, "", none⟩

/-- A run that failed. -/
def failed (failure : Failure) : Report :=
  ⟨.plain "", "", some failure⟩

/-- The exit code.  A run that would never come to an end is aborted by the host. -/
def code (report : Report) : Nat :=
  match report.failure? with
  | none => 0
  | some (.fs .endless) => 134
  | some _ => 1

/-- All that is printed beside the output.  An aborted run says nothing more. -/
def errors (report : Report) : String :=
  match report.failure? with
  | none | some (.fs .endless) => report.notices
  | some failure => report.notices ++ "Error: " ++ failure.text ++ "\n"

end Report

/-- The document of the store if nothing else is said. -/
def standardDocument : String := "savefs-store.json"

/-- The settings of a run: those of the file first, with the store that the
command line chooses. -/
def Invocation.settings (invocation : Invocation) : ExceptT FsError Host.Program Settings := do
  let settings ← match invocation.settings? with
    | some path => Settings.load path
    | none => pure { store := .durable standardDocument }
  if invocation.memory then return { settings with store := .memory }
  match invocation.store? with
  | some path => return { settings with store := .durable path }
  | none => return settings

mutual

/-- A listing as an indented tree. -/
def treeText (depth : Nat) : List Listed → String
  | [] => ""
  | listed :: rest => itemText depth listed ++ treeText depth rest
termination_by structural listing => listing

/-- One place of a tree and what is below it. -/
def itemText (depth : Nat) : Listed → String
  | .mk _ name kind children? =>
    String.ofList (List.replicate (2 * depth) ' ') ++ name ++
      (if kind = .directory then "/" else "") ++ "\n" ++ belowText (depth + 1) children?
termination_by structural listed => listed

/-- What is below a place, if it is listed. -/
def belowText (depth : Nat) : Option (List Listed) → String
  | none => ""
  | some children => treeText depth children
termination_by structural children? => children?

end

/-- What is printed for a listing. -/
def listingText (json : Bool) (listing : List Listed) : String :=
  if json then (Json.Value.array (Listed.toValues listing)).pretty ++ "\n" else treeText 0 listing

/-- What is printed for an answer.  Texts are printed as they are, bytes in a
dump, all else on lines. -/
def answerText (json : Bool) : Answer → String
  | .done => ""
  | .text text => text
  | .bytes bytes => Hex.dump bytes
  | .found true => "true\n"
  | .found false => "false\n"
  | .listing listing => listingText json listing

/-- Performs an operation and prints its answer. -/
def performing (operation : Operation) (json : Bool) : FileSystem.Using Report := do
  match ← FileSystem.perform operation with
  | .ok answer => return .printed (answerText json answer)
  | .error error => return .failed (.fs error)

/-- Copies a file of the host into the tree. -/
def bringing (path file : String) : FileSystem.Using Report := do
  match ← (Host.read file).run with
  | .error cause => return .failed (.unreadable file cause)
  | .ok bytes =>
    match ← FileSystem.perform (.write path bytes) with
    | .error error => return .failed (.fs error)
    | .ok _ =>
      let notice := "Imported " ++ Nat.repr bytes.size ++ " bytes into " ++ path ++ "\n"
      return ⟨.plain "", notice, none⟩

/-- The state of the session that is saved at a tick. -/
def snapshot (tick : Nat) : Json.Value :=
  .object [("tickCount", .nat tick), ("score", .nat (tick * 10))]

/-- The moves that the queue's task makes during a tick: enough for one save, if
a tick takes any time. -/
def movesPerTick (tickMs : Nat) : Nat :=
  if 0 < tickMs then 2 else 0

/-- The ticks of a session.  Each one whose number is a multiple of `every` hands
over a snapshot. -/
def beats (ticks every tickMs : Nat) (moves : Nat → Nat) : List Beat :=
  (List.range' 1 ticks).map fun tick =>
    { value? := if tick % max every 1 = 0 then some (snapshot tick) else none
      pause := tickMs
      moves := moves tick }

/-- The number of snapshots that are handed over. -/
def enqueued (beats : List Beat) : Nat :=
  (beats.filter fun now => now.value?.isSome).length

/-- The notice of a failed attempt to save. -/
def retryNotice (failure : FsError × Nat) : String :=
  "Autosave failed (" ++ Nat.repr failure.2 ++ " retries left): " ++ failure.1.message ++ "\n"

/-- Plays a session whose snapshots are saved as it goes on. -/
def autosaving (retry : RetryPolicy) (path : String) (ticks every tickMs : Nat)
    (moves : Nat → Nat) : FileSystem.Using Report := do
  let session := beats ticks every tickMs moves
  let result ← Autosave.run retry path session
  return {
    output := .autosaved ticks (enqueued session) result.saves
    notices := String.join (result.failures.map retryNotice)
    failure? := none }

/-- Runs a command on an open tree. -/
def Command.run (retry : RetryPolicy) : Command → FileSystem.Using Report
  | write path text => performing (.writeText path text) false
  | bring path file => bringing path file
  | read path => performing (.readText path) false
  | readBytes path => performing (.read path) false
  | find path => performing (.find path) false
  | makeDirectory path recursive => performing (.makeDirectory path recursive) false
  | list path recursive json => performing (.list path recursive) json
  | remove path recursive => performing (.remove path recursive) false
  | copy source target => performing (.copy source target) false
  | rename source target => performing (.rename source target) false
  | autosave path ticks every tickMs =>
    autosaving retry path ticks every tickMs fun _ => movesPerTick tickMs

/-- Runs a command line. -/
def Invocation.run (invocation : Invocation) : Host.Program Report := do
  let opened : ExceptT FsError Host.Program (Settings × FileSystem) := do
    let settings ← invocation.settings
    return (settings, ← FileSystem.openChoice settings.store)
  match ← opened.run with
  | .error error => return .failed (.fs error)
  | .ok (settings, tree) => return (← (invocation.command.run settings.queue).run tree).1

end Cli
end SaveTree
