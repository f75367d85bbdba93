import SaveTree.FileSystem
import SaveTree.Queue.Drain

namespace SaveTree

/-!
# Autosaving

Values are handed to a write queue that saves them as JSON in one file.  While
the values come, the queue's task gets on with its work, more or less of it from
one beat to the next; a schedule says how many moves it makes.  In the end the
queue is drained.  Whatever the schedule, the last value is saved last.
-/

/-- One beat: a value may be handed over, time may pass, and then the queue's task
makes some moves. -/
structure Beat where
  value? : Option Json.Value
  pause : Nat := 0
  moves : Nat := 0

/-- What came of autosaving. -/
structure Autosave where
  /-- How many saves succeeded. -/
  saves : Nat
  /-- The attempts that failed, with the number of attempts left. -/
  failures : List (FsError × Nat)

namespace Autosave

/-- Computations that save, and count what they saved. -/
abbrev Saving := StateT Nat FileSystem.Using

/-- Values are saved in the file at `path`. -/
def services (path : String) : Queue.Services Json.Value FsError Saving where
  save value := do
    let result ← FileSystem.writeJson path value
    if result.isOk then modify (· + 1)
    return result
  wait delay := Host.pause delay

/-- The failures among a queue's events. -/
def failed (events : List (Queue.Event Json.Value FsError)) : List (FsError × Nat) :=
  events.filterMap fun
    | .failed error left => some (error, left)
    | .save _ | .wait _ => none

/-- One beat. -/
def beat (rules : Queue.Rules) (path : String) (queue : Queue Json.Value) (now : Beat) :
    Saving (Queue Json.Value × List (Queue.Event Json.Value FsError)) := do
  let queue := match now.value? with
    | some value => queue.enqueue value
    | none => queue
  if now.pause ≠ 0 then Host.pause now.pause
  queue.serve rules (services path) now.moves

/-- All beats, and then the queue is drained. -/
def play (rules : Queue.Rules) (path : String) :
    List Beat → Queue Json.Value → Saving (List (Queue.Event Json.Value FsError))
  | [], queue => return (← queue.drain rules (services path)).2
  | now :: rest, queue => do
    let (queue, events) ← beat rules path queue now
    return events ++ (← play rules path rest queue)

/-- Saves values in the file at `path` as they come. -/
def run (retry : RetryPolicy) (path : String) (beats : List Beat) :
    FileSystem.Using Autosave := do
  let (events, saves) ← (play ⟨retry, true⟩ path beats .empty).run 0
  return ⟨saves, failed events⟩

end Autosave

end SaveTree
