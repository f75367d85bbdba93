import SaveTree.Queue.Basic

namespace SaveTree
namespace Queue

/-!
# Scripted runs of a queue

A script decides from outside how saves and delays end.  After each instruction
the tasks move until every one of them waits for the script.  Some items are bad:
a save of such an item crashes as soon as it begins.
-/

/-- An instruction of a script. -/
inductive Instruction (ι ε : Type) where
  /-- Hands items to the queue, with no task moving in between. -/
  | enqueue (items : List ι)
  /-- Ends the save that is going on. -/
  | endSave (outcome : Outcome ε)
  /-- Ends the delay that is going on. -/
  | endWait (crashes : Bool)
  /-- Begins to watch for the queue to go idle. -/
  | watch
  /-- Does nothing. -/
  | look

/-- What can be wrong with an instruction. -/
inductive Mistake where
  /-- There is no save to end. -/
  | noSave
  /-- There is no delay to end. -/
  | noWait
  deriving DecidableEq

/-- What is seen of one instruction. -/
structure Sight (ι ε : Type) where
  events : List (Event ι ε)
  /-- The queue is idle before its tasks have moved. -/
  idleAtOnce : Bool
  /-- The queue is idle after its tasks have moved. -/
  idle : Bool
  /-- The watchers that saw the queue idle. -/
  resolved : List Nat
  mistake? : Option Mistake

/-- A queue with those who watch it.  Watchers are numbered as they come. -/
structure Stage (ι : Type) where
  queue : Queue ι
  watching : List Nat
  watchers : Nat

variable {ι ε : Type} [DecidableEq ι]

/-- A stage on which nothing has happened. -/
def Stage.empty : Stage ι :=
  ⟨.empty, [], 0⟩

/-- The task moves on its own: it is ready, or it saves a bad item. -/
def ownMove? (bad : List ι) : Task ι → Option (Move ε)
  | .ready => some .take
  | .saving item _ => if item ∈ bad then some (.endSave .crashed) else none
  | .waiting _ _ => none

/-- The first task that moves on its own, with its move. -/
def firstOwnMove? (bad : List ι) (queue : Queue ι) : Option (Nat × Move ε) :=
  queue.tasks.zipIdx.findSome? fun (task, index) =>
    (ownMove? bad task).map fun next => (index, next)

/-- Lets tasks make at most `moves` moves of their own. -/
def settleWithin (rules : Rules) (bad : List ι) :
    (moves : Nat) → Queue ι → Queue ι × List (Event ι ε)
  | 0, queue => (queue, [])
  | moves + 1, queue =>
    match firstOwnMove? bad queue with
    | none => (queue, [])
    | some (index, next) =>
      match queue.move rules index next with
      | none => (queue, [])
      | some (queue, events) =>
        let (queue, later) := settleWithin rules bad moves queue
        (queue, events ++ later)

/-- Lets tasks move until every one of them waits for the script.  A task makes
at most two moves of its own in a row, and the pending item is taken once. -/
def settle (rules : Rules) (bad : List ι) (queue : Queue ι) : Queue ι × List (Event ι ε) :=
  settleWithin rules bad (2 * queue.tasks.length + 3) queue

/-- The first task that stands as asked, and the queue after its move. -/
def moveFirst? (rules : Rules) (asked : Task ι → Bool) (next : Move ε) (queue : Queue ι) :
    Option (Queue ι × List (Event ι ε)) := do
  let index ← queue.tasks.findIdx? asked
  queue.move rules index next

/-- What an instruction does before the tasks move on their own. -/
def direct (rules : Rules) (queue : Queue ι) :
    Instruction ι ε → Except Mistake (Queue ι × List (Event ι ε))
  | .enqueue items => .ok (items.foldl (fun queue item => queue.enqueue item) queue, [])
  | .endSave outcome =>
    match moveFirst? rules Task.isSaving (.endSave outcome) queue with
    | some moved => .ok moved
    | none => .error .noSave
  | .endWait crashes =>
    match moveFirst? rules Task.isWaiting (.endWait crashes) queue with
    | some moved => .ok moved
    | none => .error .noWait
  | .watch | .look => .ok (queue, [])

/-- Whether the queue is idle when an instruction has been given and no task has
moved.  Items are handed over at once; the end of a save or a delay is noticed
only when the task moves. -/
def idleAtOnce (queue : Queue ι) : Instruction ι ε → Bool
  | .enqueue items => (items.foldl (fun queue item => queue.enqueue item) queue).idle
  | _ => queue.idle

/-- Someone comes to watch. -/
def Stage.welcome (stage : Stage ι) : Instruction ι ε → Stage ι
  | .watch =>
    { stage with watching := stage.watching ++ [stage.watchers], watchers := stage.watchers + 1 }
  | _ => stage

/-- Carries out an instruction and lets the tasks move. -/
def Stage.perform (rules : Rules) (bad : List ι) (stage : Stage ι)
    (instruction : Instruction ι ε) : Stage ι × Sight ι ε :=
  let stage := stage.welcome instruction
  let first := idleAtOnce stage.queue instruction
  let (queue, events, mistake?) :=
    match direct rules stage.queue instruction with
    | .ok (queue, events) => (queue, events, none)
    | .error mistake => (stage.queue, [], some mistake)
  let (queue, later) := settle rules bad queue
  let sight := {
    events := events ++ later
    idleAtOnce := first
    idle := queue.idle
    resolved := if queue.idle then stage.watching else []
    mistake? := mistake? }
  ({ stage with queue := queue, watching := if queue.idle then [] else stage.watching }, sight)

end Queue
end SaveTree
