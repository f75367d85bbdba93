import SaveTree.Queue.Basic

namespace SaveTree
namespace Queue

/-!
# Draining a queue

A queue that is served lets its tasks move whenever they can: saves and delays
are carried out by someone and end without crashes.  Draining goes on until no
task is left.
-/

/-- Those who carry out what a queue begins. -/
structure Services (ι ε : Type) (m : Type → Type) where
  save : ι → m (Except ε Unit)
  wait : Nat → m Unit

variable {ι ε : Type} {m : Type → Type} [Monad m]

/-- How a save that was carried out ended. -/
def Outcome.ofResult : Except ε Unit → Outcome ε
  | .ok () => .saved
  | .error error => .failed error false

/-- What the first task does next, once it is carried out. -/
def nextMove (rules : Rules) (services : Services ι ε m) (queue : Queue ι) :
    m (Option (Move ε)) := do
  match queue.tasks with
  | [] => return none
  | .ready :: _ => return some .take
  | .saving item _ :: _ => return some (.endSave (.ofResult (← services.save item)))
  | .waiting _ attempt :: _ => do
    services.wait (rules.retry.delay attempt)
    return some (.endWait false)

/-- Lets the first task make at most `moves` moves. -/
def serve (rules : Rules) (services : Services ι ε m) :
    (moves : Nat) → Queue ι → m (Queue ι × List (Event ι ε))
  | 0, queue => return (queue, [])
  | moves + 1, queue => do
    match ← nextMove rules services queue with
    | none => return (queue, [])
    | some next =>
      match queue.move rules 0 next with
      | none => return (queue, [])
      | some (queue, events) =>
        let (queue, later) ← serve rules services moves queue
        return (queue, events ++ later)

/-- More moves than a task needs for the item it works on and the pending one:
it takes an item, ends each attempt, and waits between them. -/
def enough (rules : Rules) : Nat :=
  2 * (2 * rules.retry.maxRetries.toNat + 2) + 1

/-- Serves a queue until it is idle. -/
def drain (rules : Rules) (services : Services ι ε m) (queue : Queue ι) :
    m (Queue ι × List (Event ι ε)) :=
  serve rules services (enough rules) queue

end Queue
end SaveTree
