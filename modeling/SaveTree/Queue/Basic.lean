import SaveTree.Settings.Retry

namespace SaveTree

/-!
# A write queue that keeps the newest item

Items are handed to a queue faster than they can be saved.  The queue has room
for one pending item, and a newer one takes its place.  A task takes the pending
item, saves it, and goes on until nothing is pending.  A save that fails is
tried again after a delay, a bounded number of times; then the item is given up.

The queue does not save anything itself.  It says what is begun, and is told how
it ended: a save with success, with an error or with a crash, a delay by running
out or with a crash.  A crash ends the task.  If something is pending then, a new
task takes over.
-/

/-- Where a task stands. -/
inductive Task (ι : Type) where
  /-- About to look for a pending item. -/
  | ready
  /-- Saving an item; earlier attempts failed. -/
  | saving (item : ι) (attempt : Nat)
  /-- Waiting after an attempt that failed. -/
  | waiting (item : ι) (attempt : Nat)
  deriving DecidableEq

namespace Task

variable {ι : Type}

/-- The task saves an item. -/
def isSaving : Task ι → Bool
  | saving _ _ => true
  | ready | waiting _ _ => false

/-- The task waits for its next attempt. -/
def isWaiting : Task ι → Bool
  | waiting _ _ => true
  | ready | saving _ _ => false

end Task

/-- A queue with its tasks. -/
structure Queue (ι : Type) where
  /-- The newest item that no task has taken. -/
  pending : Option ι
  /-- A task has been started and has not gone idle. -/
  inFlight : Bool
  /-- What those who wait for the queue to drain are shown. -/
  idle : Bool
  /-- The tasks that are alive. -/
  tasks : List (Task ι)
  deriving DecidableEq

namespace Queue

/-- How a queue treats failed saves. -/
structure Rules where
  retry : RetryPolicy
  /-- Someone is told of every failed attempt. -/
  reports : Bool

/-- What a queue begins to do or reports. -/
inductive Event (ι ε : Type) where
  /-- A save of the item begins. -/
  | save (item : ι)
  /-- An attempt failed, and so many are left. -/
  | failed (error : ε) (left : Nat)
  /-- A delay of so many milliseconds begins. -/
  | wait (delay : Nat)
  deriving DecidableEq

/-- How a save ends. -/
inductive Outcome (ε : Type) where
  | saved
  /-- The save failed, and who is told of it may crash. -/
  | failed (error : ε) (crashes : Bool)
  | crashed
  deriving DecidableEq

/-- What a task does next. -/
inductive Move (ε : Type) where
  | take
  | endSave (outcome : Outcome ε)
  | endWait (crashes : Bool)
  deriving DecidableEq

variable {ι ε : Type}

/-- A queue that was never used. -/
def empty : Queue ι where
  pending := none
  inFlight := false
  idle := true
  tasks := []

/-- Makes an item the pending one, and starts a task if none is in flight. -/
def enqueue (item : ι) (queue : Queue ι) : Queue ι :=
  if queue.inFlight then { queue with pending := some item }
  else
    { pending := some item
      inFlight := true
      idle := false
      tasks := queue.tasks ++ [.ready] }

/-- Changes where one task stands. -/
def setTask (index : Nat) (task : Task ι) (queue : Queue ι) : Queue ι :=
  { queue with tasks := queue.tasks.set index task }

/-- A task ends, and the queue goes idle. -/
def retire (index : Nat) (queue : Queue ι) : Queue ι :=
  { queue with inFlight := false, idle := true, tasks := queue.tasks.eraseIdx index }

/-- A task ends in the middle of its work.  A new one takes over if something is
pending, and otherwise the queue goes idle. -/
def crash (index : Nat) (queue : Queue ι) : Queue ι :=
  match queue.pending with
  | some _ => { queue with tasks := queue.tasks.eraseIdx index ++ [.ready] }
  | none => queue.retire index

/-- A ready task takes the pending item or ends. -/
def take (index : Nat) (queue : Queue ι) : Queue ι × List (Event ι ε) :=
  match queue.pending with
  | some item => ({ queue with pending := none }.setTask index (.saving item 0), [.save item])
  | none => (queue.retire index, [])

/-- A save failed.  The attempts are counted from zero, and after the last one
the item is given up. -/
def fail (rules : Rules) (index : Nat) (item : ι) (attempt : Nat) (error : ε) (crashes : Bool)
    (queue : Queue ι) : Queue ι × List (Event ι ε) :=
  let left := rules.retry.maxRetries.toNat - attempt
  let report := if rules.reports then [.failed error left] else []
  if rules.reports ∧ crashes then (queue.crash index, report)
  else if 0 < left then
    (queue.setTask index (.waiting item attempt), report ++ [.wait (rules.retry.delay attempt)])
  else (queue.setTask index .ready, report)

/-- One move of the task at an index, if it can be made. -/
def move (rules : Rules) (index : Nat) (next : Move ε) (queue : Queue ι) :
    Option (Queue ι × List (Event ι ε)) :=
  match queue.tasks[index]?, next with
  | some .ready, .take => some (queue.take index)
  | some (.saving _ _), .endSave .saved => some (queue.setTask index .ready, [])
  | some (.saving item attempt), .endSave (.failed error crashes) =>
    some (queue.fail rules index item attempt error crashes)
  | some (.saving _ _), .endSave .crashed => some (queue.crash index, [])
  | some (.waiting item attempt), .endWait false =>
    some (queue.setTask index (.saving item (attempt + 1)), [.save item])
  | some (.waiting _ _), .endWait true => some (queue.crash index, [])
  | _, _ => none

/-- A task is gone for good.  The queue goes idle if nothing is pending; a pending
item is not saved any more. -/
def abandon (queue : Queue ι) : Queue ι :=
  match queue.pending with
  | some _ => queue
  | none => { queue with inFlight := false, idle := true }

/-- Ends all tasks for good. -/
def shutDown (queue : Queue ι) : Queue ι :=
  queue.tasks.foldl (fun queue _ => queue.abandon) { queue with tasks := [] }

end Queue

end SaveTree
