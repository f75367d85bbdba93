import SaveTree.Queue.Basic

namespace SaveTree
namespace Queue

/-!
# One task at a time

A run of a queue mixes items that are handed over with moves of its tasks, in any
order: whoever holds the queue may enqueue at any time, and every save and every
delay may end in any of its ways.  A run is kept with a log of its steps.

A queue that is reached by a run is in one of two shapes.  It is empty, or it has
one task and shows that it is busy.  What a move can do is said once, for a queue
of the second shape; that the shapes are kept, and all that follows from them,
comes from there.
-/

variable {ι ε : Type}

/-- What is noted of one step of a run. -/
inductive Mark (ι ε : Type) where
  | enqueued (item : ι)
  | moved (next : Move ε) (events : List (Event ι ε))
  /-- Someone who waited for the queue to drain goes on. -/
  | resolved

/-- One step of a run. -/
inductive Step (rules : Rules) : Queue ι → Mark ι ε → Queue ι → Prop where
  | enqueue {queue : Queue ι} (item : ι) : Step rules queue (.enqueued item) (queue.enqueue item)
  | move {queue after : Queue ι} {index : Nat} {next : Move ε} {events : List (Event ι ε)}
      (moved : queue.move rules index next = some (after, events)) :
      Step rules queue (.moved next events) after
  | resolve {queue : Queue ι} (quiet : queue.idle = true) : Step rules queue .resolved queue

/-- The queues that are reached from an unused one, each with the log of its run. -/
inductive Run (rules : Rules) : List (Mark ι ε) → Queue ι → Prop where
  | start : Run rules [] .empty
  | step {log : List (Mark ι ε)} {mark : Mark ι ε} {queue after : Queue ι}
      (run : Run rules log queue) (step : Step rules queue mark after) :
      Run rules (log ++ [mark]) after

/-! ## The two shapes -/

/-- A queue with one task. -/
def busy (pending : Option ι) (task : Task ι) : Queue ι where
  pending := pending
  inFlight := true
  idle := false
  tasks := [task]

/-- What the crash of the only task leaves behind. -/
def relieved : Option ι → Queue ι
  | some item => busy (some item) .ready
  | none => empty

/-- The shapes of a queue in a run. -/
inductive Flight : Queue ι → Prop where
  | grounded : Flight .empty
  | airborne (pending : Option ι) (task : Task ι) : Flight (busy pending task)

theorem flight_relieved (pending : Option ι) : Flight (relieved pending) := by
  cases pending with
  | none => exact .grounded
  | some item => exact .airborne (some item) .ready

theorem crash_busy (pending : Option ι) (task : Task ι) :
    (busy pending task).crash 0 = relieved pending := by
  cases pending <;> rfl

@[simp]
theorem pending_relieved (pending : Option ι) : (relieved pending).pending = pending := by
  cases pending <;> rfl

/-! ## What a move can do -/

/-- What is reported of a failed attempt. -/
def report (rules : Rules) (error : ε) (attempt : Nat) : List (Event ι ε) :=
  if rules.reports then [.failed error (rules.retry.maxRetries.toNat - attempt)] else []

/-- The moves of the only task of a queue, with the queue after it and the events. -/
inductive Change (rules : Rules) (pending : Option ι) :
    Task ι → Move ε → Queue ι → List (Event ι ε) → Prop where
  | taken {item : ι} (newest : pending = some item) :
      Change rules pending .ready .take (busy none (.saving item 0)) [.save item]
  | ended (nothing : pending = none) : Change rules pending .ready .take empty []
  | saved {item : ι} {attempt : Nat} :
      Change rules pending (.saving item attempt) (.endSave .saved) (busy pending .ready) []
  | postponed {item : ι} {attempt : Nat} {error : ε} {crashes : Bool}
      (told : ¬(rules.reports = true ∧ crashes = true))
      (left : attempt < rules.retry.maxRetries.toNat) :
      Change rules pending (.saving item attempt) (.endSave (.failed error crashes))
        (busy pending (.waiting item attempt))
        (report rules error attempt ++ [.wait (rules.retry.delay attempt)])
  | givenUp {item : ι} {attempt : Nat} {error : ε} {crashes : Bool}
      (told : ¬(rules.reports = true ∧ crashes = true))
      (exhausted : rules.retry.maxRetries.toNat ≤ attempt) :
      Change rules pending (.saving item attempt) (.endSave (.failed error crashes))
        (busy pending .ready) (report rules error attempt)
  | reportCrashed {item : ι} {attempt : Nat} {error : ε} (reports : rules.reports = true) :
      Change rules pending (.saving item attempt) (.endSave (.failed error true))
        (relieved pending) (report rules error attempt)
  | saveCrashed {item : ι} {attempt : Nat} :
      Change rules pending (.saving item attempt) (.endSave .crashed) (relieved pending) []
  | retried {item : ι} {attempt : Nat} :
      Change rules pending (.waiting item attempt) (.endWait false)
        (busy pending (.saving item (attempt + 1))) [.save item]
  | waitCrashed {item : ι} {attempt : Nat} :
      Change rules pending (.waiting item attempt) (.endWait true) (relieved pending) []

variable {rules : Rules} {pending : Option ι} {task : Task ι} {next : Move ε}
  {queue after : Queue ι} {events : List (Event ι ε)} {log : List (Mark ι ε)} {mark : Mark ι ε}

theorem not_move_empty {index : Nat} : (empty : Queue ι).move rules index next = none := by
  simp [empty, move]

/-- A move is made at index zero, where the only task is. -/
theorem index_eq_zero_of_move {index : Nat}
    (moved : (busy pending task).move rules index next = some (after, events)) : index = 0 := by
  cases index with
  | zero => rfl
  | succ index => simp [busy, move] at moved

theorem change_of_take
    (taken : (busy pending .ready).take 0 = (after, events)) :
    Change rules pending .ready .take after events := by
  cases pending with
  | none =>
    cases taken
    exact .ended rfl
  | some item =>
    cases taken
    exact .taken rfl

theorem change_of_fail {item : ι} {attempt : Nat} {error : ε} {crashes : Bool}
    (failed : (busy pending (.saving item attempt)).fail rules 0 item attempt error crashes =
      (after, events)) :
    Change rules pending (.saving item attempt) (.endSave (.failed error crashes)) after events := by
  unfold fail at failed
  dsimp only at failed
  split at failed
  · rename_i told
    cases failed
    rw [told.2, crash_busy]
    exact .reportCrashed told.1
  · rename_i told
    split at failed
    · cases failed
      exact .postponed told (by omega)
    · cases failed
      exact .givenUp told (by omega)

theorem change_of_move {index : Nat}
    (moved : (busy pending task).move rules index next = some (after, events)) :
    Change rules pending task next after events := by
  have atZero := index_eq_zero_of_move moved
  subst atZero
  cases task with
  | ready =>
    cases next with
    | take => exact change_of_take (Option.some.inj moved)
    | endSave outcome => cases moved
    | endWait crashes => cases moved
  | saving item attempt =>
    cases next with
    | take => cases moved
    | endWait crashes => cases moved
    | endSave outcome =>
      cases outcome with
      | saved =>
        cases moved
        exact .saved
      | failed error crashes => exact change_of_fail (Option.some.inj moved)
      | crashed =>
        cases moved
        rw [crash_busy]
        exact .saveCrashed
  | waiting item attempt =>
    cases next with
    | take => cases moved
    | endSave outcome => cases moved
    | endWait crashes =>
      cases crashes with
      | false =>
        cases moved
        exact .retried
      | true =>
        cases moved
        rw [crash_busy]
        exact .waitCrashed

/-! ## The shapes are kept -/

theorem Change.flight (change : Change rules pending task next after events) : Flight after := by
  cases change with
  | taken newest => exact .airborne none _
  | ended nothing => exact .grounded
  | saved => exact .airborne pending _
  | postponed told left => exact .airborne pending _
  | givenUp told exhausted => exact .airborne pending _
  | reportCrashed reports => exact flight_relieved pending
  | saveCrashed => exact flight_relieved pending
  | retried => exact .airborne pending _
  | waitCrashed => exact flight_relieved pending

theorem Flight.enqueue (flight : Flight queue) (item : ι) : Flight (queue.enqueue item) := by
  cases flight with
  | grounded => exact .airborne (some item) .ready
  | airborne pending task => exact .airborne (some item) task

theorem Flight.step (flight : Flight queue) (step : Step rules queue mark after) :
    Flight after := by
  cases step with
  | enqueue item => exact flight.enqueue item
  | resolve quiet => exact flight
  | move moved =>
    cases flight with
    | grounded => rw [not_move_empty] at moved; cases moved
    | airborne pending task => exact (change_of_move moved).flight

theorem Run.flight (run : Run rules log queue) : Flight queue := by
  induction run with
  | start => exact .grounded
  | step _ step ih => exact ih.step step

/-- A queue that is shut down shows that it is idle just if nothing was pending. -/
theorem Flight.idle_shutDown (flight : Flight queue) :
    queue.shutDown.idle = true ↔ queue.pending = none := by
  cases flight with
  | grounded => exact ⟨fun _ => rfl, fun _ => rfl⟩
  | airborne pending task =>
    cases pending with
    | none => exact ⟨fun _ => rfl, fun _ => rfl⟩
    | some item => simp [busy, shutDown, abandon]

/-- In every queue that is reached at most one task is alive, so that two saves never
overlap; the queue is in flight just if one is, and shows the contrary; what is
pending has a task that is going to take it, unless the queue is shut down. -/
theorem run_single_flight (run : Run rules log queue) :
    queue.tasks.length ≤ 1 ∧
    queue.tasks.countP Task.isSaving ≤ 1 ∧
    (queue.inFlight = true ↔ queue.tasks ≠ []) ∧
    queue.idle = !queue.inFlight ∧
    (queue.inFlight = false → queue.pending = none) ∧
    (queue.pending ≠ none → queue.tasks ≠ []) ∧
    (queue.shutDown.idle = true ↔ queue.pending = none) := by
  have stopped := run.flight.idle_shutDown
  cases run.flight with
  | grounded =>
    refine ⟨Nat.zero_le 1, Nat.zero_le 1, ?_, rfl, fun _ => rfl, ?_, stopped⟩
    · simp [empty]
    · intro waits
      exact absurd rfl waits
  | airborne pending task =>
    have counted : [task].countP Task.isSaving ≤ [task].length := List.countP_le_length
    refine ⟨Nat.le_refl 1, counted, ?_, rfl, ?_, ?_, stopped⟩
    · simp [busy]
    · intro landed
      cases landed
    · intro _ gone
      cases gone

/-- An item arrives while an older one is being saved. -/
theorem run_single_flight_while_saving :
    ∃ (log : List (Mark Nat String)) (queue : Queue Nat),
      Run ⟨.standard, true⟩ log queue ∧ queue.tasks = [.saving 1 0] ∧ queue.pending = some 2 ∧
      (queue.shutDown.idle = true ↔ queue.pending = none) := by
  have begun : Run ⟨.standard, true⟩ ([] ++ [.enqueued 1] ++ [.moved .take [.save 1]])
      (busy none (.saving 1 0) : Queue Nat) :=
    .step (.step .start (.enqueue 1))
      (.move (show move ⟨.standard, true⟩ 0 (.take : Move String) (busy (some 1) .ready) = _ from rfl))
  have run := begun.step (.enqueue 2)
  exact ⟨_, _, run, rfl, rfl, (run_single_flight run).2.2.2.2.2.2⟩

end Queue
end SaveTree
