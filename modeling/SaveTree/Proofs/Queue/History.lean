import Mathlib.Data.List.InsertIdx
import SaveTree.Proofs.Queue.SingleFlight

namespace SaveTree
namespace Queue

/-!
# No newest item is lost

The log of a run tells which items were handed over and which of them a task took.
A take is of the item that was handed over last, and something was handed over
since the take before.  So every item is taken once or was superseded by a newer
one, except for the one that is still pending; and nothing is pending in a queue
that is idle.

Two items that were handed over may be equal.  Where they have to be told apart,
a run is compared with one in which every item carries the number of its turn.
-/

variable {ι κ ε : Type}

/-! ## Reading a log -/

/-- The item of which a save begins. -/
def Event.saves? : Event ι ε → Option ι
  | .save item => some item
  | .failed _ _ | .wait _ => none

namespace Mark

/-- The item that is handed over. -/
def enqueued? : Mark ι ε → Option ι
  | .enqueued item => some item
  | .moved _ _ | .resolved => none

/-- The item that a task takes, to save it for the first time. -/
def taken? : Mark ι ε → Option ι
  | .moved .take [.save item] => some item
  | _ => none

/-- The items of which a save begins. -/
def attempts : Mark ι ε → List ι
  | .moved _ events => events.filterMap Event.saves?
  | .enqueued _ | .resolved => []

/-- What is pending after a step, told by its mark alone. -/
def note (pending : Option ι) (mark : Mark ι ε) : Option ι :=
  match mark.enqueued?, mark.taken? with
  | some item, _ => some item
  | none, some _ => none
  | none, none => pending

end Mark

/-- The items that were handed over. -/
def enqueues (log : List (Mark ι ε)) : List ι :=
  log.filterMap Mark.enqueued?

/-- The items that were taken. -/
def takes (log : List (Mark ι ε)) : List ι :=
  log.filterMap Mark.taken?

/-- The item that was handed over last and that no task took since. -/
def untaken (log : List (Mark ι ε)) : Option ι :=
  log.foldl Mark.note none

/-- Nothing is handed over or taken. -/
def Quiet (log : List (Mark ι ε)) : Prop :=
  ∀ mark ∈ log, mark.enqueued? = none ∧ mark.taken? = none

/-- The next thing that happens to an item which was handed over: a task takes it. -/
def TakenNext (item : ι) (log : List (Mark ι ε)) : Prop :=
  ∃ between mark later, log = between ++ mark :: later ∧ Quiet between ∧ mark.taken? = some item

/-- The next thing that happens to an item which was handed over: another takes its place. -/
def Superseded (log : List (Mark ι ε)) : Prop :=
  ∃ between newer later, log = between ++ .enqueued newer :: later ∧ Quiet between

/-- Every item was taken or superseded, and the last one was taken last. -/
structure Drained (log : List (Mark ι ε)) : Prop where
  last : (takes log).getLast? = (enqueues log).getLast?
  fate : ∀ before item later, log = before ++ .enqueued item :: later →
    TakenNext item later ∨ Superseded later

/-- What the log says about a queue: its items in their order, what became of each of
them, and that nothing is left when it is idle. -/
structure Settled (log : List (Mark ι ε)) (queue : Queue ι) : Prop where
  order : List.Sublist (takes log ++ queue.pending.toList) (enqueues log)
  last : (takes log ++ queue.pending.toList).getLast? = (enqueues log).getLast?
  fate : ∀ before item later, log = before ++ .enqueued item :: later →
    TakenNext item later ∨ Superseded later ∨ Quiet later ∧ queue.pending = some item
  drained : queue.idle = true → Drained log

variable {rules : Rules} {pending : Option ι} {task : Task ι} {next : Move ε}
  {queue after : Queue ι} {events : List (Event ι ε)}
  {log before later between : List (Mark ι ε)} {mark : Mark ι ε} {item : ι}

@[simp]
theorem takes_concat : takes (log ++ [mark]) = takes log ++ mark.taken?.toList := by
  cases taken : mark.taken? <;> simp [takes, taken]

@[simp]
theorem enqueues_concat : enqueues (log ++ [mark]) = enqueues log ++ mark.enqueued?.toList := by
  cases enqueued : mark.enqueued? <;> simp [enqueues, enqueued]

@[simp]
theorem untaken_concat : untaken (log ++ [mark]) = mark.note (untaken log) := by
  simp [untaken]

theorem foldl_note_of_quiet (quiet : Quiet log) : log.foldl Mark.note pending = pending := by
  induction log with
  | nil => rfl
  | cons mark log ih =>
    have neutral := quiet mark List.mem_cons_self
    have unchanged : mark.note pending = pending := by
      simp [Mark.note, neutral]
    rw [List.foldl_cons, unchanged]
    exact ih fun other member => quiet other (List.mem_cons_of_mem mark member)

theorem untaken_of_quiet (quiet : Quiet between) :
    untaken (before ++ .enqueued item :: between) = some item := by
  unfold untaken
  rw [List.foldl_append, List.foldl_cons]
  exact foldl_note_of_quiet quiet

/-- The pending item was pending from the start, or it was handed over and nothing
happened to it since. -/
theorem exists_of_foldl_note (found : log.foldl Mark.note pending = some item) :
    (∃ earlier between, log = earlier ++ .enqueued item :: between ∧ Quiet between) ∨
      pending = some item ∧ Quiet log := by
  induction log generalizing pending with
  | nil => exact .inr ⟨found, by simp [Quiet]⟩
  | cons mark log ih =>
    rw [List.foldl_cons] at found
    rcases ih found with ⟨earlier, between, rfl, quiet⟩ | ⟨noted, quiet⟩
    · exact .inl ⟨mark :: earlier, between, rfl, quiet⟩
    · cases enqueued : mark.enqueued? with
      | some other =>
        have same : other = item := by simpa [Mark.note, enqueued] using noted
        subst same
        cases mark with
        | enqueued other =>
          cases enqueued
          exact .inl ⟨[], log, rfl, quiet⟩
        | moved next events => cases enqueued
        | resolved => cases enqueued
      | none =>
        cases taken : mark.taken? with
        | some other => simp [Mark.note, enqueued, taken] at noted
        | none =>
          refine .inr ⟨by simpa [Mark.note, enqueued, taken] using noted, ?_⟩
          intro other member
          rcases List.mem_cons.mp member with rfl | member
          · exact ⟨enqueued, taken⟩
          · exact quiet other member

theorem exists_of_untaken (found : untaken log = some item) :
    ∃ earlier between, log = earlier ++ .enqueued item :: between ∧ Quiet between := by
  rcases exists_of_foldl_note found with handed | ⟨nothing, _⟩
  · exact handed
  · cases nothing

/-! ## One step -/

/-- The item that a task saves or waits to save again. -/
def heldBy? : Task ι → Option ι
  | .ready => none
  | .saving item _ | .waiting item _ => some item

/-- Some task saves the item or waits to save it again. -/
def Held (queue : Queue ι) (item : ι) : Prop :=
  ∃ task ∈ queue.tasks, heldBy? task = some item

/-- What the mark of a step says about the queues before and after it. -/
structure Traced (queue : Queue ι) (mark : Mark ι ε) (after : Queue ι) : Prop where
  pending : after.pending = mark.note queue.pending
  newest : ∀ item, mark.taken? = some item → queue.pending = some item
  attempted : ∀ item ∈ mark.attempts, mark.taken? = some item ∨ Held queue item
  held : ∀ item, Held after item →
    mark.taken? = some item ∨ mark.taken? = none ∧ Held queue item

theorem not_held_empty : ¬Held (empty : Queue ι) item := by
  rintro ⟨task, member, _⟩
  cases member

theorem held_busy_iff : Held (busy pending task) item ↔ heldBy? task = some item := by
  simp [Held, busy]

theorem not_held_relieved : ¬Held (relieved pending) item := by
  cases pending with
  | none => exact not_held_empty
  | some newest => simp [relieved, held_busy_iff, heldBy?]

/-- A report begins no save. -/
theorem saves_report {error : ε} {attempt : Nat} :
    (report rules error attempt).filterMap Event.saves? = ([] : List ι) := by
  unfold report
  split <;> rfl

/-- A move that takes nothing and begins no save, and after which the task holds the
same item as before, if any. -/
theorem traced_of_neutral {task : Task ι} (taken : (Mark.moved next events).taken? = none)
    (unsaved : events.filterMap Event.saves? = []) (same : after.pending = pending)
    (held : ∀ item, Held after item → heldBy? task = some item) :
    Traced (busy pending task) (.moved next events) after where
  pending := by rw [same]; simp [Mark.note, Mark.enqueued?, taken, busy]
  newest := by
    intro item found
    rw [taken] at found
    cases found
  attempted := by
    intro item member
    simp [Mark.attempts, unsaved] at member
  held := by
    intro item holding
    exact .inr ⟨taken, held_busy_iff.mpr (held item holding)⟩

theorem Change.traced (change : Change rules pending task next after events) :
    Traced (busy pending task) (.moved next events) after := by
  cases change with
  | @taken item newest =>
    subst newest
    constructor
    case pending => rfl
    case newest => exact fun _ same => same
    case attempted => exact fun other member => .inl (by simpa [Mark.attempts, Event.saves?,
      Mark.taken?, eq_comm] using member)
    case held => exact fun other holding => .inl (held_busy_iff.mp holding)
  | ended nothing =>
    exact traced_of_neutral rfl rfl nothing.symm fun _ held => absurd held not_held_empty
  | saved =>
    exact traced_of_neutral rfl rfl rfl fun _ held => by cases held_busy_iff.mp held
  | postponed told left =>
    refine traced_of_neutral rfl ?_ rfl ?_
    · rw [List.filterMap_append, saves_report]
      rfl
    · intro other holding
      have same := held_busy_iff.mp holding
      exact same
  | givenUp told exhausted =>
    exact traced_of_neutral rfl saves_report rfl fun _ held => by cases held_busy_iff.mp held
  | reportCrashed reports =>
    exact traced_of_neutral rfl saves_report (pending_relieved pending) fun _ held =>
      absurd held not_held_relieved
  | saveCrashed =>
    exact traced_of_neutral rfl rfl (pending_relieved pending) fun _ held =>
      absurd held not_held_relieved
  | @retried item attempt =>
    constructor
    case pending => rfl
    case newest => exact fun _ taken => by cases taken
    case attempted =>
      intro other member
      have same : other = item := by simpa [Mark.attempts, Event.saves?] using member
      exact .inr (held_busy_iff.mpr (same ▸ rfl))
    case held =>
      intro other holding
      have same := held_busy_iff.mp holding
      exact .inr ⟨rfl, held_busy_iff.mpr same⟩
  | waitCrashed =>
    exact traced_of_neutral rfl rfl (pending_relieved pending) fun _ held =>
      absurd held not_held_relieved

/-- Handing an item over leaves every task where it stands. -/
theorem held_enqueue (flight : Flight queue) {other : ι}
    (holding : Held (queue.enqueue item) other) : Held queue other := by
  cases flight with
  | grounded =>
    have atReady : Held (busy (some item) .ready) other := holding
    cases held_busy_iff.mp atReady
  | airborne pending task => exact holding

theorem Flight.traced (flight : Flight queue) (step : Step rules queue mark after) :
    Traced queue mark after := by
  cases step with
  | enqueue item =>
    constructor
    case pending =>
      cases flight <;> rfl
    case newest => exact fun _ taken => by cases taken
    case attempted => exact fun _ member => by cases member
    case held => exact fun _ holding => .inr ⟨rfl, held_enqueue flight holding⟩
  | resolve quiet =>
    constructor
    case pending => rfl
    case newest => exact fun _ taken => by cases taken
    case attempted => exact fun _ member => by cases member
    case held => exact fun _ holding => .inr ⟨rfl, holding⟩
  | move moved =>
    cases flight with
    | grounded => rw [not_move_empty] at moved; cases moved
    | airborne pending task => exact (change_of_move moved).traced

/-! ## Whole runs -/

/-- The pending item of a queue can be read off its log. -/
theorem Run.pending_eq (run : Run rules log queue) : queue.pending = untaken log := by
  induction run with
  | start => rfl
  | step run step ih => rw [(run.flight.traced step).pending, ih, untaken_concat]

theorem Run.last_take_of_held (run : Run rules log queue) (holding : Held queue item) :
    (takes log).getLast? = some item := by
  induction run with
  | start => exact absurd holding not_held_empty
  | step run step ih =>
    rcases (run.flight.traced step).held item holding with taken | ⟨untouched, earlier⟩
    · simp [taken]
    · simpa [untouched] using ih earlier

/-- Every part of a run up to some step is a run. -/
theorem Run.split (run : Run rules log queue) (parts : log = before ++ mark :: later) :
    ∃ earlier after, Run rules before earlier ∧ Step rules earlier mark after := by
  induction run generalizing later with
  | start => simp at parts
  | @step log last queue after run step ih =>
    rcases List.eq_nil_or_concat later with rfl | ⟨rest, final, rfl⟩
    · rcases List.append_inj' parts rfl with ⟨rfl, same⟩
      cases same
      exact ⟨queue, after, run, step⟩
    · rw [List.concat_eq_append, ← List.cons_append, ← List.append_assoc] at parts
      exact ih (List.append_inj' parts rfl).1

/-- What a task takes was handed over last, and after the take before. -/
theorem Run.newest_of_taken (run : Run rules log queue) (parts : log = before ++ mark :: later)
    (taken : mark.taken? = some item) : untaken before = some item := by
  rcases run.split parts with ⟨earlier, after, upTo, step⟩
  rw [← upTo.pending_eq]
  exact (upTo.flight.traced step).newest item taken

/-- Every save that begins is of the item that was taken last. -/
theorem Run.attempted_of_taken (run : Run rules log queue) (parts : log = before ++ mark :: later)
    (begins : item ∈ mark.attempts) (untouched : mark.taken? = none) :
    (takes before).getLast? = some item := by
  rcases run.split parts with ⟨earlier, after, upTo, step⟩
  rcases (upTo.flight.traced step).attempted item begins with taken | holding
  · rw [untouched] at taken
    cases taken
  · exact upTo.last_take_of_held holding

/-- The items that were taken and the pending one stand in the order in which they
were handed over, and the last of them was handed over last. -/
theorem Run.order (run : Run rules log queue) :
    List.Sublist (takes log ++ queue.pending.toList) (enqueues log) ∧
      (takes log ++ queue.pending.toList).getLast? = (enqueues log).getLast? := by
  induction run with
  | start => exact ⟨List.Sublist.refl [], rfl⟩
  | @step log mark queue after run step ih =>
    have traced := run.flight.traced step
    rcases ih with ⟨below, last⟩
    rw [takes_concat, enqueues_concat, traced.pending]
    cases mark with
    | enqueued item =>
      have taken : List.Sublist (takes log) (enqueues log) :=
        (List.sublist_append_left _ _).trans below
      simpa [Mark.taken?, Mark.enqueued?, Mark.note] using taken
    | resolved =>
      simp only [Mark.taken?, Mark.enqueued?, Mark.note, Option.toList_none, List.append_nil]
      exact ⟨below, last⟩
    | moved next events =>
      cases taken : (Mark.moved next events).taken? with
      | none =>
        simp only [Mark.enqueued?, Mark.note, taken, Option.toList_none, List.append_nil]
        exact ⟨below, last⟩
      | some item =>
        rw [traced.newest item taken] at below last
        simp only [Mark.enqueued?, Mark.note, taken, Option.toList_none, List.append_nil]
        exact ⟨below, last⟩

/-- A log is quiet, or it has a first mark that hands something over or takes it. -/
theorem quiet_or_exists (log : List (Mark ι ε)) :
    Quiet log ∨ ∃ between mark later, log = between ++ mark :: later ∧ Quiet between ∧
      ((∃ newer, mark = .enqueued newer) ∨ ∃ item, mark.taken? = some item) := by
  induction log with
  | nil => exact .inl (by simp [Quiet])
  | cons mark log ih =>
    cases taken : mark.taken? with
    | some item => exact .inr ⟨[], mark, log, rfl, by simp [Quiet], .inr ⟨item, taken⟩⟩
    | none =>
      cases enqueued : mark.enqueued? with
      | some newer =>
        cases mark with
        | enqueued other =>
          exact .inr ⟨[], .enqueued other, log, rfl, by simp [Quiet], .inl ⟨other, rfl⟩⟩
        | moved next events => cases enqueued
        | resolved => cases enqueued
      | none =>
        have quiet_cons : ∀ {rest}, Quiet rest → Quiet (mark :: rest) := by
          intro rest quiet other member
          rcases List.mem_cons.mp member with rfl | member
          · exact ⟨enqueued, taken⟩
          · exact quiet other member
        rcases ih with quiet | ⟨between, first, later, rfl, quiet, decisive⟩
        · exact .inl (quiet_cons quiet)
        · exact .inr ⟨mark :: between, first, later, rfl, quiet_cons quiet, decisive⟩

/-- What becomes of an item that is handed over. -/
theorem Run.fate (run : Run rules log queue) (parts : log = before ++ .enqueued item :: later) :
    TakenNext item later ∨ Superseded later ∨ Quiet later ∧ queue.pending = some item := by
  rcases quiet_or_exists later with quiet | ⟨between, mark, rest, rfl, quiet, decisive⟩
  · rw [run.pending_eq, parts]
    exact .inr (.inr ⟨quiet, untaken_of_quiet quiet⟩)
  · rcases decisive with ⟨newer, rfl⟩ | ⟨other, taken⟩
    · exact .inr (.inl ⟨between, newer, rest, rfl, quiet⟩)
    · have split : log = (before ++ .enqueued item :: between) ++ mark :: rest := by
        rw [parts, List.append_assoc, List.cons_append]
      have newest := run.newest_of_taken split taken
      rw [untaken_of_quiet quiet] at newest
      exact .inl ⟨between, mark, rest, rfl, quiet, newest ▸ taken⟩

/-- When nothing is pending, everything was taken or superseded. -/
theorem Run.drained (run : Run rules log queue) (nothing : queue.pending = none) :
    Drained log where
  last := by simpa [nothing] using run.order.2
  fate := by
    intro before item later parts
    rcases run.fate parts with taken | superseded | ⟨_, waits⟩
    · exact .inl taken
    · exact .inr superseded
    · rw [nothing] at waits
      cases waits

/-- A queue with the same pending item as at the end of a run is settled, if nothing
is pending whenever it is idle. -/
theorem Run.settled (run : Run rules log queue) {final : Queue ι}
    (same : final.pending = queue.pending) (idle : final.idle = true → queue.pending = none) :
    Settled log final where
  order := same ▸ run.order.1
  last := same ▸ run.order.2
  fate := by
    intro before item later parts
    rw [same]
    exact run.fate parts
  drained := fun quiet => run.drained (idle quiet)

theorem Flight.pending_of_idle (flight : Flight queue) (quiet : queue.idle = true) :
    queue.pending = none := by
  cases flight with
  | grounded => rfl
  | airborne pending task => cases quiet

theorem Flight.pending_shutDown (flight : Flight queue) :
    queue.shutDown.pending = queue.pending := by
  cases flight with
  | grounded => rfl
  | airborne pending task => cases pending <;> rfl

/-- The move is a crash of the task. -/
def Move.crashes (rules : Rules) : Move ε → Bool
  | .take => false
  | .endSave .saved => false
  | .endSave (.failed _ crashes) => rules.reports && crashes
  | .endSave .crashed => true
  | .endWait crashes => crashes

/-- After a crash a new task is about to take what is pending. -/
theorem Change.eq_relieved (change : Change rules pending task next after events)
    (crashes : next.crashes rules = true) : after = relieved pending := by
  cases change with
  | taken newest => cases crashes
  | ended nothing => cases crashes
  | saved => cases crashes
  | postponed told left => exact absurd (by simpa [Move.crashes] using crashes) told
  | givenUp told exhausted => exact absurd (by simpa [Move.crashes] using crashes) told
  | reportCrashed reports => rfl
  | saveCrashed => rfl
  | retried => cases crashes
  | waitCrashed => rfl

/-! ## Items with numbers -/

/-- Changes the item of a task. -/
def mapTask (f : ι → κ) : Task ι → Task κ
  | .ready => .ready
  | .saving item attempt => .saving (f item) attempt
  | .waiting item attempt => .waiting (f item) attempt

/-- Changes the item of an event. -/
def Event.map (f : ι → κ) : Event ι ε → Event κ ε
  | .save item => .save (f item)
  | .failed error left => .failed error left
  | .wait delay => .wait delay

/-- Changes the items of a mark. -/
def Mark.map (f : ι → κ) : Mark ι ε → Mark κ ε
  | .enqueued item => .enqueued (f item)
  | .moved next events => .moved next (events.map (Event.map f))
  | .resolved => .resolved

/-- Changes every item in a queue. -/
def map (f : ι → κ) (queue : Queue ι) : Queue κ where
  pending := queue.pending.map f
  inFlight := queue.inFlight
  idle := queue.idle
  tasks := queue.tasks.map (mapTask f)

theorem map_enqueue (f : ι → κ) (queue : Queue ι) (item : ι) :
    (queue.enqueue item).map f = (queue.map f).enqueue (f item) := by
  cases flying : queue.inFlight <;> simp [enqueue, map, flying, mapTask]

theorem map_retire (f : ι → κ) (queue : Queue ι) (index : Nat) :
    (queue.retire index).map f = (queue.map f).retire index := by
  simp [retire, map, List.eraseIdx_map]

theorem map_setTask (f : ι → κ) (queue : Queue ι) (index : Nat) (task : Task ι) :
    (queue.setTask index task).map f = (queue.map f).setTask index (mapTask f task) := by
  simp [setTask, map, List.map_set]

theorem map_crash (f : ι → κ) (queue : Queue ι) (index : Nat) :
    (queue.crash index).map f = (queue.map f).crash index := by
  cases waits : queue.pending with
  | none =>
    have mapped : (queue.map f).pending = none := by simp [map, waits]
    simp only [crash, waits, mapped]
    exact map_retire f queue index
  | some item => simp [crash, map, waits, mapTask, List.eraseIdx_map]

/-- Changes what a move gives. -/
def mapMoved (f : ι → κ) (moved : Queue ι × List (Event ι ε)) : Queue κ × List (Event κ ε) :=
  (moved.1.map f, moved.2.map (Event.map f))

theorem mapMoved_take (f : ι → κ) (queue : Queue ι) (index : Nat) :
    mapMoved f (queue.take index : Queue ι × List (Event ι ε)) = (queue.map f).take index := by
  cases waits : queue.pending with
  | none =>
    have mapped : (queue.map f).pending = none := by simp [map, waits]
    simp [take, waits, mapped, mapMoved, map_retire]
  | some item =>
    have mapped : (queue.map f).pending = some (f item) := by simp [map, waits]
    simp only [take, waits, mapped, mapMoved, map_setTask]
    rfl

theorem mapMoved_fail (f : ι → κ) (queue : Queue ι) (index : Nat) (item : ι) (attempt : Nat)
    (error : ε) (crashes : Bool) :
    mapMoved f (queue.fail rules index item attempt error crashes) =
      (queue.map f).fail rules index (f item) attempt error crashes := by
  unfold fail
  dsimp only
  split
  · split <;> simp [mapMoved, map_crash, Event.map]
  · split
    · split <;> simp [mapMoved, map_setTask, mapTask, Event.map]
    · split <;> simp [mapMoved, map_setTask, mapTask, Event.map]

/-- A queue does not look at its items. -/
theorem move_map (f : ι → κ) (queue : Queue ι) (index : Nat) (next : Move ε) :
    (queue.map f).move rules index next = (queue.move rules index next).map (mapMoved f) := by
  have standing : (queue.map f).tasks[index]? = queue.tasks[index]?.map (mapTask f) := by
    simp [map]
  unfold move
  rw [standing]
  cases queue.tasks[index]? with
  | none => rfl
  | some task =>
    cases task with
    | ready =>
      cases next with
      | take => exact congrArg some (mapMoved_take f queue index).symm
      | endSave outcome => rfl
      | endWait crashes => rfl
    | saving item attempt =>
      cases next with
      | take => rfl
      | endWait crashes => rfl
      | endSave outcome =>
        cases outcome with
        | saved => simp [mapMoved, map_setTask, mapTask]
        | failed error crashes =>
          exact congrArg some (mapMoved_fail f queue index item attempt error crashes).symm
        | crashed => simp [mapMoved, map_crash, mapTask]
    | waiting item attempt =>
      cases next with
      | take => rfl
      | endSave outcome => rfl
      | endWait crashes =>
        cases crashes with
        | false => simp [mapMoved, map_setTask, mapTask, Event.map]
        | true => simp [mapMoved, map_crash, mapTask]

/-- Every run is a run of numbered items without their numbers. -/
theorem Run.numbered (run : Run rules log queue) :
    ∃ (numbers : List (Mark (ι × Nat) ε)) (counted : Queue (ι × Nat)),
      Run rules numbers counted ∧ log = numbers.map (Mark.map Prod.fst) ∧
      queue = counted.map Prod.fst ∧ enqueues numbers = (enqueues log).zipIdx := by
  induction run with
  | start => exact ⟨[], .empty, .start, rfl, rfl, rfl⟩
  | @step log mark queue after run step ih =>
    rcases ih with ⟨numbers, counted, numberedRun, rfl, rfl, zipped⟩
    cases step with
    | enqueue item =>
      refine ⟨numbers ++ [.enqueued (item, (enqueues numbers).length)], _,
        numberedRun.step (.enqueue _), ?_, ?_, ?_⟩
      · simp [Mark.map]
      · rw [map_enqueue]
      · rw [enqueues_concat, enqueues_concat, List.zipIdx_append, zipped]
        simp [Mark.enqueued?]
    | resolve quiet =>
      have stillQuiet : counted.idle = true := quiet
      refine ⟨numbers ++ [.resolved], counted, numberedRun.step (.resolve stillQuiet), ?_, rfl, ?_⟩
      · simp [Mark.map]
      · simpa [Mark.enqueued?] using zipped
    | @move _ index next events moved =>
      rw [move_map, Option.map_eq_some_iff] at moved
      rcases moved with ⟨⟨latter, begun⟩, done, same⟩
      cases same
      refine ⟨numbers ++ [.moved next begun], latter, numberedRun.step (.move done), ?_, rfl, ?_⟩
      · simp [Mark.map]
      · simpa [Mark.enqueued?] using zipped

/-- The log of a run tells that no newest item is lost.

A take is of the item that was handed over last, after the take before; every other
save that begins is of the item that was taken last.  The items stand in order and
each of them was taken, superseded or is pending, also after the queue is shut down;
nothing is left when it is idle, as it is whenever someone who waited for that goes
on.  A crash loses nothing that is pending: a new task stands ready to take it.  And
with numbered items, which are all different, none is taken twice. -/
theorem run_keeps_newest (run : Run rules log queue) :
    (∀ before mark later item, log = before ++ mark :: later → mark.taken? = some item →
      ∃ earlier between, before = earlier ++ .enqueued item :: between ∧ Quiet between) ∧
    (∀ before mark later item, log = before ++ mark :: later → item ∈ mark.attempts →
      mark.taken? = none → (takes before).getLast? = some item) ∧
    Settled log queue ∧ Settled log queue.shutDown ∧
    (∀ before later, log = before ++ .resolved :: later → Drained before) ∧
    (∀ index (next : Move ε) after events, queue.move rules index next = some (after, events) →
      next.crashes rules = true →
      after.pending = queue.pending ∧ (after.idle = true ↔ queue.pending = none) ∧
        (queue.pending ≠ none → after.tasks = [.ready])) ∧
    ∃ (numbers : List (Mark (ι × Nat) ε)) (counted : Queue (ι × Nat)),
      Run rules numbers counted ∧ log = numbers.map (Mark.map Prod.fst) ∧
      queue = counted.map Prod.fst ∧ enqueues numbers = (enqueues log).zipIdx ∧
      ((takes numbers ++ counted.pending.toList).map Prod.snd).Nodup := by
  refine ⟨?_, ?_, ?_, ?_, ?_, ?_, ?_⟩
  · intro before mark later item parts taken
    exact exists_of_untaken (run.newest_of_taken parts taken)
  · intro before mark later item parts begins untouched
    exact run.attempted_of_taken parts begins untouched
  · exact run.settled rfl run.flight.pending_of_idle
  · exact run.settled run.flight.pending_shutDown run.flight.idle_shutDown.mp
  · intro before later parts
    rcases run.split parts with ⟨earlier, after, upTo, step⟩
    cases step with
    | resolve quiet => exact upTo.drained (upTo.flight.pending_of_idle quiet)
  · intro index next after events moved crashes
    cases run.flight with
    | grounded => rw [not_move_empty] at moved; cases moved
    | airborne pending task =>
      rw [(change_of_move moved).eq_relieved crashes]
      cases pending with
      | none => exact ⟨rfl, ⟨fun _ => rfl, fun _ => rfl⟩, fun waits => absurd rfl waits⟩
      | some item => exact ⟨rfl, by simp [relieved, busy], fun _ => rfl⟩
  · rcases run.numbered with ⟨numbers, counted, numberedRun, same, sameQueue, zipped⟩
    have below := numberedRun.order.1.map Prod.snd
    rw [zipped, List.zipIdx_map_snd] at below
    exact ⟨numbers, counted, numberedRun, same, sameQueue, zipped, (List.nodup_range' 1).sublist below⟩

/-- The save of an item crashes after two others have been handed over. -/
theorem run_keeps_newest_after_crash :
    ∃ (log : List (Mark Nat String)) (queue : Queue Nat),
      Run ⟨.standard, true⟩ log queue ∧ queue.idle = true ∧
      enqueues log = [1, 2, 3] ∧ takes log = [1, 3] ∧ Drained log := by
  have begun : Run ⟨.standard, true⟩ ([] ++ [.enqueued 1] ++ [.moved .take [.save 1]])
      (busy none (.saving 1 0) : Queue Nat) :=
    .step (.step .start (.enqueue 1))
      (.move (show move ⟨.standard, true⟩ 0 (.take : Move String) (busy (some 1) .ready) = _ from rfl))
  have crashed := ((begun.step (.enqueue 2)).step (.enqueue 3)).step
    (.move (show move _ 0 (.endSave .crashed) (busy (some 3) (.saving 1 0)) = _ from rfl))
  have saved := (crashed.step
    (.move (show move _ 0 .take (busy (some 3) .ready) = _ from rfl))).step
    (.move (show move _ 0 (.endSave .saved) (busy none (.saving 3 0)) = _ from rfl))
  have ended := saved.step (.move (show move _ 0 .take (busy none .ready) = _ from rfl))
  exact ⟨_, _, ended, rfl, rfl, rfl, (run_keeps_newest ended).2.2.1.drained rfl⟩

end Queue
end SaveTree
