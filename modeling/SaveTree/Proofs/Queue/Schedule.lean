import Mathlib.Data.List.Induction
import SaveTree.Proofs.Queue.History

namespace SaveTree
namespace Queue

/-!
# The attempts at one item

From the moment an item is taken until the task looks for the next one, all that the task
does is told by how the saves end.  The item is saved again and again until a save
succeeds or no attempt is left; each failure is reported, and after each but the last a
delay follows.  Items that are handed over meanwhile have to wait and change nothing.

A run is followed from the take on, mark by mark.  Its invariant is where the task stands
and what it has done for the attempts that have ended.
-/

variable {ι ε : Type}

/-- The number of attempts at an item: up to the first save that succeeds, or all of them. -/
def attempts (retries : Nat) (outcomes : Nat → Except ε Unit) : Nat :=
  match (List.range (retries + 1)).find? fun attempt => (outcomes attempt).isOk with
  | some first => first + 1
  | none => retries + 1

/-- The events of one attempt. -/
def attemptEvents (rules : Rules) (item : ι) (attempt : Nat) : Except ε Unit → List (Event ι ε)
  | .ok () => [.save item]
  | .error error =>
    .save item :: report rules error attempt ++
      if attempt < rules.retry.maxRetries.toNat then [.wait (rules.retry.delay attempt)] else []

/-- The events of the first attempts. -/
def eventsUpTo (rules : Rules) (item : ι) (outcomes : Nat → Except ε Unit) (count : Nat) :
    List (Event ι ε) :=
  (List.range count).flatMap fun attempt => attemptEvents rules item attempt (outcomes attempt)

/-- The events of all attempts at an item. -/
def schedule (rules : Rules) (item : ι) (outcomes : Nat → Except ε Unit) : List (Event ι ε) :=
  eventsUpTo rules item outcomes (attempts rules.retry.maxRetries.toNat outcomes)

/-! ## Reading a stretch of a log -/

/-- How a save ended, if it did without a crash. -/
def Move.result? : Move ε → Option (Except ε Unit)
  | .endSave .saved => some (.ok ())
  | .endSave (.failed error _) => some (.error error)
  | .endSave .crashed | .take | .endWait _ => none

namespace Mark

/-- What is begun or reported. -/
def events : Mark ι ε → List (Event ι ε)
  | .moved _ events => events
  | .enqueued _ | .resolved => []

/-- How a save ended. -/
def result? : Mark ι ε → Option (Except ε Unit)
  | .moved next _ => next.result?
  | .enqueued _ | .resolved => none

/-- The task neither looks for an item nor crashes. -/
def Steady (rules : Rules) : Mark ι ε → Prop
  | .moved next _ => next ≠ .take ∧ next.crashes rules = false
  | .enqueued _ | .resolved => True

end Mark

/-- All events, in order. -/
def trace (log : List (Mark ι ε)) : List (Event ι ε) :=
  log.flatMap Mark.events

/-- How the saves ended, in order. -/
def results (log : List (Mark ι ε)) : List (Except ε Unit) :=
  log.filterMap Mark.result?

/-- The saves ended as they should, as far as they did. -/
def EndAs (outcomes : Nat → Except ε Unit) (results : List (Except ε Unit)) : Prop :=
  results = (List.range results.length).map outcomes

variable {rules : Rules} {item : ι} {outcomes : Nat → Except ε Unit} {retries count ended : Nat}
  {pending : Option ι} {task : Task ι} {next : Move ε} {queue after : Queue ι}
  {events more : List (Event ι ε)} {log before stretch : List (Mark ι ε)} {mark : Mark ι ε}

/-! ## Counting attempts -/

theorem attempts_of_success (failed : ∀ attempt < count, (outcomes attempt).isOk = false)
    (succeeds : (outcomes count).isOk = true) (left : count ≤ retries) :
    attempts retries outcomes = count + 1 := by
  have first : (List.range (retries + 1)).find? (fun attempt => (outcomes attempt).isOk) =
      some count := by
    rw [List.find?_range_eq_some]
    refine ⟨succeeds, List.mem_range.mpr (Nat.lt_succ_of_le left), ?_⟩
    intro attempt earlier
    rw [failed attempt earlier]
    rfl
  rw [attempts, first]

theorem attempts_of_failures (failed : ∀ attempt ≤ retries, (outcomes attempt).isOk = false) :
    attempts retries outcomes = retries + 1 := by
  have none : (List.range (retries + 1)).find? (fun attempt => (outcomes attempt).isOk) = none := by
    rw [List.find?_range_eq_none]
    intro attempt early
    rw [failed attempt (Nat.le_of_lt_succ early)]
    rfl
  rw [attempts, none]

theorem attempts_le (retries : Nat) (outcomes : Nat → Except ε Unit) :
    attempts retries outcomes ≤ retries + 1 := by
  rw [attempts]
  split
  · rename_i first found
    exact List.mem_range.mp (List.mem_of_find?_eq_some found)
  · exact Nat.le_refl _

/-- Another attempt follows as long as all have failed and some are left. -/
theorem lt_attempts (failed : ∀ attempt < count, (outcomes attempt).isOk = false)
    (left : count ≤ retries) : count < attempts retries outcomes := by
  rw [attempts]
  split
  · rename_i first found
    have succeeds : (outcomes first).isOk = true := (List.find?_range_eq_some.mp found).1
    apply Nat.lt_succ_of_le
    apply Nat.le_of_not_lt
    intro earlier
    rw [failed first earlier] at succeeds
    cases succeeds
  · exact Nat.lt_succ_of_le left

/-! ## Events of attempts -/

theorem eventsUpTo_succ (count : Nat) :
    eventsUpTo rules item outcomes (count + 1) =
      eventsUpTo rules item outcomes count ++ attemptEvents rules item count (outcomes count) := by
  rw [eventsUpTo, List.range_succ, List.flatMap_append, List.flatMap_singleton]
  rfl

theorem eventsUpTo_isPrefix {fewer many : Nat} (le : fewer ≤ many) :
    eventsUpTo rules item outcomes fewer <+: eventsUpTo rules item outcomes many := by
  induction le with
  | refl => exact List.prefix_refl _
  | @step many _ ih => exact ih.trans (eventsUpTo_succ many ▸ List.prefix_append _ _)

theorem attemptEvents_cons (rules : Rules) (item : ι) (attempt : Nat) (result : Except ε Unit) :
    ∃ rest, attemptEvents rules item attempt result = .save item :: rest := by
  cases result with
  | ok value => exact ⟨[], rfl⟩
  | error error => exact ⟨_, rfl⟩

/-! ## The invariant -/

/-- Where the task stands that has taken an item, the number of attempts that have ended,
and all events so far. -/
inductive Progress (rules : Rules) (item : ι) (outcomes : Nat → Except ε Unit) :
    Nat → List (Event ι ε) → Task ι → Prop where
  | saving {count : Nat} (left : count ≤ rules.retry.maxRetries.toNat)
      (failed : ∀ attempt < count, (outcomes attempt).isOk = false) :
      Progress rules item outcomes count (eventsUpTo rules item outcomes count ++ [.save item])
        (.saving item count)
  | waiting {count : Nat} (left : count < rules.retry.maxRetries.toNat)
      (failed : ∀ attempt < count + 1, (outcomes attempt).isOk = false) :
      Progress rules item outcomes (count + 1) (eventsUpTo rules item outcomes (count + 1))
        (.waiting item count)
  | settled : Progress rules item outcomes (attempts rules.retry.maxRetries.toNat outcomes)
      (schedule rules item outcomes) .ready

/-- The moves that a task may need to be done with its item. -/
def movesLeft (rules : Rules) : Task ι → Nat
  | .ready => 0
  | .saving _ attempt => 2 * (rules.retry.maxRetries.toNat - attempt) + 1
  | .waiting _ attempt => 2 * (rules.retry.maxRetries.toNat - attempt)

theorem failed_succ {error : ε} (failed : ∀ attempt < count, (outcomes attempt).isOk = false)
    (fails : outcomes count = .error error) :
    ∀ attempt < count + 1, (outcomes attempt).isOk = false := by
  intro attempt bound
  rcases Nat.lt_succ_iff_lt_or_eq.mp bound with earlier | rfl
  · exact failed attempt earlier
  · rw [fails]
    rfl

/-- One move of the task, which brings it closer to the end. -/
theorem Progress.move (progress : Progress rules item outcomes ended events task)
    (change : Change rules pending task next after more) (steady : (Mark.moved next more).Steady rules)
    (ends : ∀ result, next.result? = some result → outcomes ended = result) :
    ∃ taskAfter, after = busy pending taskAfter ∧
      Progress rules item outcomes (ended + next.result?.toList.length) (events ++ more) taskAfter ∧
      movesLeft rules taskAfter < movesLeft rules task := by
  rcases steady with ⟨notTake, calm⟩
  cases change with
  | taken newest => exact absurd rfl notTake
  | ended nothing => exact absurd rfl notTake
  | reportCrashed reports => simp [Move.crashes, reports] at calm
  | saveCrashed => cases calm
  | waitCrashed => cases calm
  | saved =>
    cases progress with
    | saving left failed =>
      have succeeds := ends _ rfl
      have last : attempts rules.retry.maxRetries.toNat outcomes = ended + 1 :=
        attempts_of_success failed (by rw [succeeds]; rfl) left
      have whole : schedule rules item outcomes =
          eventsUpTo rules item outcomes ended ++ [.save item] := by
        rw [schedule, last, eventsUpTo_succ, succeeds]
        rfl
      refine ⟨.ready, rfl, ?_, Nat.succ_pos _⟩
      rw [List.append_nil, ← whole]
      exact last ▸ .settled
  | @postponed _ _ error _ told left =>
    cases progress with
    | saving _ failed =>
      have fails := ends _ rfl
      have done : eventsUpTo rules item outcomes ended ++ [.save item] ++
          (report rules error ended ++ [.wait (rules.retry.delay ended)]) =
            eventsUpTo rules item outcomes (ended + 1) := by
        rw [eventsUpTo_succ, fails, attemptEvents, if_pos left]
        simp
      refine ⟨.waiting item ended, rfl, ?_, Nat.lt_succ_self _⟩
      rw [done]
      exact .waiting left (failed_succ failed fails)
  | @givenUp _ _ error _ told exhausted =>
    cases progress with
    | saving left failed =>
      have fails := ends _ rfl
      -- none is left, and before no more than all have been made
      have atLast : rules.retry.maxRetries.toNat = ended := Nat.le_antisymm exhausted left
      have last : attempts rules.retry.maxRetries.toNat outcomes = ended + 1 := by
        rw [attempts_of_failures, atLast]
        intro attempt bound
        exact failed_succ failed fails attempt (by omega)
      have whole : eventsUpTo rules item outcomes ended ++ [.save item] ++ report rules error ended =
          schedule rules item outcomes := by
        rw [schedule, last, eventsUpTo_succ, fails, attemptEvents, if_neg (Nat.not_lt.mpr exhausted)]
        simp
      refine ⟨.ready, rfl, ?_, Nat.succ_pos _⟩
      rw [whole]
      exact last ▸ .settled
  | retried =>
    cases progress with
    | waiting left failed =>
      refine ⟨_, rfl, .saving left failed, ?_⟩
      rw [movesLeft, movesLeft]
      omega

theorem Progress.ended_le (progress : Progress rules item outcomes ended events task) :
    ended ≤ attempts rules.retry.maxRetries.toNat outcomes := by
  cases progress with
  | saving left failed => exact Nat.le_of_lt (lt_attempts failed left)
  | waiting left failed => exact Nat.le_of_lt (lt_attempts failed left)
  | settled => exact Nat.le_refl _

/-- The task is done with the item when the last attempt has ended. -/
theorem Progress.ready_iff (progress : Progress rules item outcomes ended events task) :
    task = .ready ↔ ended = attempts rules.retry.maxRetries.toNat outcomes := by
  cases progress with
  | saving left failed =>
    refine iff_of_false ?_ (Nat.ne_of_lt (lt_attempts failed left))
    intro same
    cases same
  | waiting left failed =>
    refine iff_of_false ?_ (Nat.ne_of_lt (lt_attempts failed left))
    intro same
    cases same
  | settled => exact iff_of_true rfl rfl

theorem Progress.of_ready (progress : Progress rules item outcomes ended events .ready) :
    events = schedule rules item outcomes := by
  cases progress
  rfl

theorem Progress.of_saving {held : ι} {attempt : Nat}
    (progress : Progress rules item outcomes ended events (.saving held attempt)) :
    held = item ∧ attempt = ended ∧ attempt ≤ rules.retry.maxRetries.toNat := by
  cases progress with
  | saving left failed => exact ⟨rfl, rfl, left⟩

theorem Progress.isPrefix (progress : Progress rules item outcomes ended events task) :
    events <+: schedule rules item outcomes := by
  cases progress with
  | saving left failed =>
    rcases attemptEvents_cons rules item ended (outcomes ended) with ⟨rest, begins⟩
    have begun : eventsUpTo rules item outcomes ended ++ [.save item] <+:
        eventsUpTo rules item outcomes (ended + 1) := by
      rw [eventsUpTo_succ, begins, List.append_cons _ _ rest]
      exact List.prefix_append _ _
    exact begun.trans (eventsUpTo_isPrefix (lt_attempts failed left))
  | waiting left failed => exact eventsUpTo_isPrefix (Nat.le_of_lt (lt_attempts failed left))
  | settled => exact List.prefix_refl _

/-- Only a task that is ready takes something. -/
theorem Change.ready_of_take (change : Change rules pending task (.take : Move ε) after events) :
    task = .ready := by
  cases change <;> rfl

/-! ## Following a run -/

theorem endAs_concat {list : List (Except ε Unit)} {result : Except ε Unit} :
    EndAs outcomes (list ++ [result]) ↔ EndAs outcomes list ∧ outcomes list.length = result := by
  rw [EndAs, EndAs, List.length_append, List.length_singleton, List.range_succ, List.map_append]
  constructor
  · intro ends
    rcases List.append_inj' ends rfl with ⟨early, last⟩
    cases last
    exact ⟨early, rfl⟩
  · rintro ⟨early, rfl⟩
    rw [← early]
    rfl

theorem Run.of_concat (run : Run rules (log ++ [mark]) after) :
    ∃ queue, Run rules log queue ∧ Step rules queue mark after := by
  generalize whole : log ++ [mark] = all at run
  cases run with
  | start => simp at whole
  | @step earlier last queue _ run step =>
    rcases List.append_inj' whole rfl with ⟨rfl, same⟩
    cases same
    exact ⟨queue, run, step⟩

theorem trace_concat : trace (log ++ [mark]) = trace log ++ mark.events := by
  rw [trace, List.flatMap_append, List.flatMap_singleton]
  rfl

theorem results_concat : results (log ++ [mark]) = results log ++ mark.result?.toList := by
  cases found : mark.result? <;> simp [results, found]

/-- The saves of a longer stretch ended as they should just if those of the shorter one
did and the last mark does not tell otherwise. -/
theorem endAs_results_concat :
    EndAs outcomes (results (log ++ [mark])) ↔
      EndAs outcomes (results log) ∧
        ∀ result, mark.result? = some result → outcomes (results log).length = result := by
  rw [results_concat]
  cases mark.result? with
  | none => simp
  | some result => simp [endAs_concat]

/-- The run of a task from the moment it takes an item on. -/
theorem Run.progress
    (run : Run rules (before ++ .moved .take [.save item] :: stretch) queue)
    (steady : ∀ mark ∈ stretch, mark.Steady rules) (ends : EndAs outcomes (results stretch)) :
    ∃ pending task, queue = busy pending task ∧
      Progress rules item outcomes (results stretch).length (.save item :: trace stretch) task := by
  -- the stretch grows at its end, as runs do
  induction stretch using List.reverseRecOn generalizing queue with
  | nil =>
    rcases run.of_concat with ⟨earlier, reached, step⟩
    cases step with
    | move moved =>
      cases reached.flight with
      | grounded => rw [not_move_empty] at moved; cases moved
      | airborne pending task =>
        cases change_of_move moved with
        | taken newest => exact ⟨none, _, rfl, .saving (Nat.zero_le _) (fun _ early => by cases early)⟩
  | append_singleton stretch mark ih =>
    rw [← List.cons_append, ← List.append_assoc] at run
    rw [endAs_results_concat] at ends
    rcases run.of_concat with ⟨earlier, reached, step⟩
    rcases ih reached (fun other member => steady other (List.mem_append_left _ member)) ends.1 with
      ⟨pending, task, rfl, progress⟩
    have here := steady mark List.mem_concat_self
    rw [results_concat, trace_concat, ← List.cons_append, List.length_append]
    cases step with
    | enqueue newer => exact ⟨some newer, task, rfl, by simpa [Mark.result?, Mark.events] using progress⟩
    | resolve quiet => cases quiet
    | move moved =>
      rcases progress.move (change_of_move moved) here ends.2 with ⟨taskAfter, rfl, further, _⟩
      exact ⟨pending, taskAfter, rfl, further⟩

/-! ## Coming to an end -/

/-- A task that is not done with its item can move, however its next save ends. -/
theorem Progress.exists_move (progress : Progress rules item outcomes ended events task)
    (working : task ≠ .ready) (pending : Option ι) :
    ∃ next after more, (busy pending task).move rules 0 next = some (after, more) ∧
      (Mark.moved next more).Steady rules ∧
      ∀ result, next.result? = some result → outcomes ended = result := by
  cases progress with
  | settled => exact absurd rfl working
  | waiting left failed =>
    exact ⟨.endWait false, _, _, rfl, ⟨by simp, rfl⟩, by simp [Move.result?]⟩
  | saving left failed =>
    cases outcomes ended with
    | ok value => exact ⟨.endSave .saved, _, _, rfl, ⟨by simp, rfl⟩, by simp [Move.result?]⟩
    | error error =>
      let failing := (busy pending (.saving item ended)).fail rules 0 item ended error false
      exact ⟨.endSave (.failed error false), failing.1, failing.2, rfl,
        ⟨by simp, by simp [Move.crashes]⟩, by simp [Move.result?]⟩

/-- A run can be continued by one move of a task that is not done with its item. -/
theorem Run.exists_longer
    (run : Run rules (before ++ .moved .take [.save item] :: stretch) (busy pending task))
    (progress : Progress rules item outcomes (results stretch).length (.save item :: trace stretch) task)
    (ends : EndAs outcomes (results stretch)) (working : task ≠ .ready) :
    ∃ mark taskAfter,
      Run rules (before ++ .moved .take [.save item] :: (stretch ++ [mark])) (busy pending taskAfter) ∧
      Progress rules item outcomes (results (stretch ++ [mark])).length
        (.save item :: trace (stretch ++ [mark])) taskAfter ∧
      mark.Steady rules ∧ mark.enqueued? = none ∧ EndAs outcomes (results (stretch ++ [mark])) ∧
      movesLeft rules taskAfter < movesLeft rules task := by
  rcases progress.exists_move working pending with ⟨next, after, more, moved, calm, agrees⟩
  rcases progress.move (change_of_move moved) calm agrees with ⟨taskAfter, rfl, further, closer⟩
  refine ⟨.moved next more, taskAfter, ?_, ?_, calm, rfl, endAs_results_concat.mpr ⟨ends, agrees⟩, closer⟩
  · rw [← List.cons_append, ← List.append_assoc]
    exact run.step (.move moved)
  · rw [results_concat, trace_concat, List.length_append]
    exact further

/-- A run can always be continued until the task is done with its item, without anything
else being handed over. -/
theorem Run.exists_ready
    (run : Run rules (before ++ .moved .take [.save item] :: stretch) queue)
    (steady : ∀ mark ∈ stretch, mark.Steady rules) (ends : EndAs outcomes (results stretch)) :
    ∃ rest final, Run rules (before ++ .moved .take [.save item] :: (stretch ++ rest)) final ∧
      (∀ mark ∈ rest, mark.Steady rules) ∧ enqueues rest = [] ∧
      EndAs outcomes (results (stretch ++ rest)) ∧ final.tasks = [.ready] := by
  rcases run.progress steady ends with ⟨pending, task, rfl, progress⟩
  clear steady
  generalize bound : movesLeft rules task = moves
  induction moves using Nat.strongRecOn generalizing stretch task with
  | ind moves ih =>
    by_cases ready : task = .ready
    · refine ⟨[], _, by rwa [List.append_nil], by simp, rfl, by rwa [List.append_nil], ?_⟩
      rw [ready]
      rfl
    · rcases run.exists_longer progress ends ready with
        ⟨mark, taskAfter, longer, further, calm, silent, endsLonger, closer⟩
      rcases ih _ (bound ▸ closer) endsLonger _ further longer rfl with
        ⟨rest, final, runs, steady, nothing, endsRest, done⟩
      rw [List.append_assoc] at runs endsRest
      refine ⟨mark :: rest, final, runs, List.forall_mem_cons.mpr ⟨calm, steady⟩, ?_, endsRest, done⟩
      rw [enqueues, List.filterMap_cons_none silent]
      exact nothing

/-- What a task does with an item that it has taken, until it looks for the next one, if
nothing crashes.  The saves may end in any way and anything may be handed over meanwhile.

There are no more attempts than the rules allow, so the number of those left is never
negative.  The events are those of the schedule as far as the task has come.  When the last
attempt has ended, and not before, the task looks for the next item, and then the events
are the whole schedule.  It can always come that far. -/
theorem run_follows_schedule
    (run : Run rules (before ++ .moved .take [.save item] :: stretch) queue)
    (steady : ∀ mark ∈ stretch, mark.Steady rules) (ends : EndAs outcomes (results stretch)) :
    attempts rules.retry.maxRetries.toNat outcomes ≤ rules.retry.maxRetries.toNat + 1 ∧
    (∀ held attempt, queue.tasks = [.saving held attempt] →
      held = item ∧ attempt = (results stretch).length ∧ attempt ≤ rules.retry.maxRetries.toNat) ∧
    .save item :: trace stretch <+: schedule rules item outcomes ∧
    (results stretch).length ≤ attempts rules.retry.maxRetries.toNat outcomes ∧
    (queue.tasks = [.ready] ↔
      (results stretch).length = attempts rules.retry.maxRetries.toNat outcomes) ∧
    (queue.tasks = [.ready] → .save item :: trace stretch = schedule rules item outcomes) ∧
    (∀ (more : List (Event ι ε)) after, Step rules queue (.moved .take more) after →
      queue.tasks = [.ready]) ∧
    ∃ rest final, Run rules (before ++ .moved .take [.save item] :: (stretch ++ rest)) final ∧
      (∀ mark ∈ rest, mark.Steady rules) ∧ enqueues rest = [] ∧
      EndAs outcomes (results (stretch ++ rest)) ∧ final.tasks = [.ready] := by
  rcases run.progress steady ends with ⟨pending, task, rfl, progress⟩
  refine ⟨attempts_le _ _, ?_, progress.isPrefix, progress.ended_le, ?_, ?_, ?_,
    run.exists_ready steady ends⟩
  · intro held attempt saves
    cases List.singleton_inj.mp saves
    exact progress.of_saving
  · rw [← progress.ready_iff]
    exact List.singleton_inj
  · intro ready
    cases List.singleton_inj.mp ready
    exact progress.of_ready
  · intro more after step
    cases step with
    | move moved => rw [(change_of_move moved).ready_of_take]; rfl

/-- Both attempts at an item fail while two others are handed over. -/
theorem run_follows_schedule_to_the_end :
    ∃ (stretch : List (Mark Nat String)) (queue : Queue Nat),
      Run ⟨⟨1, 500⟩, true⟩ ([.enqueued 1] ++ .moved .take [.save 1] :: stretch) queue ∧
      enqueues stretch = [2, 3] ∧ queue.pending = some 3 ∧
      .save 1 :: trace stretch = schedule ⟨⟨1, 500⟩, true⟩ 1 (fun _ => .error "full") ∧
      schedule ⟨⟨1, 500⟩, true⟩ 1 (fun _ => .error "full") =
        [.save 1, .failed "full" 1, .wait 500, .save 1, .failed "full" 0] := by
  let rules : Rules := ⟨⟨1, 500⟩, true⟩
  let fails : Move String := .endSave (.failed "full" false)
  let stretch : List (Mark Nat String) :=
    [.enqueued 2, .moved fails [.failed "full" 1, .wait (rules.retry.delay 0)],
      .moved (.endWait false) [.save 1], .enqueued 3, .moved fails [.failed "full" 0]]
  have begun : Run rules ([] ++ [.enqueued 1] ++ [.moved .take [.save 1]])
      (busy none (.saving 1 0) : Queue Nat) :=
    .step (.step .start (.enqueue 1))
      (.move (show move rules 0 (.take : Move String) (busy (some 1) .ready) = _ from rfl))
  have waiting := (begun.step (.enqueue 2)).step
    (.move (show move rules 0 fails (busy (some 2) (.saving 1 0)) = _ from rfl))
  have again := (waiting.step
    (.move (show move rules 0 (.endWait false) (busy (some 2) (.waiting 1 0)) = _ from rfl))).step
    (.enqueue 3)
  have run : Run rules ([.enqueued 1] ++ .moved .take [.save 1] :: stretch) (busy (some 3) .ready) :=
    again.step (.move (show move rules 0 fails (busy (some 3) (.saving 1 1)) = _ from rfl))
  have steady : ∀ mark ∈ stretch, mark.Steady rules := by
    simp [stretch, Mark.Steady, Move.crashes, fails]
  have followed := run_follows_schedule run steady
    (show EndAs (fun _ => .error "full") (results stretch) from rfl)
  exact ⟨stretch, _, run, rfl, rfl, followed.2.2.2.2.2.1 rfl, by decide⟩

end Queue
end SaveTree
