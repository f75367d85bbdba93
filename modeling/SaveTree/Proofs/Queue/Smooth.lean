import SaveTree.Proofs.Queue.SingleFlight
import SaveTree.Queue.Drain

namespace SaveTree
namespace Queue

/-!
# Queues whose saves succeed

Where every save succeeds, one item counts: the newest one that was handed over.  It
is pending, or else the task saves it, or else it was saved last.  No move of the task
changes which item that is, and a few moves bring it to the last of these three
places.
-/

variable {ι ε σ : Type} {m : Type → Type} [Monad m]

/-- A way to run computations that change a state. -/
structure Runner (m : Type → Type) [Monad m] (σ : Type) where
  run : {α : Type} → m α → σ → α × σ
  run_pure : ∀ {α : Type} (value : α) (state : σ), run (pure value) state = (value, state)
  run_bind : ∀ {α β : Type} (first : m α) (next : α → m β) (state : σ),
    run (first >>= next) state = run (next (run first state).1) (run first state).2

/-- Saves succeed in the states in which it is known what was saved last. -/
def Reliable (runner : Runner m σ) (services : Services ι ε m) (known : Option ι → σ → Prop) : Prop :=
  ∀ {saved : Option ι} {state : σ} (item : ι), known saved state →
    ∃ after, runner.run (services.save item) state = (.ok (), after) ∧ known (some item) after

/-- A queue in which nothing has failed, with the item that was saved last, the newest
one of all, and the number of moves until the queue is idle. -/
inductive Smooth (saved : Option ι) : Queue ι → Option ι → Nat → Prop where
  | resting : Smooth saved .empty saved 0
  | finished : Smooth saved (busy none .ready) saved 1
  | saving (item : ι) : Smooth saved (busy none (.saving item 0)) (some item) 2
  | pending (item : ι) : Smooth saved (busy (some item) .ready) (some item) 3
  | overtaken (item newer : ι) : Smooth saved (busy (some newer) (.saving item 0)) (some newer) 4

variable {saved newest : Option ι} {queue : Queue ι} {left : Nat}

namespace Smooth

theorem left_le (smooth : Smooth saved queue newest left) : left ≤ 4 := by
  cases smooth <;> decide

/-- A queue that is idle has saved the newest item. -/
theorem saved_eq (smooth : Smooth saved queue newest 0) : saved = newest := by
  cases smooth
  rfl

/-- An item that is handed over is the newest one. -/
theorem enqueue (smooth : Smooth saved queue newest left) (item : ι) :
    ∃ more, Smooth saved (queue.enqueue item) (some item) more := by
  cases smooth with
  | resting => exact ⟨3, .pending item⟩
  | finished => exact ⟨3, .pending item⟩
  | saving old => exact ⟨4, .overtaken old item⟩
  | pending old => exact ⟨3, .pending item⟩
  | overtaken old newer => exact ⟨4, .overtaken old item⟩

end Smooth

/-- The events begin saves and tell of no failure. -/
def OnlySaves (events : List (Event ι ε)) : Prop :=
  ∀ event ∈ events, ∃ item, event = .save item

theorem OnlySaves.append {first second : List (Event ι ε)} (early : OnlySaves first)
    (late : OnlySaves second) : OnlySaves (first ++ second) := by
  intro event member
  rcases List.mem_append.mp member with inFirst | inSecond
  · exact early event inFirst
  · exact late event inSecond

section

variable {runner : Runner m σ} {services : Services ι ε m} {known : Option ι → σ → Prop}
  {rules : Rules} {state : σ}

/-- A move of the task, and what comes next. -/
theorem run_serve_of_move {next : Move ε} {after : Queue ι} {events : List (Event ι ε)} {between : σ}
    (begins : runner.run (nextMove rules services queue) state = (some next, between))
    (moved : queue.move rules 0 next = some (after, events)) (moves : Nat) :
    runner.run (serve rules services (moves + 1) queue) state =
      (((runner.run (serve rules services moves after) between).1.1,
        events ++ (runner.run (serve rules services moves after) between).1.2),
        (runner.run (serve rules services moves after) between).2) := by
  rw [serve, runner.run_bind, begins]
  dsimp only
  rw [moved]
  dsimp only
  rw [runner.run_bind, runner.run_pure]

variable (reliable : Reliable runner services known)
include reliable

/-- One move brings the newest item closer to where it is saved. -/
theorem Smooth.exists_move (smooth : Smooth saved queue newest (left + 1)) (knows : known saved state) :
    ∃ next between after events savedNext,
      runner.run (nextMove rules services queue) state = (some next, between) ∧
      queue.move rules 0 next = some (after, events) ∧
      Smooth savedNext after newest left ∧ known savedNext between ∧ OnlySaves events := by
  have nothing : OnlySaves ([] : List (Event ι ε)) := fun _ member => absurd member List.not_mem_nil
  have takes (pending : Option ι) :
      runner.run (nextMove rules services (busy pending .ready)) state = (some .take, state) :=
    runner.run_pure _ _
  have saves {pending : Option ι} {item : ι} {after : σ}
      (saving : runner.run (services.save item) state = (.ok (), after)) :
      runner.run (nextMove rules services (busy pending (.saving item 0))) state =
        (some (.endSave .saved), after) := by
    have begins : nextMove rules services (busy pending (.saving item 0)) =
        services.save item >>= fun result => pure (some (.endSave (.ofResult result))) := rfl
    rw [begins, runner.run_bind, saving, runner.run_pure]
    rfl
  cases smooth with
  | finished => exact ⟨.take, state, .empty, [], saved, takes none, rfl, .resting, knows, nothing⟩
  | saving item =>
    rcases reliable item knows with ⟨after, saving, knowsAfter⟩
    exact ⟨_, after, busy none .ready, [], some item, saves saving, rfl, .finished, knowsAfter, nothing⟩
  | pending item =>
    refine ⟨.take, state, busy none (.saving item 0), [.save item], saved, takes (some item), rfl,
      .saving item, knows, ?_⟩
    intro event member
    exact ⟨item, List.mem_singleton.mp member⟩
  | overtaken item newer =>
    rcases reliable item knows with ⟨after, saving, knowsAfter⟩
    exact ⟨_, after, busy (some newer) .ready, [], some item, saves saving, rfl, .pending newer,
      knowsAfter, nothing⟩

/-- A queue that is served keeps its newest item. -/
theorem Smooth.serve (rules : Rules) (moves : Nat) (smooth : Smooth saved queue newest left)
    (knows : known saved state) :
    ∃ after events final savedLast,
      runner.run (queue.serve rules services moves) state = ((after, events), final) ∧
      Smooth savedLast after newest (left - moves) ∧ known savedLast final ∧ OnlySaves events := by
  induction moves generalizing queue state saved left with
  | zero =>
    refine ⟨queue, [], state, saved, runner.run_pure _ _, smooth, knows, ?_⟩
    exact fun _ member => absurd member List.not_mem_nil
  | succ moves ih =>
    cases left with
    | zero =>
      cases smooth
      have stops : runner.run (nextMove rules services empty) state = (none, state) := runner.run_pure _ _
      refine ⟨empty, [], state, newest, ?_, ?_, knows, fun _ member => absurd member List.not_mem_nil⟩
      · rw [Queue.serve, runner.run_bind, stops]
        exact runner.run_pure _ _
      · rw [Nat.zero_sub]
        exact .resting
    | succ left =>
      rcases smooth.exists_move reliable knows with
        ⟨next, between, after, events, savedNext, begins, moved, smoothNext, knowsNext, onlySaves⟩
      rcases ih smoothNext knowsNext with
        ⟨last, later, final, savedLast, serves, smoothLast, knowsLast, onlySavesLater⟩
      refine ⟨last, events ++ later, final, savedLast, ?_, ?_, knowsLast, onlySaves.append onlySavesLater⟩
      · rw [run_serve_of_move begins moved, serves]
      · rw [Nat.succ_sub_succ]
        exact smoothLast

/-- A queue that is drained has saved its newest item. -/
theorem Smooth.drain (rules : Rules) (smooth : Smooth saved queue newest left)
    (knows : known saved state) :
    ∃ after events final, runner.run (queue.drain rules services) state = ((after, events), final) ∧
      known newest final ∧ OnlySaves events := by
  rcases smooth.serve reliable rules (enough rules) knows with
    ⟨after, events, final, savedLast, drains, smoothLast, knowsLast, onlySaves⟩
  have finished : left - enough rules = 0 := by
    have few := smooth.left_le
    rw [enough]
    omega
  rw [finished] at smoothLast
  rw [smoothLast.saved_eq] at knowsLast
  exact ⟨after, events, final, drains, knowsLast, onlySaves⟩

end

end Queue
end SaveTree
