import SaveTree.Cli.Run
import SaveTree.Proofs.Queue.Smooth
import SaveTree.Proofs.Store.Answering

namespace SaveTree

/-!
# Autosaves end with the newest snapshot

Which snapshots an autosave saves depends on how its ticks fall between the moves of the
queue's task.  What it leaves does not: the newest snapshot of all is in the file, or
nothing was handed over and nothing has changed.
-/

open Host Program

namespace Autosave

open Queue

/-- Savings are run on a machine, with an open tree and a count of saves. -/
def onMachine : Runner Saving (Nat × FileSystem × Machine) where
  run computation state :=
    let (((value, saves), tree), machine) := state.2.2.run ((computation.run state.1).run state.2.1)
    (value, saves, tree, machine)
  run_pure _ _ := rfl
  run_bind first next state := by
    rw [StateT.run_bind, StateT.run_bind, Machine.run_bind]

/-- What uses the tree without saving leaves the count. -/
theorem run_lift {α : Type} (computation : FileSystem.Using α) (saves : Nat) (tree : FileSystem)
    (machine : Machine) :
    onMachine.run (computation : Saving α) (saves, tree, machine) =
      let ((value, left), after) := machine.run (computation.run tree)
      (value, saves, left, after) := by
  have lifted : ((computation : Saving α).run saves).run tree =
      computation.run tree >>= fun outcome => pure ((outcome.1, saves), outcome.2) := rfl
  rw [onMachine]
  dsimp only
  rw [lifted, Machine.run_bind]
  rfl

variable {backend : Backend} {machine : Machine} {path key : String} {saved newest : Option Json.Value}
  {state : Nat × FileSystem × Machine} {queue : Queue Json.Value} {left : Nat}

theorem run_save {tree treeAfter : FileSystem} {after : Machine} {value : Json.Value}
    (writes : machine.run ((FileSystem.writeJson path value).run tree) = ((.ok (), treeAfter), after))
    (saves : Nat) :
    onMachine.run ((services path).save value) (saves, tree, machine) =
      (.ok (), saves + 1, treeAfter, after) := by
  have lifted : onMachine.run (FileSystem.writeJson path value : Saving (Except FsError Unit))
      (saves, tree, machine) = (.ok (), saves, treeAfter, after) := by
    rw [run_lift, writes]
  rw [services, onMachine.run_bind, lifted]
  rfl

/-- The tree as an autosave leaves it: untouched as long as nothing was saved, and then
with the value that was saved last. -/
inductive Kept (backend : Backend) (machine : Machine) (key : String) :
    Option Json.Value → Nat × FileSystem × Machine → Prop where
  | untouched (saves : Nat) (writable : backend.Writable machine key) :
      Kept backend machine key none (saves, .stored backend, machine)
  | saved {value : Json.Value} {next : Catalog} {after : Machine} (saves : Nat)
      (writable : (backend.holding next).Writable after key)
      (holds : next.get? key = some (.file (.text value.pretty))) :
      Kept backend machine key (some value) (saves, .stored (backend.holding next), after)

/-- The value that was saved last is read from the file, and whoever opens the document
finds it there. -/
theorem Kept.reads {value : Json.Value} {saves : Nat} {tree : FileSystem} {after : Machine}
    (kept : Kept backend machine key (some value) (saves, tree, after))
    (admitted : Key.require path = .ok key) :
    ∃ left, tree = .stored left ∧
      (after.run ((FileSystem.perform (.readText path)).run (.stored left))).1 =
        (.ok (.text value.pretty), .stored left) ∧
      ∀ document image, backend = .durable ⟨document, image⟩ →
        ∃ next, left = .durable ⟨document, next⟩ ∧ Durable.Reopens document after next := by
  cases kept with
  | @saved _ next _ _ writable holds =>
  refine ⟨backend.holding next, rfl, ?_, ?_⟩
  · apply writable.answering.read admitted
    rw [Backend.catalog_holding]
    exact holds
  · rintro document image rfl
    refine ⟨next, rfl, ?_⟩
    cases writable.answering with
    | durable working => exact working.reopens

/-- Saves succeed, one after the other. -/
theorem reliable (admitted : Key.require path = .ok key) :
    Reliable onMachine (services path) (Kept backend machine key) := by
  intro saved state value kept
  cases kept with
  | untouched saves writable =>
    rcases writable.write admitted value with ⟨next, after, writes, holds, writableAfter⟩
    exact ⟨_, run_save writes saves, .saved (saves + 1) writableAfter holds⟩
  | saved saves writable =>
    rcases writable.write admitted value with ⟨next, after, writes, holds, writableAfter⟩
    rw [Backend.holding_holding] at writes writableAfter
    exact ⟨_, run_save writes saves, .saved (saves + 1) writableAfter holds⟩

end Autosave

namespace Cli

/-! ## The ticks of a session -/

end Cli

end SaveTree
