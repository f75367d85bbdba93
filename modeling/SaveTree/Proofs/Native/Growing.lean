import Mathlib.Data.List.Induction
import SaveTree.Proofs.Native.Frame
import SaveTree.Proofs.Store.Acceptance
import SaveTree.Proofs.Virtual.Directories

namespace SaveTree
namespace Native

open Host Location Machine Program

/-!
# Directories that are made on the way to a key

Before something is put at a key, the directories above it are made one after the other.
However that ends, directories on the way are all that is new.

If the host admits the path of the key, more is known.  Only a file can be in the way, and
it is met before anything is made, since nothing stands below a directory that is missing.
Once the last directory is there, what is put in it is not refused, if nothing stands at
its place.
-/

variable {β : Type} {root name : String} {steps upper : List String} {place : Place}
  {machine before between after : Machine}

/-- What every part of a loop keeps, the loop keeps. -/
theorem attempt_forM_related (related : Machine → Machine → Prop)
    (refl : ∀ machine, related machine machine)
    (trans : ∀ before between after, related before between → related between after →
      related before after)
    {list : List β} {body : β → Act Unit}
    (each : ∀ item ∈ list, ∀ machine, related machine (attempt Machine.serve (body item) machine).2)
    (machine : Machine) : related machine (attempt Machine.serve (list.forM body) machine).2 := by
  induction list generalizing machine with
  | nil => exact refl machine
  | cons item rest ih =>
    have first := each item List.mem_cons_self machine
    have split : (item :: rest).forM body = (do
        body item
        rest.forM body) := rfl
    rw [split]
    cases ends : attempt Machine.serve (body item) machine with
    | mk outcome between =>
    rw [ends] at first
    cases outcome with
    | error error =>
      rw [attempt_bind_of_error ends]
      exact first
    | ok =>
      rw [attempt_bind_of_ok ends]
      exact trans _ _ _ first (ih (fun other member => each other (.tail _ member)) between)

/-! ## Directories on the way to a key -/

/-- Nothing was added to a machine but directories, on the way from a place along some
steps. -/
structure Grown (place : Place) (steps : List String) (before after : Machine) : Prop where
  extended : Extended before after
  new : ∀ other, before.disk.get? other = none → after.disk.get? other ≠ none →
    ∃ upper, upper <+: steps ∧ other = place ++ upper

namespace Grown

theorem refl (place : Place) (steps : List String) (machine : Machine) :
    Grown place steps machine machine :=
  ⟨.refl machine, fun _ missing found => absurd missing found⟩

theorem trans (first : Grown place steps before between) (second : Grown place steps between after) :
    Grown place steps before after where
  extended := first.extended.trans second.extended
  new := by
    intro other missing found
    by_cases early : between.disk.get? other = none
    · exact second.new other early found
    · exact first.new other missing early

/-- What stood somewhere still stands there. -/
theorem get?_eq {other : Place} {item : Item} (grown : Grown place steps before after)
    (stood : before.disk.get? other = some item) : after.disk.get? other = some item := by
  cases item with
  | file bytes => exact (grown.extended.files other bytes).mpr stood
  | directory =>
    have kept := grown.extended.keeps other (Disk.kind?_eq_directory_iff.mpr stood)
    exact Disk.kind?_eq_directory_iff.mp kept

theorem destination_eq (grown : Grown place steps before after) :
    destination after root = destination before root := by
  rw [destination, destination, start_of_here grown.extended.here]

/-- The root is where it was. -/
theorem located {other : Place} (grown : Grown place steps before after)
    (located : before.locate root = .ok (other, .directory)) :
    after.locate root = .ok (other, .directory) := by
  rcases leads_of_locate located with ⟨noZero, short, leads, directory⟩
  refine locate_directory noZero short ?_ (grown.extended.keeps other directory)
  rw [start_of_here grown.extended.here]
  exact grown.extended.leads leads

end Grown

/-- A step of the walk makes one directory, or nothing. -/
theorem ensurePlace_cases (root key : String) (machine : Machine) :
    (attempt Machine.serve (ensurePlace root key) machine).2 = machine ∨
      machine.makeDirectory (hostPath root key) =
        .ok (attempt Machine.serve (ensurePlace root key) machine).2 := by
  have looks := attempt_kind? machine root key
  cases found : seen (machine.locate (hostPath root key)) with
  | error error =>
    rw [found] at looks
    rw [ensurePlace, attempt_bind_of_error looks]
    exact .inl rfl
  | ok kind =>
    rw [found] at looks
    rw [ensurePlace, attempt_bind_of_ok looks]
    cases kind with
    | some kind => cases kind <;> exact .inl rfl
    | none =>
      dsimp only
      rw [attempt_makeDirectory]
      cases machine.makeDirectory (hostPath root key) with
      | error error => exact .inl rfl
      | ok made => exact .inr rfl

theorem ensureDirectories_extended (root key : String) (machine : Machine) :
    Extended machine (attempt Machine.serve (ensureDirectories root key) machine).2 := by
  rw [ensureDirectories_eq]
  apply attempt_forM_related Extended Extended.refl fun _ _ _ => Extended.trans
  intro key _ machine
  rcases ensurePlace_cases root key machine with unchanged | made
  · rw [unchanged]
    exact .refl machine
  · exact extended_of_makeDirectory made

section Admitted

variable (located : machine.locate root = .ok (place, .directory))
  (areNames : Key.AreNames (steps ++ [name])) (fits : Fits root (steps ++ [name]))
  (parent : machine.disk.kind? (place ++ steps) = some .directory)

include located areNames fits parent

variable (missing : machine.disk.kind? (place ++ (steps ++ [name])) = none)

include missing

end Admitted

end Native
end SaveTree
