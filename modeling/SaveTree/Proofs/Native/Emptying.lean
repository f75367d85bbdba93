import SaveTree.Proofs.Native.Growing

namespace SaveTree
namespace Native

open Host Location Machine Program

/-!
# Emptying the root

The root is emptied by removing one child after the other.  So when that fails, some
children are gone as a whole, and all else is as it was.

It can fail in two ways only.  The path of a child may be longer than the host admits,
although that of the root is not.  Or the path of the root leads through one of its own
children, and leads nowhere any more once that child is gone.
-/

variable {root name : String} {place : Place} {machine before between after : Machine}

/-- Some children of a place are gone, and all else is as it was. -/
structure Emptied (place : Place) (before after : Machine) : Prop where
  here : after.here = before.here
  outside : ∀ other, Outside place other → after.disk.get? other = before.disk.get? other
  children : ∀ name, (∀ rest, after.disk.get? (place ++ name :: rest) = none) ∨
    ∀ rest, after.disk.get? (place ++ name :: rest) = before.disk.get? (place ++ name :: rest)

namespace Emptied

theorem refl (place : Place) (machine : Machine) : Emptied place machine machine :=
  ⟨rfl, fun _ _ => rfl, fun _ => .inr fun _ => rfl⟩

theorem trans (first : Emptied place before between) (second : Emptied place between after) :
    Emptied place before after where
  here := second.here.trans first.here
  outside := fun other outside => (second.outside other outside).trans (first.outside other outside)
  children := by
    intro name
    rcases second.children name with gone | kept
    · exact .inl gone
    · simp only [kept]
      exact first.children name

theorem destination_eq (emptied : Emptied place before after) :
    destination after root = destination before root := by
  rw [destination, destination, start_of_here emptied.here]

end Emptied

/-- The path to the root leads through nothing that is below it. -/
def Direct (machine : Machine) (root : String) : Prop :=
  ∀ upper, upper <+: segments root →
    Outside (destination machine root) (follow (machine.start root) upper)

section Emptying

variable (located : machine.locate root = .ok (place, .directory))
  (named : ∀ rest item, machine.disk.get? (place ++ rest) = some item → AreSteps rest)

include located

include named

end Emptying

end Native
end SaveTree
