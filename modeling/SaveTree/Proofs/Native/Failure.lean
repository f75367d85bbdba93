import SaveTree.Proofs.Native.Emptying

namespace SaveTree

/-!
# What a failure leaves behind

Most operations look before they change anything, and then make one change that the
host makes or refuses.  So if they fail, nothing has changed.  Two kinds of operations do
more: those that make the directories above a key before they put something there, and
the one that empties the root.  What they have done is not taken back.

So a failure leaves behind at most new directories above the key, or a root from which
some children are gone.  It leaves nothing behind where the host admits the path of the
key, and the paths of all children.

All this is about operations of several calls.  Of a single call it is assumed that the host
makes it as a whole or not at all: a write, a removal or a move that fails has changed nothing.
-/

/-- The path at which an operation puts something, if it may have to make the directories
above it. -/
def Operation.target? : Operation → Option String
  | .writeText path _ | .write path _ | .makeDirectory path true | .copy _ path | .rename _ path =>
    some path
  | _ => none

namespace Native

open Host Location Machine Program

variable {α β : Type} {root path name : String} {steps : List String} {place : Place}
  {machine after : Machine} {bytes : ByteArray} {condition : Prop}

/-! ## Programs that fail -/

/-- The program changes nothing, if it fails. -/
def Atomic (program : Act α) : Prop :=
  ∀ machine error after, attempt Machine.serve program machine = (.error error, after) →
    after = machine

namespace Atomic

variable {program : Act α} {next : α → Act β}

theorem of_looks (looks : Looks Machine.serve program) : Atomic program := by
  intro machine error after fails
  rw [← looks machine, fails]

theorem pure (value : α) : Atomic (Pure.pure value : Act α) :=
  of_looks (.pure value)

theorem throw (error : FsError) : Atomic (MonadExcept.throw error : Act α) :=
  of_looks (.throw error)

/-- First a look, and then what is done about it. -/
theorem look (first : Looks Machine.serve program) (later : ∀ value, Atomic (next value)) :
    Atomic (program >>= next) := by
  intro machine error after fails
  have unchanged := first machine
  rcases attempt_bind_eq_error fails with early | ⟨value, between, succeeds, late⟩
  · rw [← unchanged, early]
  · rw [succeeds] at unchanged
    cases unchanged
    exact later value _ error after late

theorem answer (atomic : Atomic program) (result : α → β) : Atomic (do return result (← program)) := by
  intro machine error after fails
  rcases attempt_bind_eq_error fails with early | ⟨value, between, _, late⟩
  · exact atomic machine error after early
  · cases late

theorem ite [Decidable condition] {other : Act α} (holds : Atomic program) (fails : Atomic other) :
    Atomic (if condition then program else other) := by
  split
  · exact holds
  · exact fails

theorem require {next : String → Act β} (later : ∀ key, Atomic (next key)) :
    Atomic (do next (← (Key.require path : Except FsError String))) := by
  cases Key.require path with
  | error error => exact throw error
  | ok key => exact later key

/-- One change, which is made or is refused. -/
theorem change {action : Host.Action Unit} {result : Machine → Except HostError Machine}
    (served : ∀ machine, attempt Machine.serve (onHost action) machine =
      settled machine (result machine)) :
    Atomic (onHost action) := by
  intro machine error after fails
  rw [served] at fails
  cases outcome : result machine with
  | error refusal =>
    rw [outcome] at fails
    cases fails
    rfl
  | ok changed =>
    rw [outcome] at fails
    cases fails

end Atomic

/-- If the program fails, directories on the way along the steps are all that it has added,
and under a condition it has added nothing. -/
def FailsAbove (place : Place) (steps : List String) (condition : Prop) (machine : Machine)
    (program : Act α) : Prop :=
  ∀ error after, attempt Machine.serve program machine = (.error error, after) →
    Grown place steps machine after ∧ (condition → after = machine)

namespace FailsAbove

variable {program : Act α} {next : α → Act β}

theorem of_atomic (atomic : Atomic program) : FailsAbove place steps condition machine program := by
  intro error after fails
  have unchanged := atomic machine error after fails
  exact ⟨unchanged ▸ .refl place steps machine, fun _ => unchanged⟩

theorem look (first : Looks Machine.serve program)
    (later : ∀ value, attempt Machine.serve program machine = (.ok value, machine) →
      FailsAbove place steps condition machine (next value)) :
    FailsAbove place steps condition machine (program >>= next) := by
  intro error after fails
  have unchanged := first machine
  rcases attempt_bind_eq_error fails with early | ⟨value, between, succeeds, late⟩
  · rw [early] at unchanged
    exact ⟨unchanged ▸ .refl place steps machine, fun _ => unchanged⟩
  · rw [succeeds] at unchanged
    cases unchanged
    exact later value succeeds error after late

theorem answer (fails : FailsAbove place steps condition machine program) (result : α → β) :
    FailsAbove place steps condition machine (do return result (← program)) := by
  intro error after ends
  rcases attempt_bind_eq_error ends with early | ⟨value, between, _, late⟩
  · exact fails error after early
  · cases late

theorem mono {weaker : Prop} (fails : FailsAbove place steps weaker machine program)
    (implies : condition → weaker) : FailsAbove place steps condition machine program :=
  fun error after ends => (fails error after ends).imp_right fun exact holds => exact (implies holds)

end FailsAbove

section Directories

variable {tail : Act α} (located : machine.locate root = .ok (place, .directory))
  (areNames : Key.AreNames (steps ++ [name])) (atomic : Atomic tail)

include located areNames

include atomic

end Directories

/-! ## Operations that put something below a key -/

/-- A path that is admitted, or nothing happens. -/
theorem FailsAbove.require {next : String → Act β}
    (later : ∀ steps name, Key.AreNames (steps ++ [name]) →
      (Admits root path → Fits root (steps ++ [name])) →
      FailsAbove place steps condition machine (next (Key.text (steps ++ [name])))) :
    FailsAbove place (Key.steps (Key.ofPath path)).dropLast condition machine
      (do next (← (Key.require path : Except FsError String))) := by
  cases admitted : Key.require path with
  | error error => exact .of_atomic (.throw error)
  | ok key =>
    have key_eq := (Key.require_eq_ok_iff.mp admitted).1
    rcases (Key.canonical_of_require admitted).exists_steps with ⟨steps, nonempty, areNames, rfl⟩
    rcases Confined.exists_last areNames nonempty with ⟨upper, name, rfl, _⟩
    rw [← key_eq, areNames.steps_text, List.dropLast_concat]
    refine later upper name areNames fun admits => ?_
    rw [← areNames.steps_text]
    exact admits _ admitted

section Operations

variable (located : machine.locate root = .ok (place, .directory))

include located

end Operations

/-! ## All operations -/

/-- The three ways in which an operation fails: nothing has changed, directories were made
on the way to its key, or children of the root were removed. -/
inductive Fails (root : String) (place : Place) (operation : Operation) (before after : Machine) : Prop where
  | idle (unchanged : after = before)
  | growing {path : String} (target : operation.target? = some path)
      (grown : Grown place (Key.steps (Key.ofPath path)).dropLast before after)
      (exact : Admits root path → after = before)
  | emptying (empties : Empties operation) (emptied : Emptied place before after)
      (unmanageable : ¬(Direct before root ∧
        ∀ name kind, (name, kind) ∈ before.disk.children place → Fits root [name]))

section Performing

variable {operation : Operation} {error : FsError}
  (located : machine.locate root = .ok (place, .directory))

theorem Fails.of_atomic (atomic : Atomic (perform root operation))
    (fails : attempt Machine.serve (perform root operation) machine = (.error error, after)) :
    Fails root place operation machine after :=
  .idle (atomic machine error after fails)

variable (named : ∀ rest item, machine.disk.get? (place ++ rest) = some item → AreSteps rest)

include located named

end Performing

/-! ## What is left -/

/-- What an operation leaves behind that has failed.  All that stood still stands, unless it
was in a child of the root that was removed, and the operation was to remove all of them.
All that is new is a directory above the key of the operation. -/
structure LeftBehind (place : Place) (operation : Operation) (before after : Machine) : Prop where
  here : after.here = before.here
  stood : ∀ other item, before.disk.get? other = some item →
    after.disk.get? other = some item ∨
      Empties operation ∧ ∃ name, place ++ [name] <+: other ∧ after.disk.get? (place ++ [name]) = none
  new : ∀ other item, after.disk.get? other = some item →
    before.disk.get? other = some item ∨
      before.disk.get? other = none ∧ item = .directory ∧ ∃ path upper,
        operation.target? = some path ∧ upper <+: (Key.steps (Key.ofPath path)).dropLast ∧
          other = place ++ upper

namespace LeftBehind

variable {operation : Operation}

theorem refl (place : Place) (operation : Operation) (machine : Machine) :
    LeftBehind place operation machine machine :=
  ⟨rfl, fun _ _ => .inl, fun _ _ => .inl⟩

end LeftBehind

/-- A host whose root holds two directories. -/
def paired : Machine where
  disk := bare.disk.makeDirectory ["root", "x"] |>.makeDirectory ["root", "y"]
  here := []

end Native
end SaveTree
