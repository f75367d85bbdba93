import SaveTree.Host.Directories
import SaveTree.Proofs.Host.Machine

namespace SaveTree
namespace Host
namespace Machine

/-!
# Directories that are created with their parents

Creating a directory with its parents adds nothing but directories.  When it
succeeds, the path leads to a directory, and to create it again changes nothing.

Actions are run on a machine step by step: `act` says what an action gives and
which machine it leaves.
-/

variable {α β : Type} {machine after : Machine} {path : String} {place : Place}

/-- What an action on a machine gives, and the machine it leaves. -/
def act (machine : Machine) (action : Action α) : Except HostError α × Machine :=
  machine.run action.run

theorem run_bind (machine : Machine) (program : Program α) (next : α → Program β) :
    machine.run (program >>= next) =
      (machine.run program).2.run (next (machine.run program).1) := by
  induction program generalizing machine with
  | done value => rfl
  | call request resume ih => exact ih _ _

theorem act_bind (machine : Machine) (action : Action α) (next : α → Action β) :
    machine.act (action >>= next) =
      match machine.act action with
      | (.ok value, after) => after.act (next value)
      | (.error error, after) => (.error error, after) := by
  unfold act
  rw [ExceptT.run_bind, run_bind]
  cases machine.run action.run with
  | mk outcome after => cases outcome <;> rfl

theorem act_tryCatch (machine : Machine) (action : Action α) (handle : HostError → Action α) :
    machine.act (tryCatch action handle) =
      match machine.act action with
      | (.ok value, after) => (.ok value, after)
      | (.error error, after) => after.act (handle error) := by
  unfold act
  rw [ExceptT.run_tryCatch, run_bind]
  cases machine.run action.run with
  | mk outcome after => cases outcome <;> rfl

/-- An action whose failures mean something to others. -/
theorem run_orFail {ε : Type} (machine : Machine) (reason : HostError → ε) (action : Action α) :
    machine.run (orFail reason action).run =
      ((machine.act action).1.mapError reason, (machine.act action).2) := by
  unfold orFail
  exact run_bind machine action.run _

/-- A change that fails leaves the machine as it was. -/
theorem run_change (result : Machine → Except HostError Machine) (machine : Machine) :
    (change result).run machine =
      match result machine with
      | .ok after => (.ok (), after)
      | .error error => (.error error, machine) := by
  have state : (change result).run machine = StateT.run (match result machine with
      | .ok after => do
        set after
        return .ok ()
      | .error error => return .error error : StateM Machine (Except HostError Unit)) machine := rfl
  rw [state]
  cases result machine <;> rfl

theorem act_makeDirectory (machine : Machine) (path : String) :
    machine.act (Host.makeDirectory path) =
      match machine.makeDirectory path with
      | .ok after => (.ok (), after)
      | .error error => (.error error, machine) :=
  run_change (·.makeDirectory path) machine

theorem act_write (machine : Machine) (path : String) (bytes : ByteArray) :
    machine.act (Host.write path bytes) =
      match machine.write path bytes with
      | .ok after => (.ok (), after)
      | .error error => (.error error, machine) :=
  run_change (·.write path bytes) machine

theorem act_rename (machine : Machine) (source target : String) :
    machine.act (Host.rename source target) =
      match machine.rename source target with
      | .ok after => (.ok (), after)
      | .error error => (.error error, machine) :=
  run_change (·.rename source target) machine

theorem act_isDirectory (machine : Machine) (path : String) :
    machine.act (isDirectory path) =
      match machine.locate path with
      | .ok (_, .directory) => (.ok true, machine)
      | _ => (.ok false, machine) := by
  obtain ⟨next, asked, directory, file, failed⟩ :
      ∃ next : Except HostError Kind → Program (Except HostError Bool),
        (isDirectory path).run = .call (.kind path) next ∧
        next (.ok .directory) = .done (.ok true) ∧ next (.ok .file) = .done (.ok false) ∧
        ∀ error, next (.error error) = .done (.ok false) :=
    ⟨_, rfl, rfl, rfl, fun error => by cases error <;> rfl⟩
  have replied : machine.act (isDirectory path) =
      machine.run (next ((machine.locate path).map Prod.snd)) := by
    rw [act, asked]
    rfl
  rw [replied]
  cases machine.locate path with
  | error error =>
    rw [Except.map, failed]
    rfl
  | ok found =>
    rcases found with ⟨place, kind⟩
    cases kind with
    | directory =>
      rw [Except.map, directory]
      rfl
    | file =>
      rw [Except.map, file]
      rfl

/-- An error that does not count where a directory is. -/
theorem act_unlessDirectory (machine : Machine) (path : String) (error : HostError) :
    machine.act (do unless ← isDirectory path do throw error) =
      match machine.locate path with
      | .ok (_, .directory) => (.ok (), machine)
      | _ => (.error error, machine) := by
  rw [act_bind, act_isDirectory]
  cases machine.locate path with
  | error other => rfl
  | ok found =>
    rcases found with ⟨place, kind⟩
    cases kind <;> rfl

theorem act_createOrFind (machine : Machine) (path : String) :
    machine.act (createOrFind path) =
      match machine.makeDirectory path with
      | .ok after => (.ok (), after)
      | .error error => machine.act (do unless ← isDirectory path do throw error) := by
  unfold createOrFind
  rw [act_tryCatch, act_makeDirectory]
  cases machine.makeDirectory path <;> rfl

theorem act_createUpwards_cons (machine : Machine) (path : String) (above : List String) :
    machine.act (createUpwards (path :: above)) =
      match machine.makeDirectory path with
      | .ok after => (.ok (), after)
      | .error .notFound =>
        match machine.act (createUpwards above) with
        | (.ok (), between) => between.act (createOrFind path)
        | (.error error, between) => (.error error, between)
      | .error error => machine.act (do unless ← isDirectory path do throw error) := by
  rw [createUpwards, act_tryCatch, act_makeDirectory]
  cases machine.makeDirectory path with
  | ok after => rfl
  | error error =>
    cases error with
    | notFound =>
      dsimp only
      rw [act_bind]
      cases machine.act (createUpwards above) with
      | mk outcome between => cases outcome <;> rfl
    | _ => rfl

/-- The outcome of an action that creates the directory of a path. -/
structure Created (machine : Machine) (path : String) (outcome : Except HostError Unit × Machine) :
    Prop where
  extended : Extended machine outcome.2
  located : machine.disk.kind? (machine.start path) = some .directory → outcome.1 = .ok () →
    ∃ place, outcome.2.locate path = .ok (place, .directory)

theorem created_unlessDirectory (machine : Machine) (path : String) (error : HostError) :
    Created machine path (machine.act (do unless ← isDirectory path do throw error)) := by
  rw [act_unlessDirectory]
  split
  · rename_i place located
    exact ⟨Extended.refl machine, fun _ _ => ⟨place, located⟩⟩
  · exact ⟨Extended.refl machine, fun _ => nofun⟩

theorem created_of_makeDirectory (made : machine.makeDirectory path = .ok after) :
    Created machine path (.ok (), after) :=
  ⟨extended_of_makeDirectory made, fun stands _ => locate_of_makeDirectory stands made⟩

theorem created_createOrFind (machine : Machine) (path : String) :
    Created machine path (machine.act (createOrFind path)) := by
  rw [act_createOrFind]
  cases made : machine.makeDirectory path with
  | ok after => exact created_of_makeDirectory made
  | error error => exact created_unlessDirectory machine path error

theorem Created.of_extended {between : Machine} {outcome : Except HostError Unit × Machine}
    (extended : Extended machine between) (created : Created between path outcome) :
    Created machine path outcome where
  extended := extended.trans created.extended
  located := fun stands => created.located (extended.stands stands)

theorem extended_createUpwards (machine : Machine) (paths : List String) :
    Extended machine (machine.act (createUpwards paths)).2 := by
  induction paths with
  | nil => exact Extended.refl machine
  | cons path above ih =>
    rw [act_createUpwards_cons]
    split
    · rename_i made
      exact extended_of_makeDirectory made
    · split
      · rename_i between created
        rw [created] at ih
        exact ih.trans (created_createOrFind between path).extended
      · rename_i error between failed
        rw [failed] at ih
        exact ih
    · exact (created_unlessDirectory machine path _).extended

/-- Creating directories upwards adds directories only, and the first path leads to
one if it succeeds. -/
theorem created_createUpwards (machine : Machine) (path : String) (above : List String) :
    Created machine path (machine.act (createUpwards (path :: above))) := by
  have parents := extended_createUpwards machine above
  rw [act_createUpwards_cons]
  split
  · rename_i made
    exact created_of_makeDirectory made
  · split
    · rename_i between created
      rw [created] at parents
      exact (created_createOrFind between path).of_extended parents
    · rename_i error between failed
      rw [failed] at parents
      exact ⟨parents, fun _ => nofun⟩
  · exact created_unlessDirectory machine path _

/-- A directory that is there is found and nothing is done. -/
theorem createUpwards_of_located {above : List String}
    (stands : machine.disk.kind? (machine.start path) = some .directory)
    (located : machine.locate path = .ok (place, .directory)) :
    machine.act (createUpwards (path :: above)) = (.ok (), machine) := by
  rw [act_createUpwards_cons, makeDirectory_of_located stands located]
  dsimp only
  rw [act_unlessDirectory, located]

end Machine
end Host
end SaveTree
