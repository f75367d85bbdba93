import SaveTree.FileSystem
import SaveTree.Proofs.Store.Equivalence
import SaveTree.Proofs.Virtual.Writing

namespace SaveTree

/-!
# Stores that answer

A memory answers all its calls, and so does a durable store whose host is ready for
its document.  There is no need to ask the host: if a file was written through a store
that has just been opened, then the store answers.  For the first thing that was put on
the way was put into the document as it was found.
-/

open Host Program

namespace Backend

variable {machine : Machine} {backend : Backend}

/-- The store with another catalog in it. -/
def holding (backend : Backend) (catalog : Catalog) : Backend :=
  match backend with
  | memory _ => memory catalog
  | durable store => durable { store with image := catalog }

@[simp]
theorem catalog_holding (backend : Backend) (catalog : Catalog) :
    (backend.holding catalog).catalog = catalog := by
  cases backend <;> rfl

@[simp]
theorem holding_catalog (backend : Backend) : backend.holding backend.catalog = backend := by
  cases backend <;> rfl

@[simp]
theorem holding_holding (backend : Backend) (first second : Catalog) :
    (backend.holding first).holding second = backend.holding second := by
  cases backend <;> rfl

/-! ## Calls on a machine -/

/-- Answers a call on a machine. -/
def onMachine (call : Store.Call) : StateM (Backend × Machine) (Except FsError call.Answer) :=
  fun state =>
    let ((reply, backend), machine) := state.2.run ((serve call).run state.1)
    (reply, backend, machine)

theorem run_onMachine {α : Type} (program : Program Store.calls α) (backend : Backend)
    (machine : Machine) :
    (Program.run onMachine program : StateM (Backend × Machine) α).run (backend, machine) =
      let ((result, left), after) := machine.run ((program.run serve).run backend)
      (result, left, after) := by
  induction program generalizing backend machine with
  | done value => rfl
  | call request next ih =>
    rw [run_call, StateT.run_bind, run_call, StateT.run_bind, Machine.run_bind]
    exact ih _ _ _

/-- A store that answers all its calls. -/
inductive Answering (machine : Machine) : Backend → Prop where
  | memory (held : Catalog) : Answering machine (.memory held)
  | durable {document : String} {image : Catalog} (working : Durable.Working document machine image) :
      Answering machine (.durable ⟨document, image⟩)

/-- A session with a store that answers is one with a memory. -/
theorem Answering.runs {α : Type} (answering : Answering machine backend) (session : Session α) :
    ∃ result next after,
      attempt Store.memory session backend.catalog = (result, next) ∧
      attempt onMachine session (backend, machine) = (result, backend.holding next, after) ∧
      Answering after (backend.holding next) := by
  rw [Program.attempt, Program.attempt, run_onMachine]
  cases answering with
  | memory held =>
    rw [run_memory]
    exact ⟨_, _, machine, rfl, rfl, .memory _⟩
  | durable working =>
    rcases working.run session.run with ⟨result, next, after, inMemory, onHost, workingAfter⟩
    rw [onHost]
    exact ⟨result, next, after, inMemory, rfl, .durable workingAfter⟩

/-- A look-up finds what the store holds. -/
theorem attempt_get_onMachine (backend : Backend) (machine : Machine) (place : String) :
    attempt onMachine (Session.get place) (backend, machine) =
      (.ok (backend.catalog.get? place), backend, machine) := by
  cases backend with
  | memory held => rfl
  | durable store => rfl

end Backend

namespace Durable

variable {document : String} {machine : Machine} {image : Catalog}

/-- A host on which a catalog was committed was ready for the document. -/
theorem exists_ready_of_commits {next : Catalog} {after : Machine} (site : Site document machine)
    (commits : machine.act (commit document next) = (.ok (), after)) :
    ∃ seat : Seat document, seat.Ready machine := by
  rw [commit, Machine.act_bind, Machine.act_write] at commits
  cases written : machine.write (temporary document) (Document.encode next) with
  | error error =>
    rw [written] at commits
    cases commits
  | ok between =>
    rw [written] at commits
    dsimp only at commits
    rw [Machine.act_rename] at commits
    cases renamed : between.rename (temporary document) document with
    | error error =>
      rw [renamed] at commits
      cases commits
    | ok last => exact exists_ready_of_commit site written renamed

/-- A host on which an entry was put was ready for the document. -/
theorem exists_ready_of_put (site : Site document machine)
    (puts : Virtual.CanPut Backend.onMachine (.durable ⟨document, image⟩, machine)) :
    ∃ seat : Seat document, seat.Ready machine := by
  rcases puts with ⟨entry, after, puts⟩
  have puts : Backend.onMachine (.put entry) (.durable ⟨document, image⟩, machine) = (.ok (), after) := puts
  have busy : concerns (Durable.mk document image).image (.put entry) = true := rfl
  cases outcome : machine.run (commit document (Store.Call.effect (.put entry) image)).run with
  | mk committed last =>
  cases committed with
  | ok => exact exists_ready_of_commits site outcome
  | error error =>
    have refused : machine.run ((serve (.put entry)).run ⟨document, image⟩) =
        ((.error (.host error), ⟨document, image⟩), last) := by
      rw [serve_run_of_concerns busy, Machine.run_bind, outcome]
      rfl
    have refuses : Backend.onMachine (.put entry) (.durable ⟨document, image⟩, machine) =
        (.error (.host error), .durable ⟨document, image⟩, last) := by
      rw [Backend.onMachine, Backend.serve_run_durable, Machine.run_bind, refused]
      rfl
    cases refuses.symm.trans puts

end Durable

namespace Backend

variable {machine : Machine} {backend : Backend}

/-- A memory, or a store whose document was opened on the machine just now. -/
inductive Opened (machine : Machine) : Backend → Prop where
  | memory (held : Catalog) : Opened machine (.memory held)
  | durable {document : String} {store : Durable} {before : Machine}
      (begins : before.disk.kind? (before.start document) = some .directory)
      (opens : before.run (Durable.openAt document).run = (.ok store, machine)) :
      Opened machine (.durable store)

/-- A store that was opened answers if anything can be put into it. -/
theorem Opened.answering (opened : Opened machine backend)
    (puts : Virtual.CanPut onMachine (backend, machine)) : Answering machine backend := by
  cases opened with
  | memory held => exact .memory held
  | durable begins opens =>
    rcases Durable.reopens_of_openAt begins opens with ⟨rfl, site, reopens⟩
    exact .durable ⟨Durable.exists_ready_of_put site puts, reopens⟩

end Backend

/-! ## Writing again -/

namespace FileSystem

/-- An operation on a tree in a store is a session with the store. -/
theorem run_perform_stored (operation : Operation) (backend : Backend) :
    (perform operation).run (.stored backend) =
      (Backend.run (Virtual.perform operation)).run backend >>= fun outcome =>
        pure (outcome.1, .stored outcome.2) := by
  simp only [perform, StateT.run_bind, StateT.run_get, StateT.run_monadLift, monadLift_self,
    pure_bind, bind_assoc]
  rfl

theorem run_perform_onMachine (machine : Machine) (backend : Backend) (operation : Operation) :
    machine.run ((perform operation).run (.stored backend)) =
      let (result, left, after) := attempt Backend.onMachine (Virtual.perform operation) (backend, machine)
      ((result, .stored left), after) := by
  rw [Program.attempt, Backend.run_onMachine, run_perform_stored, Machine.run_bind]
  rfl

theorem run_writeJson (machine : Machine) (tree : FileSystem) (path : String) (value : Json.Value) :
    machine.run ((writeJson path value).run tree) =
      let ((result, left), after) := machine.run ((perform (.writeJson path value)).run tree)
      ((result.map fun _ => (), left), after) := by
  rw [writeJson, StateT.run_bind, Machine.run_bind]
  rfl

end FileSystem

namespace Backend

open FileSystem

variable {machine : Machine} {backend : Backend} {path key : String}

/-- An operation on a tree whose store answers is an operation in memory. -/
theorem Answering.perform (answering : Answering machine backend) (operation : Operation) :
    ∃ result next after,
      attempt Store.memory (Virtual.perform operation) backend.catalog = (result, next) ∧
      machine.run ((FileSystem.perform operation).run (.stored backend)) =
        ((result, .stored (backend.holding next)), after) ∧
      Answering after (backend.holding next) := by
  rcases answering.runs (Virtual.perform operation) with
    ⟨result, next, after, inMemory, onHost, answeringAfter⟩
  refine ⟨result, next, after, inMemory, ?_, answeringAfter⟩
  rw [run_perform_onMachine, onHost]

/-- The store answers, and takes a file under a key. -/
structure Writable (machine : Machine) (backend : Backend) (key : String) : Prop where
  answering : Answering machine backend
  clear : backend.catalog.refusal? key = none

/-- Where a value was written once, all files can be written. -/
theorem Opened.writable {value : Json.Value} (opened : Opened machine backend)
    (writes : (machine.run ((writeJson path value).run (.stored backend))).1.1 = .ok ()) :
    ∃ key, Key.require path = .ok key ∧ Writable machine backend key := by
  rw [run_writeJson, run_perform_onMachine] at writes
  cases outcome : attempt onMachine (Virtual.perform (.writeJson path value)) (backend, machine) with
  | mk result left =>
  rw [outcome] at writes
  cases result with
  | error error => cases writes
  | ok answer =>
  rcases Virtual.exists_putFile_of_writeText outcome with ⟨key, admitted, puts⟩
  have looks (place : String) := attempt_get_onMachine backend machine place
  have answering := opened.answering (Virtual.canPut_of_putFile (fun place => ⟨_, looks place⟩) puts)
  refine ⟨key, admitted, answering, ?_⟩
  rcases answering.runs (Virtual.putFile key (.text value.pretty)) with
    ⟨same, next, after, inMemory, onHost, _⟩
  cases onHost.symm.trans puts
  exact Virtual.refusal?_of_putFile (Key.canonical_of_require admitted) inMemory

/-- A file can be written, and then written again. -/
theorem Writable.write (writable : Writable machine backend key) (admitted : Key.require path = .ok key)
    (value : Json.Value) :
    ∃ next after, machine.run ((writeJson path value).run (.stored backend)) =
        ((.ok (), .stored (backend.holding next)), after) ∧
      next.get? key = some (.file (.text value.pretty)) ∧
      Writable after (backend.holding next) key := by
  have canonical := Key.canonical_of_require admitted
  have puts := Virtual.attempt_putFile canonical writable.clear (.text value.pretty)
  have written := Virtual.attempt_writeText admitted puts
  rcases writable.answering.perform (.writeJson path value) with
    ⟨result, next, after, inMemory, onHost, answering⟩
  cases written.symm.trans inMemory
  refine ⟨_, after, ?_, Catalog.get?_withFile _ key _, answering, ?_⟩
  · rw [run_writeJson, onHost]
    rfl
  · rw [catalog_holding]
    exact Catalog.refusal?_withFile canonical writable.clear _

/-- A file is read as it is stored. -/
theorem Answering.read {text : String} (answering : Answering machine backend)
    (admitted : Key.require path = .ok key)
    (stored : backend.catalog.get? key = some (.file (.text text))) :
    (machine.run ((FileSystem.perform (.readText path)).run (.stored backend))).1 =
      (.ok (.text text), .stored backend) := by
  have read := Virtual.attempt_readText admitted stored
  rcases answering.perform (.readText path) with ⟨result, next, after, inMemory, onHost, _⟩
  cases read.symm.trans inMemory
  rw [onHost, holding_catalog]

end Backend

end SaveTree
