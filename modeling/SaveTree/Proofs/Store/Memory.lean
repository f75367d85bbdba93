import SaveTree.Proofs.Program.Attempt
import SaveTree.Proofs.Store.Session
import SaveTree.Virtual.Tree

namespace SaveTree

/-!
# Sessions in memory

A store in memory answers every call at once, so that a session there is a
function of the catalog.  A durable store on a host that refuses nothing is no
different: its sessions give the same, and leave an image that is the catalog that
a session in memory leaves.
-/

open Program

namespace Store

variable (catalog : Catalog)

@[simp]
theorem attempt_get (path : String) :
    attempt memory (Session.get path) catalog = (.ok (catalog.get? path), catalog) :=
  rfl

@[simp]
theorem attempt_list :
    attempt memory Session.list catalog = (.ok catalog.entries, catalog) :=
  rfl

@[simp]
theorem attempt_put (entry : Entry) :
    attempt memory (Session.put entry) catalog = (.ok (), catalog.put entry) :=
  rfl

@[simp]
theorem attempt_delete (path : String) :
    attempt memory (Session.delete path) catalog = (.ok (), catalog.erase path) :=
  rfl

@[simp]
theorem attempt_putMany (entries : List Entry) :
    attempt memory (Session.putMany entries) catalog = (.ok (), catalog.putAll entries) :=
  rfl

@[simp]
theorem attempt_deleteMany (paths : List String) :
    attempt memory (Session.deleteMany paths) catalog = (.ok (), catalog.eraseAll paths) :=
  rfl

/-- A program in memory begins with its first call. -/
theorem run_memory_call {α : Type} (call : Call)
    (next : Except FsError call.Answer → Program calls α) :
    (Program.run memory (@Program.call calls α call next) : StateM Catalog α).run catalog =
      (Program.run memory (next (.ok (call.answer catalog))) : StateM Catalog α).run
        (call.effect catalog) :=
  rfl

/-- What a program keeps on every store is kept in memory. -/
theorem kept_of_ensures {α : Type} {program : Program calls α} {kept : Catalog → Prop}
    {post : α → Catalog → Prop} (ensures : Program.Ensures faulty kept post program catalog) :
    kept ((Program.run memory program : StateM Catalog α).run catalog).2 := by
  induction program generalizing catalog with
  | done value => exact ensures.1
  | call request next ih =>
    rw [run_memory_call]
    exact ih _ _ (ensures.2.2 _ _ (.served request))

end Store

/-- What operations leave of a catalog in memory, one after the other. -/
def Virtual.after (operations : List Operation) (catalog : Catalog) : Catalog :=
  operations.foldl (fun catalog operation =>
    (attempt Store.memory (perform operation) catalog).2) catalog

/-! ## Stores that do not fail -/

/-- Stores whose calls do not fail. -/
def Store.reliable : World calls Catalog where
  turn := fun catalog call reply after =>
    reply = .ok (call.answer catalog) ∧ after = call.effect catalog
  torn := fun _ _ _ => False

/-- A host that refuses nothing. -/
def Host.willing : World Host.calls Unit where
  turn := fun _ _ reply _ => ∃ answer, reply = .ok answer
  torn := fun _ _ _ => False

/-- A willing host replies to every call. -/
theorem Host.exists_willing_turn (state : Unit) (request : Host.Call) :
    ∃ reply after, Host.willing.turn state request reply after := by
  have answers : Nonempty request.Answer := by
    cases request with
    | kind path => exact ⟨Kind.file⟩
    | read path => exact ⟨ByteArray.empty⟩
    | list path => exact ⟨([] : List (String × Kind))⟩
    | write path bytes => exact ⟨()⟩
    | makeDirectory path => exact ⟨()⟩
    | removeFile path => exact ⟨()⟩
    | removeTree path => exact ⟨()⟩
    | rename source target => exact ⟨()⟩
    | pause delay => exact ⟨()⟩
  rcases answers with ⟨answer⟩
  exact ⟨.ok answer, (), answer, rfl⟩

/-- On a willing host a durable store answers every call. -/
theorem Durable.serve_willing (store : Durable) (call : Store.Call) :
    Program.Ensures Host.willing (fun _ => True)
      (fun outcome _ => outcome.1 = .ok (call.answer store.image) ∧
        outcome.2.image = call.effect store.image)
      ((serve call).run store) () := by
  cases concern : concerns store.image call with
  | true =>
    rw [serve_run_of_concerns concern]
    apply Program.Ensures.bind
    refine ⟨trivial, fun _ _ => trivial, ?_⟩
    rintro _ _ ⟨_, rfl⟩
    refine ⟨trivial, fun _ _ => trivial, ?_⟩
    rintro _ _ ⟨_, rfl⟩
    exact ⟨trivial, trivial, rfl, rfl⟩
  | false =>
    rw [serve_run_of_not_concerns concern]
    exact ⟨trivial, rfl, (effect_eq_self concern).symm⟩

namespace Backend

theorem serve_willing (backend : Backend) (call : Store.Call) :
    Program.Ensures Host.willing (fun _ => True)
      (fun outcome _ => outcome.1 = .ok (call.answer backend.catalog) ∧
        outcome.2.catalog = call.effect backend.catalog)
      ((serve call).run backend) () := by
  cases backend with
  | memory catalog => exact ⟨trivial, rfl, rfl⟩
  | durable store =>
    rw [serve_run_durable]
    apply Program.Ensures.bind
    apply Program.Ensures.mono (Durable.serve_willing store call) (fun _ holds => holds)
    intro outcome _ _ served
    exact ⟨trivial, served⟩

/-- Open stores on a host of some kind, where a call is served as a whole. -/
def onHost (host : World Host.calls Unit) : World Store.calls Backend where
  turn := fun before call reply after =>
    Program.Runs host ((serve call).run before) () (reply, after) ()
  torn := fun _ _ _ => False

/-- On a willing host every call is served. -/
theorem exists_onHost_turn (backend : Backend) (call : Store.Call) :
    ∃ reply after, (onHost Host.willing).turn backend call reply after := by
  rcases exists_runs Host.exists_willing_turn ((serve call).run backend) () with
    ⟨⟨reply, after⟩, _, runs⟩
  exact ⟨reply, after, runs⟩

/-- On a willing host every open store is reliable. -/
theorem reliable_of_onHost {before after : Backend} {call : Store.Call}
    {reply : Except FsError call.Answer}
    (turn : (onHost Host.willing).turn before call reply after) :
    Store.reliable.turn before.catalog call reply after.catalog :=
  ((serve_willing before call).of_runs turn).2

/-- Every open store runs a program as a memory does, if the host refuses nothing. -/
theorem run_willing {α : Type} (program : Program Store.calls α) (backend : Backend) :
    Program.Ensures Host.willing (fun _ => True)
      (fun outcome _ => (Program.run Store.memory program : StateM Catalog α).run backend.catalog =
        (outcome.1, outcome.2.catalog))
      ((program.run serve).run backend) () := by
  induction program generalizing backend with
  | done value => exact ⟨trivial, rfl⟩
  | call request next ih =>
    rw [Store.run_memory_call, Program.run_call, StateT.run_bind]
    apply Program.Ensures.bind
    apply Program.Ensures.mono (serve_willing backend request) (fun _ holds => holds)
    rintro ⟨reply, between⟩ _ _ ⟨rfl, moved⟩
    have rest := ih (.ok (request.answer backend.catalog)) between
    rw [moved] at rest
    exact rest

theorem attempt_of_runs {α : Type} {session : Session α} {before after : Backend}
    {result : Except FsError α}
    (runs : Program.Runs Host.willing ((run session).run before) () (result, after) ()) :
    attempt Store.memory session before.catalog = (result, after.catalog) :=
  ((run_willing session.run before).of_runs runs).2

/-- On a willing host every session ends, as it does in memory. -/
theorem exists_runs_of_attempt {α : Type} (session : Session α) (before : Backend) :
    ∃ after, Program.Runs Host.willing ((run session).run before) ()
      ((attempt Store.memory session before.catalog).1, after) () := by
  rcases exists_runs Host.exists_willing_turn ((run session).run before) () with
    ⟨⟨result, after⟩, _, runs⟩
  rw [attempt_of_runs runs]
  exact ⟨after, runs⟩

end Backend

end SaveTree
