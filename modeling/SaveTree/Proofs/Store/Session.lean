import SaveTree.Proofs.Program.Ensures
import SaveTree.Proofs.Store.Catalog
import SaveTree.Store.Durable

namespace SaveTree

/-!
# Sessions with stores that can fail

A call on a faulty store is served, or it is one that changes something, fails
and leaves the catalog as it was.  This is all that any store does: a memory
never fails, and a durable store fails when the host does not let it commit.  So
what a session ensures on a faulty store holds on every open store, whatever the
host replies.
-/

namespace Store

/-- The call is one that changes a catalog. -/
def Call.changes : Call → Bool
  | get _ | list => false
  | put _ | delete _ | putMany _ | deleteMany _ => true

/-- How a call turns out on a store that can fail. -/
inductive Turn (catalog : Catalog) :
    (call : Call) → Except FsError call.Answer → Catalog → Prop where
  | served (call : Call) : Turn catalog call (.ok (call.answer catalog)) (call.effect catalog)
  | failed {call : Call} (changes : call.changes = true) (error : FsError) :
      Turn catalog call (.error error) catalog

/-- Stores that can fail. -/
def faulty : World calls Catalog where
  turn := Turn
  torn := fun _ _ _ => False

end Store

namespace Session

variable {α β : Type} {kept : Catalog → Prop} {post : α → Catalog → Prop} {catalog : Catalog}

/-- `kept` holds after every call of the session, and `post` holds at its end
unless it fails. -/
structure Ensures (kept : Catalog → Prop) (post : α → Catalog → Prop) (session : Session α)
    (catalog : Catalog) : Prop where
  program : Program.Ensures Store.faulty kept
    (fun result after => ∀ value, result = .ok value → post value after) session.run catalog

namespace Ensures

theorem pure {value : α} (holds : kept catalog) (result : post value catalog) :
    Ensures kept post (Pure.pure value) catalog := by
  refine ⟨holds, ?_⟩
  rintro _ ⟨⟩
  exact result

theorem throw {error : FsError} (holds : kept catalog) :
    Ensures kept post (MonadExcept.throw error) catalog :=
  ⟨holds, nofun⟩

theorem mono {session : Session α} {result : α → Catalog → Prop}
    (ensures : Ensures kept post session catalog)
    (imply : ∀ value after, kept after → post value after → result value after) :
    Ensures kept result session catalog where
  program := ensures.program.mono (fun _ holds => holds)
    fun _ after holds found value same => imply value after holds (found value same)

/-- What is kept also holds at the end. -/
theorem weaken {session : Session α} {weaker : Catalog → Prop}
    (ensures : Ensures kept post session catalog) (weaken : ∀ after, kept after → weaker after) :
    Ensures weaker (fun value after => kept after ∧ post value after) session catalog where
  program := ensures.program.mono weaken
    fun _ _ holds found value same => ⟨holds, found value same⟩

/-- What is kept holds wherever the session is stopped. -/
theorem of_passes {session : Session α} {passed : Catalog} (ensures : Ensures kept post session catalog)
    (passes : Program.Passes Store.faulty session.run catalog passed) : kept passed :=
  ensures.program.of_passes passes

/-- A session that goes on when another one has succeeded. -/
theorem bind {session : Session α} {next : α → Session β} {result : β → Catalog → Prop}
    (first : Ensures kept (fun value after => Ensures kept result (next value) after)
      session catalog) :
    Ensures kept result (session >>= next) catalog := by
  constructor
  apply Program.Ensures.bind (first.program.mono (fun _ holds => holds) _)
  intro outcome after holds found
  cases outcome with
  | ok value => exact (found value rfl).program
  | error error => exact ⟨holds, nofun⟩

/-- A value that was found without any call. -/
theorem lift {found : Except FsError α} (holds : kept catalog)
    (result : ∀ value, found = .ok value → post value catalog) :
    Ensures kept post (liftM found) catalog := by
  cases found with
  | ok value => exact pure holds (result value rfl)
  | error error => exact throw holds

/-- A call is served, or it fails. -/
theorem call (request : Store.Call) {post : request.Answer → Catalog → Prop}
    (holds : kept catalog) (served : kept (request.effect catalog))
    (result : post (request.answer catalog) (request.effect catalog)) :
    Ensures kept post (Session.call request) catalog := by
  refine ⟨holds, nofun, ?_⟩
  intro reply after turn
  cases turn with
  | served =>
    refine ⟨served, ?_⟩
    rintro _ ⟨⟩
    exact result
  | failed changes error => exact ⟨holds, nofun⟩

theorem get {path : String} {post : Option Node → Catalog → Prop} (holds : kept catalog)
    (result : post (catalog.get? path) catalog) : Ensures kept post (Session.get path) catalog :=
  call (.get path) holds holds result

theorem list {post : List Entry → Catalog → Prop} (holds : kept catalog)
    (result : post catalog.entries catalog) : Ensures kept post Session.list catalog :=
  call .list holds holds result

theorem put {entry : Entry} {post : Unit → Catalog → Prop} (holds : kept catalog)
    (served : kept (catalog.put entry)) (result : post () (catalog.put entry)) :
    Ensures kept post (Session.put entry) catalog :=
  call (.put entry) holds served result

theorem delete {path : String} {post : Unit → Catalog → Prop} (holds : kept catalog)
    (served : kept (catalog.erase path)) (result : post () (catalog.erase path)) :
    Ensures kept post (Session.delete path) catalog :=
  call (.delete path) holds served result

theorem putMany {entries : List Entry} {post : Unit → Catalog → Prop} (holds : kept catalog)
    (served : kept (catalog.putAll entries)) (result : post () (catalog.putAll entries)) :
    Ensures kept post (Session.putMany entries) catalog :=
  call (.putMany entries) holds served result

theorem deleteMany {paths : List String} {post : Unit → Catalog → Prop} (holds : kept catalog)
    (served : kept (catalog.eraseAll paths)) (result : post () (catalog.eraseAll paths)) :
    Ensures kept post (Session.deleteMany paths) catalog :=
  call (.deleteMany paths) holds served result

end Ensures

end Session

/-! ## Open stores are faulty stores -/

/-- A host of which nothing is known: any call may get any reply. -/
def Host.unknown : World Host.calls Unit where
  turn := fun _ _ _ _ => True
  torn := fun _ _ _ => True

namespace Durable

/-- A call that does not concern an image would not change it. -/
theorem effect_eq_self {image : Catalog} {call : Store.Call} (idle : concerns image call = false) :
    call.effect image = image := by
  cases call with
  | get path => rfl
  | list => rfl
  | put entry => cases idle
  | delete path =>
    apply Table.erase_eq_self
    exact Option.isSome_eq_false_iff.mp idle |> Option.isNone_iff_eq_none.mp
  | putMany entries =>
    cases entries with
    | nil => rfl
    | cons entry rest => cases idle
  | deleteMany paths =>
    apply Catalog.eraseAll_eq_self
    intro path member
    have absent := List.any_eq_false.mp idle path member
    exact Option.isNone_iff_eq_none.mp (Option.isSome_eq_false_iff.mp (Bool.eq_false_iff.mpr absent))

theorem changes_of_concerns {image : Catalog} {call : Store.Call}
    (busy : concerns image call = true) : call.changes = true := by
  cases call <;> first | rfl | cases busy

/-- A call that concerns the image is answered when the new image is committed. -/
theorem serve_run_of_concerns {store : Durable} {call : Store.Call}
    (busy : concerns store.image call = true) :
    (serve call).run store =
      (commit store.document (call.effect store.image)).run >>= fun (committed : Except _ Unit) =>
        match committed with
        | .ok () => pure (.ok (call.answer store.image),
            { store with image := call.effect store.image })
        | .error error => pure (.error (.host error), store) := by
  simp only [serve, transact, StateT.run_bind, StateT.run_get, StateT.run_monadLift, monadLift_self,
    pure_bind, busy, if_true, bind_assoc]
  apply bind_congr
  intro committed
  cases committed with
  | ok value => rfl
  | error error => rfl

/-- Any other call is answered at once. -/
theorem serve_run_of_not_concerns {store : Durable} {call : Store.Call}
    (idle : concerns store.image call = false) :
    (serve call).run store = pure (.ok (call.answer store.image), store) := by
  simp only [serve, StateT.run_bind, StateT.run_get, pure_bind, idle, Bool.false_eq_true, if_false]
  rfl

/-- A durable store answers a call, or fails to commit and keeps its image. -/
theorem serve_ensures (store : Durable) (call : Store.Call) :
    Program.Ensures Host.unknown (fun _ => True)
      (fun outcome _ => Store.Turn store.image call outcome.1 outcome.2.image)
      ((serve call).run store) () := by
  cases concern : concerns store.image call with
  | true =>
    rw [serve_run_of_concerns concern]
    apply Program.Ensures.bind
    -- whatever comes of the two host calls, it is a success or a failure
    refine ⟨trivial, fun _ _ => trivial, ?_⟩
    intro written _ _
    cases written with
    | error error =>
      exact ⟨trivial, trivial, .failed (changes_of_concerns concern) (.host error)⟩
    | ok _ =>
      refine ⟨trivial, fun _ _ => trivial, ?_⟩
      intro renamed _ _
      cases renamed with
      | error error =>
        exact ⟨trivial, trivial, .failed (changes_of_concerns concern) (.host error)⟩
      | ok _ => exact ⟨trivial, trivial, .served call⟩
  | false =>
    rw [serve_run_of_not_concerns concern]
    have turn : Store.Turn store.image call _ _ := .served call
    rw [effect_eq_self concern] at turn
    exact ⟨trivial, turn⟩

end Durable

namespace Backend

theorem serve_run_durable (store : Durable) (call : Store.Call) :
    (serve call).run (durable store) =
      (Durable.serve call).run store >>= fun outcome => pure (outcome.1, durable outcome.2) := by
  simp only [serve, StateT.run_bind, StateT.run_get, StateT.run_monadLift, monadLift_self,
    pure_bind, bind_assoc]
  rfl

/-- Every open store is a faulty store. -/
theorem serve_ensures (backend : Backend) (call : Store.Call) :
    Program.Ensures Host.unknown (fun _ => True)
      (fun outcome _ => Store.Turn backend.catalog call outcome.1 outcome.2.catalog)
      ((serve call).run backend) () := by
  cases backend with
  | memory catalog => exact ⟨trivial, .served call⟩
  | durable store =>
    rw [serve_run_durable]
    apply Program.Ensures.bind
    apply Program.Ensures.mono (Durable.serve_ensures store call) (fun _ holds => holds)
    intro outcome _ _ turn
    exact ⟨trivial, turn⟩

/-- What a session ensures on faulty stores it ensures on every open store. -/
theorem run_ensures {α : Type} {kept : Catalog → Prop} {post : α → Catalog → Prop}
    {program : Program Store.calls α} {backend : Backend}
    (ensures : program.Ensures Store.faulty kept post backend.catalog) :
    Program.Ensures Host.unknown (fun _ => True)
      (fun outcome _ => kept outcome.2.catalog ∧ post outcome.1 outcome.2.catalog)
      ((program.run serve).run backend) () := by
  induction program generalizing backend with
  | done value => exact ⟨trivial, ensures⟩
  | call request next ih =>
    rw [Program.run_call, StateT.run_bind]
    apply Program.Ensures.bind
    apply Program.Ensures.mono (serve_ensures backend request) (fun _ holds => holds)
    intro outcome _ _ turn
    exact ih outcome.1 (ensures.2.2 outcome.1 outcome.2.catalog turn)

/-- What a session keeps holds of the store where it ends. -/
theorem kept_of_runs {α : Type} {kept : Catalog → Prop} {post : α → Catalog → Prop}
    {session : Session α} {before after : Backend} {result : Except FsError α}
    (ensures : session.Ensures kept post before.catalog)
    (runs : Program.Runs Host.unknown ((run session).run before) () (result, after) ()) :
    kept after.catalog :=
  ((run_ensures ensures.program).of_runs runs).2.1

end Backend

end SaveTree
