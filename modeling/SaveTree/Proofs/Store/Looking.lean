import SaveTree.Proofs.Store.Memory

namespace SaveTree

/-!
# Sessions that only look

A session that makes no other calls than look-ups and listings changes nothing, and no
call of it can fail.  So it does not need the host: on every open store it gives at once
what it gives in memory.
-/

open Program

namespace Store

/-- The program makes no call that changes a catalog. -/
inductive Quiet {α : Type} : Program calls α → Prop where
  | done (value : α) : Quiet (.done value)
  | call {request : Call} {next : Except FsError request.Answer → Program calls α}
      (looks : request.changes = false) (rest : ∀ reply, Quiet (next reply)) :
      Quiet (@Program.call calls α request next)

theorem Quiet.bind {α β : Type} {program : Program calls α} {next : α → Program calls β}
    (first : Quiet program) (later : ∀ value, Quiet (next value)) : Quiet (program >>= next) := by
  induction first with
  | done value => exact later value
  | call looks _ ih => exact .call looks ih

end Store

namespace Session

variable {α β : Type}

/-- The session only looks things up. -/
structure Looks (session : Session α) : Prop where
  quiet : Store.Quiet session.run

namespace Looks

theorem pure (value : α) : Looks (Pure.pure value : Session α) :=
  ⟨.done _⟩

theorem throw (error : FsError) : Looks (MonadExcept.throw error : Session α) :=
  ⟨.done _⟩

theorem lift (found : Except FsError α) : Looks (liftM found : Session α) := by
  cases found with
  | ok value => exact pure value
  | error error => exact throw error

theorem bind {session : Session α} {next : α → Session β} (first : Looks session)
    (later : ∀ value, Looks (next value)) : Looks (session >>= next) := by
  refine ⟨first.quiet.bind fun outcome => ?_⟩
  cases outcome with
  | ok value => exact (later value).quiet
  | error error => exact .done _

theorem get (path : String) : Looks (Session.get path) :=
  ⟨.call rfl fun _ => .done _⟩

theorem list : Looks Session.list :=
  ⟨.call rfl fun _ => .done _⟩

end Looks

end Session

namespace Backend

/-- A look-up needs no host. -/
theorem serve_run_of_looks {call : Store.Call} (looks : call.changes = false) (backend : Backend) :
    (serve call).run backend = pure (.ok (call.answer backend.catalog), backend) := by
  cases backend with
  | memory held =>
    cases call <;> first | rfl | cases looks
  | durable store =>
    have idle : Durable.concerns store.image call = false := by
      cases call <;> first | rfl | cases looks
    rw [serve_run_durable, Durable.serve_run_of_not_concerns idle]
    rfl

theorem run_of_quiet {α : Type} {program : Program Store.calls α} (quiet : Store.Quiet program)
    (backend : Backend) :
    (program.run serve).run backend =
      pure (((Program.run Store.memory program : StateM Catalog α).run backend.catalog).1, backend) := by
  induction quiet with
  | done value => rfl
  | @call request next looks _ ih =>
    have same : request.effect backend.catalog = backend.catalog := by
      cases request <;> first | rfl | cases looks
    rw [run_call, StateT.run_bind, serve_run_of_looks looks, pure_bind, ih, Store.run_memory_call, same]

/-- A session that only looks gives what it gives in memory. -/
theorem run_of_looks {α : Type} {session : Session α} (looks : session.Looks) (backend : Backend) :
    (run session).run backend = pure ((attempt Store.memory session backend.catalog).1, backend) :=
  run_of_quiet looks.quiet backend

/-- A session that begins with a look goes on with the store as it is. -/
theorem run_bind_of_looks {α β : Type} {session : Session α} (looks : session.Looks)
    {next : α → Session β} (backend : Backend) :
    (run (session >>= next)).run backend =
      match (attempt Store.memory session backend.catalog).1 with
      | .ok value => (run (next value)).run backend
      | .error error => pure (.error error, backend) := by
  have looked := run_of_looks looks backend
  unfold run at looked ⊢
  rw [ExceptT.run_bind, Program.run_bind, StateT.run_bind, looked, pure_bind]
  cases (attempt Store.memory session backend.catalog).1 <;> rfl

end Backend

namespace Virtual

theorem contentAt_looks (key : String) : (contentAt key).Looks := by
  apply (Session.Looks.get key).bind
  intro found
  split
  · exact .pure _
  · exact .throw _

theorem readText_looks (path : String) : (readText path).Looks := by
  apply (Session.Looks.lift _).bind
  intro key
  apply (contentAt_looks key).bind
  intro content
  cases content.toText? with
  | none => exact .throw _
  | some text => exact .pure text

theorem readBytes_looks (path : String) : (readBytes path).Looks :=
  (Session.Looks.lift _).bind fun key => (contentAt_looks key).bind fun _ => .pure _

theorem find_looks (path : String) : (find path).Looks := by
  unfold find
  dsimp only
  split
  · exact .pure true
  · exact (Session.Looks.get _).bind fun _ => .pure _

theorem listingAt_looks (key : String) (recursive : Bool) : (listingAt key recursive).Looks := by
  apply Session.Looks.list.bind
  intro entries
  split
  · exact .pure _
  · exact .throw .endless

theorem list_looks (path : String) (recursive : Bool) : (list path recursive).Looks := by
  unfold list
  dsimp only
  split
  · apply (Session.Looks.get _).bind
    intro found
    split
    · exact (Session.Looks.throw _).bind fun _ => listingAt_looks _ recursive
    · exact listingAt_looks _ recursive
  · exact listingAt_looks _ recursive

end Virtual

end SaveTree
