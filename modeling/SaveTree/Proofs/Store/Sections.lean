import SaveTree.Proofs.Program.Interleaving
import SaveTree.Proofs.Store.Transactions

namespace SaveTree

/-!
# Tasks that share a durable store

The image of a durable store is locked while somebody looks at it, and during a whole
transaction.  But a call that deletes takes the lock twice: it looks whether there is
anything to delete, and if so it begins a transaction, and in between others may have
the lock.

So a call is a program over the sections in which it holds the lock.  Run without
interruption it is the call as the store serves it.  In whatever order the sections of
several tasks come, and whichever commits fail, opening the store again finds the
image that is held in memory.
-/

namespace Durable

open Host Program

/-- What is done while the image is locked: a look at it, or a transaction. -/
inductive Section where
  | look
  | transact (change : Catalog → Catalog)

/-- What comes of a section. -/
def Section.Reply : Section → Type
  | look => Catalog
  | transact _ => Except FsError Unit

/-- The sections of those who share a store. -/
abbrev sections : Interface where
  Call := Section
  Reply := Section.Reply

/-- Serves a section. -/
def enter : (step : Section) → StateT Durable Host.Program step.Reply
  | .look => return (← get).image
  | .transact change => Durable.transact change

/-- The call looks at the image before all else. -/
def asks : Store.Call → Bool
  | .get _ | .list | .delete _ | .deleteMany _ => true
  | .put _ | .putMany _ => false

/-- The transaction of a call.  A call that changes the image always answers the
same. -/
def transaction (call : Store.Call) : Program sections (Except FsError call.Answer) :=
  .call (.transact call.effect) fun (committed : Except FsError Unit) =>
    .done (committed.map fun _ => call.answer .empty)

/-- What a call does when it knows an image. -/
def settle (call : Store.Call) (image : Catalog) : Program sections (Except FsError call.Answer) :=
  if concerns image call then transaction call else .done (.ok (call.answer image))

/-- The sections of a call.  Those that do not ask are settled whatever the image is. -/
def inSections (call : Store.Call) : Program sections (Except FsError call.Answer) :=
  if asks call then .call .look (settle call) else settle call .empty

variable {call : Store.Call} {image other : Catalog} {store : Durable}

theorem answer_of_changes (changes : call.changes = true) : call.answer image = call.answer other := by
  cases call <;> first | rfl | cases changes

/-- Calls that do not ask are settled in the same way by all images. -/
theorem settle_eq (direct : asks call = false) : settle call image = settle call other := by
  cases call with
  | get path => cases direct
  | list => cases direct
  | delete path => cases direct
  | deleteMany paths => cases direct
  | put entry => rfl
  | putMany entries => rfl

theorem settle_of_concerns (busy : concerns image call = true) : settle call image = transaction call :=
  if_pos busy

theorem settle_of_not_concerns (idle : concerns image call = false) :
    settle call image = .done (.ok (call.answer image)) := by
  rw [settle, idle]
  rfl

theorem transact_run (change : Catalog → Catalog) (store : Durable) :
    (Durable.transact change).run store =
      (commit store.document (change store.image)).run >>= fun (committed : Except _ Unit) =>
        match committed with
        | .ok () => pure (.ok (), { store with image := change store.image })
        | .error error => pure (.error (.host error), store) := by
  simp only [Durable.transact, StateT.run_bind, StateT.run_get, StateT.run_monadLift, monadLift_self,
    pure_bind, bind_assoc]
  apply bind_congr
  intro committed
  cases committed with
  | ok value => rfl
  | error error => rfl

theorem run_settle (call : Store.Call) (store : Durable) :
    ((settle call store.image).run enter).run store = (serve call).run store := by
  cases concern : concerns store.image call with
  | true =>
    have commits : ((transaction call).run enter).run store =
        (Durable.transact call.effect).run store >>= fun outcome =>
          pure (outcome.1.map fun _ => call.answer .empty, outcome.2) := rfl
    rw [settle_of_concerns concern, serve_run_of_concerns concern, commits, transact_run, bind_assoc]
    apply bind_congr
    intro committed
    cases committed with
    | ok value =>
      rw [answer_of_changes (changes_of_concerns concern)]
      rfl
    | error error => rfl
  | false =>
    rw [settle_of_not_concerns concern, serve_run_of_not_concerns concern]
    rfl

/-- The sections of a call, one right after the other, are the call. -/
theorem run_inSections (call : Store.Call) : (inSections call).run enter = serve call := by
  funext store
  cases asking : asks call with
  | true =>
    rw [inSections, asking]
    exact run_settle call store
  | false =>
    rw [inSections, asking, if_neg Bool.false_ne_true, settle_eq asking]
    exact run_settle call store

/-! ## The document and the image -/

/-- A store that is shared on a machine that can fail.  Each section is served as a
whole. -/
def shared : World sections (Durable × Machine) where
  turn := fun before step reply after =>
    Runs Machine.faulty ((enter step).run before.1) before.2 (reply, after.1) after.2
  torn := fun _ _ _ => False

/-- How a section turns out for an image. -/
inductive Entered (image : Catalog) : (step : Section) → step.Reply → Catalog → Prop where
  | looked : Entered image .look image image
  | committed (change : Catalog → Catalog) : Entered image (.transact change) (.ok ()) (change image)
  | failed (change : Catalog → Catalog) (error : HostError) :
      Entered image (.transact change) (.error (.host error)) image

/-- Images that are shared, where any commit may fail. -/
def images : World sections Catalog where
  turn := Entered
  torn := fun _ _ _ => False

/-- A store whose document holds its image. -/
structure Kept (document : String) (state : Durable × Machine) : Prop where
  document_eq : state.1.document = document
  site : Site document state.2
  reopens : Reopens document state.2 state.1.image

/-- A section keeps document and image together, whether its commit succeeds or not. -/
theorem Kept.turn {document : String} {before after : Durable × Machine} {step : Section}
    {reply : step.Reply} (kept : Kept document before) (turn : shared.turn before step reply after) :
    Kept document after ∧ Entered before.1.image step reply after.1.image := by
  rcases before with ⟨⟨_, image⟩, machine⟩
  rcases after with ⟨next, final⟩
  rcases kept with ⟨rfl, site, reopens⟩
  cases step with
  | look =>
    cases turn
    exact ⟨⟨rfl, site, reopens⟩, .looked⟩
  | transact change =>
    have runs : Runs Machine.faulty ((Durable.transact change).run ⟨_, image⟩) machine (reply, next) final := turn
    rw [transact_run] at runs
    rcases runs.of_bind with ⟨committed, between, commits, rest⟩
    rcases (commit_ensures site reopens).of_runs commits with ⟨passed, found⟩
    cases committed with
    | ok value =>
      cases rest
      exact ⟨⟨rfl, passed.site, found⟩, .committed change⟩
    | error error =>
      cases rest
      exact ⟨⟨rfl, passed.site, found⟩, .failed change error⟩

/-- Whatever the tasks have done, the document holds the image.  They see nothing but
images, and commits that fail or not. -/
theorem history_kept {document : String} {start state : Durable × Machine} {log : List Mark}
    {jobs : List (Job sections fun call : Store.Call => Except FsError call.Answer)}
    (history : History shared inSections start log jobs state) (kept : Kept document start) :
    Kept document state ∧ History images inSections start.1.image log jobs state.1.image := by
  induction history with
  | nothing => exact ⟨kept, .nothing⟩
  | begin call _ ih => exact ⟨ih.1, ih.2.begin call⟩
  | move _ here turn ih =>
    rcases ih.1.turn turn with ⟨keptAfter, outcome⟩
    exact ⟨keptAfter, ih.2.move here outcome⟩

end Durable
end SaveTree
