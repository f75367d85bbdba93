import Mathlib.Data.List.Forall2
import SaveTree.Proofs.Store.Acceptance
import SaveTree.Proofs.Virtual.Ending
import SaveTree.Proofs.Virtual.Enumeration

namespace SaveTree

/-!
# Memories and documents are alike

A memory serves a batch entry by entry.  A durable store commits it at once, and
commits nothing if nothing would change.  Yet nobody who makes requests can tell the
two apart, as long as the host accepts the document: each request gets the same
result on both, up to the order of listed entries, and leaves the same under every
path.  One kind of request may never come to an end, and then it does so on both.
-/

open Program

/-! ## Batches -/

namespace Store

/-- A memory that serves each batch by single calls, one after the other. -/
def oneByOne : (call : Call) → StateM Catalog (Except FsError call.Answer)
  | .putMany entries => Program.run memory (forM entries Session.put : Session Unit).run
  | .deleteMany paths => Program.run memory (forM paths Session.delete : Session Unit).run
  | single => memory single

/-- Single calls that cannot fail, one after the other. -/
theorem attempt_forM {α : Type} {single : α → Session Unit} {change : Catalog → α → Catalog}
    (each : ∀ item catalog, attempt memory (single item) catalog = (.ok (), change catalog item))
    (items : List α) (catalog : Catalog) :
    attempt memory (forM items single) catalog = (.ok (), items.foldl change catalog) := by
  induction items generalizing catalog with
  | nil => rfl
  | cons item rest ih =>
    rw [List.forM_cons, attempt_bind_of_ok (each item catalog), ih]
    rfl

/-- To serve a batch by single calls is to serve it at once. -/
theorem oneByOne_eq_memory : oneByOne = memory := by
  funext call catalog
  cases call with
  | get path => rfl
  | list => rfl
  | put entry => rfl
  | delete path => rfl
  | putMany entries => exact attempt_forM (fun entry catalog => attempt_put catalog entry) entries catalog
  | deleteMany paths => exact attempt_forM (fun path catalog => attempt_delete catalog path) paths catalog

end Store

/-! ## Requests -/

/-- A request to an open store: a call of the store, or an operation on its tree. -/
inductive Request where
  | call (call : Store.Call)
  | operation (operation : Operation)

/-- What a request that succeeds returns. -/
inductive Reply where
  | done
  | node (found : Option Node)
  | entries (listed : List Entry)
  | answer (answer : Answer)

namespace Reply

/-- What a call returns, as a reply. -/
def ofCall : (call : Store.Call) → call.Answer → Reply
  | .get _, found => node found
  | .list, listed => entries listed
  | .put _, _ | .delete _, _ | .putMany _, _ | .deleteMany _, _ => done

/-- The results are the same, except perhaps for the order of listed entries. -/
inductive Alike : Except FsError Reply → Except FsError Reply → Prop where
  | same (result : Except FsError Reply) : Alike result result
  | entries {left right : List Entry} (perm : left.Perm right) :
      Alike (.ok (.entries left)) (.ok (.entries right))

/-- There is no result, since the request never comes to an end. -/
def isEndless : Except FsError Reply → Bool
  | .error .endless => true
  | _ => false

theorem Alike.isEndless_eq {left right : Except FsError Reply} (alike : Alike left right) :
    isEndless left = isEndless right := by
  cases alike with
  | same => rfl
  | entries => rfl

end Reply

namespace Request

/-- The request as a session. -/
def session : Request → Session Reply
  | call request => return .ofCall request (← Session.call request)
  | operation request => return .answer (← Virtual.perform request)

/-- The request never comes to an end: it lists the root with all below it, and some stored
path begins with a slash. -/
def Endless (catalog : Catalog) : Request → Prop
  | operation (.list path true) => Key.ofPath path = "" ∧ Virtual.HoldsAbsolute catalog
  | _ => False

theorem session_endless_iff {request : Request} {catalog : Catalog} :
    (attempt Store.memory request.session catalog).1 = .error .endless ↔
      request.Endless catalog := by
  cases request with
  | call request =>
    constructor
    · intro endless
      cases endless
    · exact False.elim
  | operation request =>
    rw [session, attempt_answer_eq_error_iff, Virtual.perform_endless_iff]
    constructor
    · rintro ⟨path, rfl, root, holds⟩
      exact ⟨root, holds⟩
    · intro endless
      unfold Endless at endless
      split at endless
      next path same =>
        cases same
        exact ⟨path, rfl, endless⟩
      next => exact endless.elim

end Request

/-- What is seen of an open store when a request has been served. -/
structure Observation where
  result : Except FsError Reply
  catalog : Catalog

/-- The results are alike, and the stores hold the same. -/
structure Observation.Alike (left right : Observation) : Prop where
  results : Reply.Alike left.result right.result
  catalogs : left.catalog.Same right.catalog

/-- What is seen of an open store while it serves requests.  Behind a request that never comes
to an end there is nothing more to see. -/
def Backend.observe (backend : Backend) (machine : Host.Machine) : List Request → List Observation
  | [] => []
  | request :: rest =>
    let ((result, backend), machine) := machine.run ((Backend.run request.session).run backend)
    ⟨result, backend.catalog⟩ ::
      if Reply.isEndless result then [] else backend.observe machine rest

namespace Catalog.Same

variable {left right : Catalog}

/-- A call keeps catalogs the same. -/
theorem effect (same : left.Same right) (call : Store.Call) :
    (call.effect left).Same (call.effect right) := by
  cases call with
  | get path => exact same
  | list => exact same
  | put entry => exact same.put entry
  | delete path => exact same.erase path
  | putMany entries =>
    -- the entries may not be coherent, but they are put in the same order
    show (entries.foldl Catalog.put left).Same (entries.foldl Catalog.put right)
    induction entries generalizing left right with
    | nil => exact same
    | cons entry rest ih => exact ih (same.put entry)
  | deleteMany paths => exact same.eraseAll (.refl paths)

/-- A call gets like answers from catalogs that are the same. -/
theorem answer (same : left.Same right) (call : Store.Call) :
    Reply.Alike (.ok (.ofCall call (call.answer left))) (.ok (.ofCall call (call.answer right))) := by
  cases call with
  | get path =>
    have found : (Store.Call.get path).answer left = (Store.Call.get path).answer right := same path
    rw [found]
    exact .same _
  | list => exact .entries (entries_perm same)
  | put entry => exact .same _
  | delete path => exact .same _
  | putMany entries => exact .same _
  | deleteMany paths => exact .same _

/-- A request is served alike on catalogs that are the same. -/
theorem attempt_session (same : left.Same right) (request : Request) :
    Reply.Alike (attempt Store.memory request.session left).1
        (attempt Store.memory request.session right).1 ∧
      (attempt Store.memory request.session left).2.Same
        (attempt Store.memory request.session right).2 := by
  cases request with
  | call request => exact ⟨same.answer request, same.effect request⟩
  | operation request =>
    have agree := Virtual.perform_agrees request same
    rw [Request.session, attempt_answer, attempt_answer, agree.same]
    exact ⟨.same _, agree.related⟩

end Catalog.Same

namespace Backend

open Host

variable {document : String} {machine other : Machine} {held image : Catalog}

/-- A program on a memory leaves the host alone. -/
theorem run_memory {α : Type} (program : Program Store.calls α) (held : Catalog) (machine : Machine) :
    machine.run ((program.run serve).run (memory held)) =
      let (result, next) := (Program.run Store.memory program : StateM Catalog α).run held
      ((result, memory next), machine) := by
  induction program generalizing held with
  | done value => rfl
  | call request next ih => exact ih (.ok (request.answer held)) (request.effect held)

/-- A memory and a durable store are seen alike from states that are alike. -/
theorem observe_alike (working : Durable.Working document machine image) (same : held.Same image)
    (requests : List Request) :
    List.Forall₂ Observation.Alike ((memory held).observe other requests)
      ((durable ⟨document, image⟩).observe machine requests) := by
  induction requests generalizing held image machine with
  | nil => exact .nil
  | cons request rest ih =>
    rcases working.run request.session.run with
      ⟨result, next, after, inMemory, onHost, workingAfter⟩
    rcases same.attempt_session request with ⟨results, catalogs⟩
    have ends : attempt Store.memory request.session image = (result, next) := inMemory
    rw [ends] at results catalogs
    have onHost : machine.run ((run request.session).run (durable ⟨document, image⟩)) = _ := onHost
    have onMemory : other.run ((run request.session).run (memory held)) = _ :=
      run_memory request.session.run held other
    rw [observe, observe, onHost, onMemory]
    refine .cons ⟨results, catalogs⟩ ?_
    show List.Forall₂ Observation.Alike
      (if Reply.isEndless (attempt Store.memory request.session held).1 then [] else _) _
    rw [results.isEndless_eq]
    split
    · exact .nil
    · exact ih workingAfter catalogs

/-- A memory and a durable store that start with the same entries, some perhaps
under one path.  The store opens, and from then on the two are seen alike, whatever
is requested of them: each request comes to an end on both with the same result, or
on neither.  It comes to none if and only if the root is listed with all below it
while some stored path begins with a slash.  A memory could as well serve each batch
by single calls. -/
theorem memory_and_document_alike {bytes : ByteArray} {entries : List Entry}
    (begins : machine.disk.kind? (machine.start document) = some .directory)
    (holds : machine.contents document = .ok bytes)
    (lists : Json.parse Document.ofDraft (.ofBytes bytes) = .ok (Document.version, entries))
    (accepts : Durable.Accepts document machine)
    (same : held.Same (.ofEntries entries)) (requests : List Request) :
    Store.oneByOne = Store.memory ∧
    (∀ (request : Request) (catalog : Catalog),
      (attempt Store.memory request.session catalog).1 = .error .endless ↔
        request.Endless catalog) ∧
    ∃ store, machine.run (Durable.openAt document).run = (.ok store, machine) ∧
      held.Same store.image ∧
      List.Forall₂ Observation.Alike ((memory held).observe other requests)
        ((durable store).observe machine requests) := by
  have site := Durable.site_of_contents begins holds
  have opens : machine.run (Durable.openAt document).run =
      (.ok ⟨document, .ofEntries entries⟩, machine) := by
    rw [site.run_openAt_eq, holds, Durable.outcome, Document.decode, lists]
    rfl
  have working : Durable.Working document machine (.ofEntries entries) :=
    ⟨Durable.exists_ready site accepts, .ofEntries entries, opens, fun _ => rfl⟩
  exact ⟨Store.oneByOne_eq_memory, fun _ _ => Request.session_endless_iff, _, opens, same,
    observe_alike working same requests⟩

/-- Two entries under one path, batches that name a path twice or none that is
there, an operation that fails, and one that never comes to an end. -/
theorem memory_and_document_alike_in_batches :
    let requests : List Request :=
      [.call (.putMany [⟨"b", .directory⟩, ⟨"b", .file (.text "1")⟩]),
        .call (.deleteMany ["c", "a", "a"]), .call (.deleteMany ["c"]), .call .list,
        .operation (.writeText "b/d" "2"), .operation (.list "" true),
        .call (.put ⟨"/x", .directory⟩), .operation (.list "." true)]
    let held : Catalog := .ofEntries [⟨"a", .file (.text "")⟩, ⟨"a", .directory⟩]
    ∃ (machine : Machine) (store : Durable),
      machine.run (Durable.openAt "saves").run = (.ok store, machine) ∧
      store.image.get? "a" = some .directory ∧
      List.Forall₂ Observation.Alike ((memory held).observe ⟨.empty, []⟩ requests)
        ((durable store).observe machine requests) ∧
      (attempt Store.memory (Request.operation (.list "." true)).session
        (.ofEntries [⟨"/x", .directory⟩])).1 = .error .endless := by
  intro requests held
  let entries : List Entry := [⟨"a", .file (.text "")⟩, ⟨"a", .directory⟩]
  let bytes := (Document.listing entries).pretty.toUTF8
  let machine : Machine := ⟨Disk.empty.putFile ["saves"] bytes, []⟩
  have accepts : Durable.Accepts "saves" machine := fun _ => ⟨_, _, rfl, rfl⟩
  rcases memory_and_document_alike rfl rfl (Document.parse_listing .indented entries) accepts
    (.refl _) requests with ⟨_, endless, store, opens, same, alike⟩
  refine ⟨machine, store, opens, (same "a").symm, alike, (endless _ _).mpr ⟨by decide, ?_⟩⟩
  exact ⟨"/x", .directory, rfl, by decide⟩

end Backend
end SaveTree
