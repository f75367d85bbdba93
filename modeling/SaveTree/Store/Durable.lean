import SaveTree.Host.Directories
import SaveTree.Settings.Basic
import SaveTree.Store.Document

namespace SaveTree

/-!
# Durable stores

A durable store keeps its catalog in memory and in a document on the host.  A
call that changes the catalog is a transaction.  The document of the new catalog
is written to a file beside the old one and then renamed over it, and only then
does the new catalog count.  A call that changes nothing writes nothing.
-/

/-- A store in a document on the host. -/
structure Durable where
  /-- The document's path. -/
  document : String
  /-- What the document holds. -/
  image : Catalog

namespace Durable

/-- The file beside the document that is written first. -/
def temporary (document : String) : String :=
  Host.Location.withFileName document ((Host.Location.fileName? document).getD "" ++ ".tmp")

/-- Writes a catalog's document. -/
def commit (document : String) (catalog : Catalog) : Host.Action Unit := do
  Host.write (temporary document) (Document.encode catalog)
  Host.rename (temporary document) document

/-- Commits the catalog as it is after a change, and makes it the image. -/
def transact (change : Catalog → Catalog) : StateT Durable Host.Program (Except FsError Unit) := do
  let store ← get
  let next := change store.image
  match ← (commit store.document next).run with
  | .ok () =>
    set { store with image := next }
    return .ok ()
  | .error error => return .error (.host error)

/-- The call would change an image.  Storing counts as a change even if the same
entry is there. -/
def concerns (image : Catalog) : Store.Call → Bool
  | .get _ | .list => false
  | .put _ => true
  | .delete path => image.contains path
  | .putMany entries => !entries.isEmpty
  | .deleteMany paths => paths.any image.contains

/-- Answers a call. -/
def serve (call : Store.Call) : StateT Durable Host.Program (Except FsError call.Answer) := do
  let image := (← get).image
  if concerns image call then
    match ← transact call.effect with
    | .ok () => return .ok (call.answer image)
    | .error error => return .error error
  else return .ok (call.answer image)

/-- Opens the store in a document.  The directories above it are created; the
document itself may be missing. -/
def openAt (document : String) : ExceptT FsError Host.Program Durable := do
  match Host.Location.parent? document with
  | none | some "" => pure ()
  | some parent => Host.orFail (.storeUnavailable document) (Host.createDirectories parent)
  match ← (Host.read document).run with
  | .ok bytes => return ⟨document, ← (Document.decode document bytes : Except FsError Catalog)⟩
  | .error .notFound => return ⟨document, .empty⟩
  | .error error => throw (.storeUnavailable document error)

end Durable

/-- An open store. -/
inductive Backend where
  | memory (catalog : Catalog)
  | durable (store : Durable)

namespace Backend

/-- What the store holds. -/
def catalog : Backend → Catalog
  | memory catalog => catalog
  | durable store => store.image

/-- Answers a call. -/
def serve (call : Store.Call) : StateT Backend Host.Program (Except FsError call.Answer) := do
  match ← get with
  | memory catalog =>
    let (reply, catalog) := (Store.memory call).run catalog
    set (memory catalog)
    return reply
  | durable store =>
    let (reply, store) ← (Durable.serve call).run store
    set (durable store)
    return reply

/-- Opens the store that the settings choose. -/
def openChoice : StoreChoice → ExceptT FsError Host.Program Backend
  | .memory => return memory .empty
  | .durable path => return durable (← Durable.openAt path)
  | .auto path => do
    try return durable (← Durable.openAt path)
    catch _ => return memory .empty

/-- Runs a session on the store. -/
def run {α : Type} (session : Session α) : StateT Backend Host.Program (Except FsError α) :=
  Program.run serve session.run

end Backend

end SaveTree
