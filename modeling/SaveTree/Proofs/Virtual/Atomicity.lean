import SaveTree.Proofs.Virtual.Walk

namespace SaveTree
namespace Virtual

open Catalog Key Program

/-!
# Operations that fail change nothing

An operation creates the directories above its target before it looks at the
target itself, so it could fail with some directories made.  In a save tree it
cannot: where a directory is missing nothing stands below it, so that the target
is free and no later check fails; and where a check fails, something stands at the
target or a file above it, so that no directory was missing.
-/

variable {catalog : Catalog} {key : String}

/-- If the session fails it leaves the catalog as it was. -/
def FailsClean {α : Type} (session : Session α) (catalog : Catalog) : Prop :=
  ∀ error after, attempt Store.memory session catalog = (.error error, after) → after = catalog

namespace FailsClean

variable {α β : Type} {session : Session α} {next : α → Session β}

theorem pure (value : α) : FailsClean (Pure.pure value) catalog := by
  intro error after fails
  cases fails

theorem throw (error : FsError) : FailsClean (MonadExcept.throw error : Session α) catalog := by
  intro _ after fails
  cases fails
  rfl

theorem call (request : Store.Call) : FailsClean (Session.call request) catalog := by
  intro error after fails
  cases fails

/-- A first part that changes nothing, followed by one that fails clean. -/
theorem bind_of_ok {value : α} (first : attempt Store.memory session catalog = (.ok value, catalog))
    (later : FailsClean (next value) catalog) : FailsClean (session >>= next) catalog := by
  intro error after fails
  rw [attempt_bind_of_ok first] at fails
  exact later error after fails

/-- A first part that fails clean, followed by one that does not fail. -/
theorem bind_of_never (first : FailsClean session catalog)
    (never : ∀ value between error after,
      attempt Store.memory session catalog = (.ok value, between) →
      attempt Store.memory (next value) between ≠ (.error error, after)) :
    FailsClean (session >>= next) catalog := by
  intro error after fails
  rcases attempt_bind_eq_error fails with early | ⟨value, between, reached, late⟩
  · exact first error after early
  · exact absurd late (never value between error after reached)

/-- What is returned in the end is of no matter. -/
theorem answer (first : FailsClean session catalog) (result : α → β) :
    FailsClean (do return result (← session)) catalog := by
  apply first.bind_of_never
  intro value between error after _ fails
  cases fails

/-- A path that is admitted, or nothing happens. -/
theorem require {path : String} {next : String → Session β}
    (later : ∀ key, Canonical key → FailsClean (next key) catalog) :
    FailsClean (do next (← (Key.require path : Except FsError String))) catalog := by
  cases admitted : Key.require path with
  | error error => exact throw error
  | ok key => exact later key (canonical_of_require admitted)

/-- A look-up, whatever it finds. -/
theorem get {next : Option Node → Session β} (later : FailsClean (next (catalog.get? key)) catalog) :
    FailsClean (Session.get key >>= next) catalog :=
  bind_of_ok (Store.attempt_get catalog key) later

end FailsClean

theorem ensureDirectories_failsClean (tree : IsSaveTree catalog) (canonical : Canonical key) :
    FailsClean (ensureDirectories key) catalog := by
  intro error after fails
  rw [attempt_ensureDirectories tree canonical] at fails
  split at fails
  · cases fails
  · cases fails
    rfl

theorem ensureParent_failsClean (tree : IsSaveTree catalog) (canonical : Canonical key) :
    FailsClean (ensureDirectories (parent key)) catalog := by
  intro error after fails
  rw [attempt_ensureParent tree canonical] at fails
  split at fails
  · cases fails
  · cases fails
    rfl

/-- Where the walk above a key succeeds, it has put all that was missing there. -/
theorem eq_furnish_of_ensureParent {between : Catalog} (tree : IsSaveTree catalog)
    (canonical : Canonical key)
    (walked : attempt Store.memory (ensureDirectories (parent key)) catalog = (.ok (), between)) :
    between = catalog.furnish (chain (parent key)) := by
  rw [attempt_ensureParent tree canonical] at walked
  split at walked
  · cases walked
    rfl
  · cases walked

/-- The walk above a key loses nothing. -/
theorem get?_of_ensureParent {between : Catalog} {other : String} {node : Node}
    (tree : IsSaveTree catalog) (canonical : Canonical key)
    (walked : attempt Store.memory (ensureDirectories (parent key)) catalog = (.ok (), between))
    (stored : catalog.get? other = some node) : between.get? other = some node := by
  rw [eq_furnish_of_ensureParent tree canonical walked, get?_furnish, stored]
  split <;> rfl

/-- The walk above a key does not change what is stored under the key. -/
theorem get?_furnish_parent (canonical : Canonical key) :
    (catalog.furnish (chain (parent key))).get? key = catalog.get? key := by
  rw [get?_furnish, if_neg]
  intro inside
  have below := (mem_chain_parent_iff canonical).mp inside
  rw [not_isBelow_self] at below
  cases below

/-- A directory that is in the way was there before, and so was all above it. -/
theorem putFile_failsClean {content : Content} (tree : IsSaveTree catalog)
    (canonical : Canonical key) : FailsClean (putFile key content) catalog := by
  intro error after fails
  rcases attempt_bind_eq_error fails with early | ⟨_, between, walked, late⟩
  · exact ensureParent_failsClean tree canonical error after early
  · cases eq_furnish_of_ensureParent tree canonical walked
    rw [attempt_bind_of_ok (Store.attempt_get _ key), get?_furnish_parent canonical] at late
    cases found : catalog.get? key with
    | none =>
      rw [found] at late
      cases late
    | some node =>
      rw [found] at late
      cases node with
      | file old => cases late
      | directory =>
        cases late
        exact furnish_above_stored tree found

theorem attempt_contentAt_of_file {content : Content}
    (file : catalog.get? key = some (.file content)) :
    attempt Store.memory (contentAt key) catalog = (.ok content, catalog) := by
  rw [contentAt, attempt_bind_of_ok (Store.attempt_get catalog key), file]
  rfl

theorem attempt_contentAt_of_not_file (notFile : catalog.isFile key = false) :
    attempt Store.memory (contentAt key) catalog = (.error (.fileNotFound key), catalog) := by
  rw [contentAt, attempt_bind_of_ok (Store.attempt_get catalog key)]
  rcases get?_of_not_file notFile with found | found <;> rw [found] <;> rfl

/-- What is done with the content of a file, if there is one. -/
theorem FailsClean.contentAt {β : Type} {next : Content → Session β}
    (later : ∀ content, FailsClean (next content) catalog) :
    FailsClean (Virtual.contentAt key >>= next) catalog := by
  cases file : catalog.isFile key with
  | true =>
    rcases isFile_iff.mp file with ⟨content, stored⟩
    exact bind_of_ok (attempt_contentAt_of_file stored) (later content)
  | false =>
    intro error after failed
    rw [attempt_bind_of_error (attempt_contentAt_of_not_file file)] at failed
    cases failed
    rfl

theorem attempt_descendants (catalog : Catalog) (key : String) :
    attempt Store.memory (descendants key) catalog = (.ok (catalog.below key), catalog) :=
  rfl

theorem writeFile_failsClean {path : String} {content : Content} (tree : IsSaveTree catalog) :
    FailsClean (writeFile path content) catalog :=
  .require fun _ canonical => putFile_failsClean tree canonical

theorem readText_failsClean {path : String} : FailsClean (readText path) catalog := by
  apply FailsClean.require
  intro key _
  apply FailsClean.contentAt
  intro content
  cases content.toText? with
  | none => exact .throw _
  | some text => exact .pure text

theorem readBytes_failsClean {path : String} : FailsClean (readBytes path) catalog := by
  apply FailsClean.require
  intro key _
  exact .contentAt fun content => .pure content.toBytes

/-- Looking for a path never fails and changes nothing. -/
theorem exists_of_find (catalog : Catalog) (path : String) :
    ∃ found, attempt Store.memory (find path) catalog = (.ok found, catalog) := by
  unfold find
  dsimp only
  split
  · exact ⟨true, rfl⟩
  · exact ⟨(catalog.get? (ofPath path)).isSome, rfl⟩

theorem makeDirectory_failsClean {path : String} {recursive : Bool} (tree : IsSaveTree catalog) :
    FailsClean (makeDirectory path recursive) catalog := by
  apply FailsClean.require
  intro key canonical
  have walk := ensureDirectories_failsClean tree canonical
  -- what follows the look at the parent, whichever branch it is reached by
  have finish : ∀ {next : Option Node → Session Unit},
      (∀ content, next (some (.file content)) = throw (.conflict key)) →
      next (some .directory) = ensureDirectories key → next none = ensureDirectories key →
      FailsClean (Session.get key >>= next) catalog := by
    intro next occupied present missing
    apply FailsClean.get
    cases catalog.get? key with
    | none => rwa [missing]
    | some node =>
      cases node with
      | directory => rwa [present]
      | file content =>
        rw [occupied]
        exact .throw (.conflict key)
  cases recursive with
  | true => exact finish (fun _ => rfl) rfl rfl
  | false =>
    rcases exists_of_find catalog (parent key) with ⟨found, looks⟩
    apply FailsClean.bind_of_ok looks
    cases found with
    | true => exact finish (fun _ => rfl) rfl rfl
    | false => exact .throw (.parentMissing (parent key))

theorem listingAt_failsClean {recursive : Bool} :
    FailsClean (listingAt key recursive) catalog := by
  apply FailsClean.bind_of_ok (Store.attempt_list catalog)
  split
  · exact .pure _
  · exact .throw .endless

theorem list_failsClean {path : String} {recursive : Bool} :
    FailsClean (list path recursive) catalog := by
  unfold list
  dsimp only
  split
  · apply FailsClean.get
    split
    · exact .throw (.directoryNotFound (ofPath path))
    · exact listingAt_failsClean
  · exact listingAt_failsClean

theorem remove_failsClean {path : String} {recursive : Bool} :
    FailsClean (remove path recursive) catalog := by
  unfold remove
  split
  · cases recursive with
    | true => exact .bind_of_ok (Store.attempt_list catalog) (.call _)
    | false => exact .throw .rootRemoval
  · apply FailsClean.require
    intro key _
    apply FailsClean.get
    apply FailsClean.bind_of_ok (attempt_descendants catalog key)
    dsimp only
    split
    · exact .pure ()
    · split
      · exact .throw (.directoryNotEmpty key)
      · exact .call _

theorem copy_failsClean {source target : String} (tree : IsSaveTree catalog) :
    FailsClean (copy source target) catalog := by
  apply FailsClean.require
  intro source _
  apply FailsClean.require
  intro target canonical
  exact .contentAt fun _ => putFile_failsClean tree canonical

/-- A directory that is moved meets all its obstacles before anything is put. -/
theorem renameDirectory_failsClean {source target : String} (tree : IsSaveTree catalog)
    (canonical : Canonical target) : FailsClean (renameDirectory source target) catalog := by
  have finish : FailsClean (do
      ensureDirectories (parent target)
      let below ← descendants source
      Session.putMany (copied source target below)
      Session.deleteMany (below.map Entry.path ++ [source])) catalog := by
    apply (ensureParent_failsClean tree canonical).bind_of_never
    intro _ between error after _ fails
    cases fails
  unfold renameDirectory
  dsimp only
  split
  · exact .throw (.moveIntoItself source)
  · apply FailsClean.bind_of_ok (attempt_descendants catalog target)
    apply FailsClean.get
    split
    · exact .throw (.conflict target)
    · split
      · exact .throw (.destinationNotEmpty target)
      · exact finish

theorem rename_failsClean {source target : String} (tree : IsSaveTree catalog) :
    FailsClean (rename source target) catalog := by
  apply FailsClean.require
  intro source _
  apply FailsClean.require
  intro target canonical
  apply FailsClean.get
  cases catalog.get? source with
  | none => exact .throw (.fileNotFound source)
  | some node =>
    dsimp only
    split
    · exact .pure ()
    · cases node with
      | directory => exact renameDirectory_failsClean tree canonical
      | file content =>
        apply (copy_failsClean tree).bind_of_never
        intro _ between error after _ fails
        cases fails

/-- Every operation that fails in memory leaves the catalog as it was. -/
theorem perform_failsClean (tree : IsSaveTree catalog) (operation : Operation) :
    FailsClean (perform operation) catalog := by
  cases operation with
  | writeText path text => exact (writeFile_failsClean tree).answer fun _ => Answer.done
  | write path bytes => exact (writeFile_failsClean tree).answer fun _ => Answer.done
  | readText path => exact readText_failsClean.answer Answer.text
  | read path => exact readBytes_failsClean.answer Answer.bytes
  | find path =>
    rcases exists_of_find catalog path with ⟨found, looks⟩
    exact .bind_of_ok looks (.pure _)
  | makeDirectory path recursive => exact (makeDirectory_failsClean tree).answer fun _ => Answer.done
  | list path recursive => exact list_failsClean.answer Answer.listing
  | remove path recursive => exact remove_failsClean.answer fun _ => Answer.done
  | copy source target => exact (copy_failsClean tree).answer fun _ => Answer.done
  | rename source target => exact (rename_failsClean tree).answer fun _ => Answer.done

end Virtual

namespace Backend

/-- On every open store that holds a save tree, an operation that fails although the
host refuses nothing leaves the catalog exactly as it was. -/
theorem unchanged_of_failure {operation : Operation} {before after : Backend} {error : FsError}
    (tree : before.catalog.IsSaveTree)
    (fails : Program.Runs Host.willing ((run (Virtual.perform operation)).run before) ()
      (.error error, after) ()) :
    after.catalog = before.catalog :=
  Virtual.perform_failsClean tree operation error after.catalog (attempt_of_runs fails)

/-- A copy whose target has a file for an ancestor. -/
theorem unchanged_of_failure_below_file :
    ∃ before after : Backend, before.catalog.isFile "a/b" = true ∧
      Program.Runs Host.willing ((run (Virtual.perform (.copy "a/b" "a/b/c/d"))).run before) ()
        (.error (.notADirectory "a/b"), after) () ∧
      after.catalog = before.catalog := by
  have reached : Reached (.durable ⟨"saves",
      Catalog.put (Catalog.put .empty ⟨"a", .directory⟩) ⟨"a/b", .file (.text "x")⟩⟩) :=
    Reached.perform (.writeText "a/b" "x") (.durable "saves")
      (.call (show Host.unknown.turn () (.write _ _) (.ok ()) () from trivial)
        (.call (show Host.unknown.turn () (.rename _ _) (.ok ()) () from trivial)
          (.call (show Host.unknown.turn () (.write _ _) (.ok ()) () from trivial)
            (.call (show Host.unknown.turn () (.rename _ _) (.ok ()) () from trivial)
              (.done _ _)))))
  refine ⟨_, ?after, ?stored, ?fails, unchanged_of_failure (isSaveTree_of_reached reached) ?fails⟩
  case fails => exact .done _ _
  case stored => rfl

end Backend

end SaveTree
