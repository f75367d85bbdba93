import SaveTree.Proofs.Store.Memory
import SaveTree.Proofs.Virtual.Nesting

namespace SaveTree

/-!
# Operations that end

Of all operations on a tree in a store only a recursive listing of the root can go on for
ever, and only if some stored path begins with a slash.  No path that an operation stores is
such a path, but the entries of a store may have been put there by hand.
-/

open Program

namespace Session

variable {α β : Type}

/-- The session comes to an end, whatever a memory holds. -/
def Ends (session : Session α) : Prop :=
  ∀ catalog, (attempt Store.memory session catalog).1 ≠ .error .endless

namespace Ends

theorem pure (value : α) : Ends (Pure.pure value : Session α) := by
  intro catalog endless
  cases endless

theorem throw {error : FsError} (other : error ≠ .endless) :
    Ends (MonadExcept.throw error : Session α) := by
  intro catalog endless
  exact other (Except.error.inj endless)

theorem call (request : Store.Call) : Ends (Session.call request) := by
  intro catalog endless
  cases endless

theorem get (path : String) : Ends (Session.get path) :=
  call (.get path)

theorem bind {session : Session α} {next : α → Session β} (first : Ends session)
    (later : ∀ value, Ends (next value)) : Ends (session >>= next) := by
  intro catalog
  have ends := first catalog
  rcases outcome : attempt Store.memory session catalog with ⟨error | value, after⟩
  · rw [attempt_bind_of_error outcome]
    rw [outcome] at ends
    intro endless
    exact ends (congrArg Except.error (Except.error.inj endless))
  · rw [attempt_bind_of_ok outcome]
    exact later value after

theorem ite {condition : Prop} [Decidable condition] {yes no : Session α} (holds : Ends yes)
    (fails : Ends no) : Ends (if condition then yes else no) := by
  split
  · exact holds
  · exact fails

theorem forM {items : List α} {body : α → Session Unit} (each : ∀ item, Ends (body item)) :
    Ends (items.forM body) := by
  induction items with
  | nil => exact pure ()
  | cons item rest ih => exact (each item).bind fun _ => ih

theorem require {path : String} {next : String → Session β} (later : ∀ key, Ends (next key)) :
    Ends (do next (← (Key.require path : Except FsError String))) := by
  unfold Key.require
  dsimp only
  split
  · exact throw (by decide)
  · split
    · exact throw (by simp)
    · exact later _

end Ends

end Session

namespace Virtual

open Session

theorem ensureDirectories_ends (key : String) : (ensureDirectories key).Ends := by
  apply Ends.forM
  intro place
  apply Ends.bind (.get place)
  intro found
  rcases found with _ | _ | _
  · exact .call _
  · exact .throw (by simp)
  · exact .pure ()

theorem putFile_ends (key : String) (content : Content) : (putFile key content).Ends := by
  apply Ends.bind (ensureDirectories_ends _)
  intro _
  apply Ends.bind (.get key)
  intro found
  rcases found with _ | _ | _
  · exact .call _
  · exact .call _
  · exact .throw (by simp)

theorem contentAt_ends (key : String) : (contentAt key).Ends := by
  apply Ends.bind (.get key)
  intro found
  rcases found with _ | content | _
  · exact .throw (by simp)
  · exact .pure content
  · exact .throw (by simp)

theorem descendants_ends (key : String) : (descendants key).Ends :=
  .bind (.call _) fun _ => .pure _

theorem readText_ends (path : String) : (readText path).Ends := by
  apply Ends.require
  intro key
  apply Ends.bind (contentAt_ends key)
  intro content
  split
  · exact .pure _
  · exact .throw (by simp)

theorem find_ends (path : String) : (find path).Ends :=
  .ite (.pure true) (.bind (.call _) fun _ => .pure _)

theorem makeDirectory_ends (path : String) (recursive : Bool) :
    (makeDirectory path recursive).Ends := by
  apply Ends.require
  intro key
  have finish {next : Option Node → Session Unit}
      (free : next none = ensureDirectories key)
      (file : ∀ content, next (some (.file content)) = throw (.conflict key))
      (directory : next (some .directory) = ensureDirectories key) :
      Ends (Session.get key >>= next) := by
    apply Ends.bind (.get key)
    intro found
    rcases found with _ | content | _
    · rw [free]
      exact ensureDirectories_ends key
    · rw [file]
      exact .throw (by simp)
    · rw [directory]
      exact ensureDirectories_ends key
  cases recursive with
  | true => exact finish rfl (fun _ => rfl) rfl
  | false =>
    apply Ends.bind (find_ends _)
    intro found
    cases found with
    | true => exact finish rfl (fun _ => rfl) rfl
    | false => exact .throw (by simp)

theorem remove_ends (path : String) (recursive : Bool) : (remove path recursive).Ends := by
  refine .ite ?_ (.require fun key => ?_)
  · cases recursive with
    | true => exact .bind (.call _) fun _ => .call _
    | false => exact .throw (by simp)
  · apply Ends.bind (.get key)
    intro node?
    apply Ends.bind (descendants_ends key)
    intro below
    exact .ite (.pure ()) (.ite (.throw (by simp)) (.call _))

theorem copy_ends (source target : String) : (copy source target).Ends :=
  .require fun source => .require fun target =>
    .bind (contentAt_ends source) fun content => putFile_ends target content

theorem renameDirectory_ends (source target : String) : (renameDirectory source target).Ends := by
  have move : Ends (do
      ensureDirectories (Key.parent target)
      let below ← descendants source
      Session.putMany
        (⟨target, .directory⟩ ::
          below.map fun entry => ⟨Key.rebase source target entry.path, entry.node⟩)
      Session.deleteMany (below.map Entry.path ++ [source])) :=
    .bind (ensureDirectories_ends _) fun _ => .bind (descendants_ends source) fun _ =>
      .bind (.call _) fun _ => .call _
  refine .ite (.throw (by simp)) ?_
  apply Ends.bind (descendants_ends target)
  intro occupied
  apply Ends.bind (.get target)
  intro found
  rcases found with _ | _ | _
  · exact .ite (.throw (by simp)) move
  · exact .throw (by simp)
  · exact .ite (.throw (by simp)) move

theorem rename_ends (source target : String) : (rename source target).Ends := by
  apply Ends.require
  intro source
  apply Ends.require
  intro target
  apply Ends.bind (.get source)
  intro found
  cases found with
  | none => exact .throw (by simp)
  | some node =>
    apply Ends.ite (.pure ())
    cases node with
    | directory => exact renameDirectory_ends source target
    | file content => exact .bind (copy_ends source target) fun _ => .call _

/-- A listing of one level comes to an end. -/
theorem listing_false_ne_none (base : String) (entries : List Entry) :
    listing base entries false ≠ none := by
  rw [listing, listLevels_succ (fun _ => []) (by simp)]
  exact Option.some_ne_none _

/-- Some stored path begins with a slash. -/
def HoldsAbsolute (catalog : Catalog) : Prop :=
  ∃ key node, catalog.get? key = some node ∧ Path.isAbsolute key = true

theorem listing_entries_eq_none_iff {catalog : Catalog} {key : String} {recursive : Bool} :
    listing key catalog.entries recursive = none ↔
      recursive = true ∧ key = "" ∧ HoldsAbsolute catalog := by
  cases recursive with
  | false => simp [listing_false_ne_none]
  | true =>
    rw [listing_eq_none_iff]
    refine (and_congr_right fun _ => ?_).trans (and_iff_right rfl).symm
    constructor
    · rintro ⟨⟨key, node⟩, member, absolute⟩
      exact ⟨key, node, Catalog.mem_entries_iff.mp member, absolute⟩
    · rintro ⟨key, node, stored, absolute⟩
      exact ⟨⟨key, node⟩, Catalog.mem_entries_iff.mpr stored, absolute⟩

theorem list_endless_iff {catalog : Catalog} {path : String} {recursive : Bool} :
    (attempt Store.memory (list path recursive) catalog).1 = .error .endless ↔
      recursive = true ∧ Key.ofPath path = "" ∧ HoldsAbsolute catalog := by
  have finish : (attempt Store.memory (listingAt (Key.ofPath path) recursive) catalog).1 =
      .error .endless ↔ recursive = true ∧ Key.ofPath path = "" ∧ HoldsAbsolute catalog := by
    rw [attempt_listingAt, ← listing_entries_eq_none_iff]
    cases listing (Key.ofPath path) catalog.entries recursive with
    | none => simp
    | some nodes => simp
  unfold list
  dsimp only
  split
  next below =>
    rw [attempt_bind_of_ok (Store.attempt_get catalog (Key.ofPath path))]
    split
    · simp [below]
    · exact finish
  next => exact finish

/-- An operation that never comes to an end is a recursive listing of the root, with a stored
path that begins with a slash. -/
theorem perform_endless_iff {catalog : Catalog} {operation : Operation} :
    (attempt Store.memory (perform operation) catalog).1 = .error .endless ↔
      ∃ path, operation = .list path true ∧ Key.ofPath path = "" ∧ HoldsAbsolute catalog := by
  have never (ends : (perform operation).Ends) (other : ∀ path, operation ≠ .list path true) :
      (attempt Store.memory (perform operation) catalog).1 = .error .endless ↔
        ∃ path, operation = .list path true ∧ Key.ofPath path = "" ∧ HoldsAbsolute catalog := by
    constructor
    · exact fun endless => absurd endless (ends catalog)
    · rintro ⟨path, same, _⟩
      exact absurd same (other path)
  cases operation with
  | writeText path text =>
    exact never (.bind (.require fun key => putFile_ends key _) fun _ => .pure _) (by simp)
  | write path bytes =>
    exact never (.bind (.require fun key => putFile_ends key _) fun _ => .pure _) (by simp)
  | readText path => exact never (.bind (readText_ends path) fun _ => .pure _) (by simp)
  | read path =>
    exact never (.bind (.require fun key => .bind (contentAt_ends key) fun _ => .pure _)
      fun _ => .pure _) (by simp)
  | find path => exact never (.bind (find_ends path) fun _ => .pure _) (by simp)
  | makeDirectory path recursive =>
    exact never (.bind (makeDirectory_ends path recursive) fun _ => .pure _) (by simp)
  | remove path recursive =>
    exact never (.bind (remove_ends path recursive) fun _ => .pure _) (by simp)
  | copy source target => exact never (.bind (copy_ends source target) fun _ => .pure _) (by simp)
  | rename source target =>
    exact never (.bind (rename_ends source target) fun _ => .pure _) (by simp)
  | list path recursive =>
    rw [perform, attempt_answer_eq_error_iff, list_endless_iff]
    constructor
    · rintro ⟨rfl, root, holds⟩
      exact ⟨path, rfl, root, holds⟩
    · rintro ⟨other, same, root, holds⟩
      rcases Operation.list.inj same with ⟨rfl, rfl⟩
      exact ⟨rfl, root, holds⟩

end Virtual

end SaveTree
