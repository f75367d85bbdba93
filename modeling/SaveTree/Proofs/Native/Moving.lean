import SaveTree.Proofs.Native.Operations

namespace SaveTree
namespace Native

open Host Location Machine Program Catalog

/-!
# Moving on two trees

A directory of the host is moved by one call.  In a store it is moved by putting
everything below it under new keys and deleting the old ones.  The directories
above the target are made at different times: on the host before anything is known
of the target, in a store after all checks.  In a tree that makes no difference,
since nothing is missing above a target that is there.
-/

variable {root : String} {place : Place} {initial machine : Machine} {catalog : Catalog}
  {content : Content}

section Moving

variable {source target : List String} (follows : Follows root place initial machine catalog)
  (addressed : Addressed root source) (addressedTarget : Addressed root target)
  (grounded : Grounded catalog (Key.text target)) (notBelow : ¬ source <+: target)

include follows addressed addressedTarget grounded notBelow

/-- One call moves a file; the other side puts it at the target and deletes the old
one. -/
theorem moveFile_agrees (file : catalog.get? (Key.text source) = some (.file content))
    (free : catalog.get? (Key.text target) ≠ some .directory) :
    Agree (Follows root place initial)
      (attempt Machine.serve (onHost (Host.rename (hostPath root (Key.text source))
        (hostPath root (Key.text target)))) machine)
      (attempt Store.memory (Session.delete (Key.text source))
        (catalog.put ⟨Key.text target, .file content⟩)) := by
  have different : source ≠ target := fun same => notBelow (same ▸ List.prefix_refl source)
  have differentText : Key.text source ≠ Key.text target := fun same =>
    different (Key.text_injective addressed.areNames addressedTarget.areNames same)
  have alike : ∀ found, catalog.get? (Key.text target) = some found →
      found.kind = (Node.file content).kind := by
    intro found stored
    cases found with
    | file other => rfl
    | directory => exact absurd stored free
  have tree : IsSaveTree (Table.erase (catalog.put ⟨Key.text target, .file content⟩)
      (Key.text source)) := by
    have put := follows.tree.put addressedTarget.canonical grounded
      (.inr free : Node.file content = .directory ∨ _)
    have erased : (Table.erase (catalog.put ⟨Key.text target, .file content⟩) (Key.text source)) =
      (catalog.put ⟨Key.text target, .file content⟩).eraseAll [Key.text source] := rfl
    rw [erased]
    apply put.eraseAll
    intro above gone other found stored below
    rw [List.mem_singleton.mp gone, put.isBelow_eq_false _ stored] at below
    · cases below
    · rw [get?_put, if_neg differentText, file]
      nofun
  rcases follows.attempt_rename addressed addressedTarget file grounded alike
    (below_eq_nil_of_leaf follows.tree free) notBelow tree
    (moved_file follows.tree addressed.areNames addressed.nonempty addressedTarget.areNames
      addressedTarget.nonempty file free different) with ⟨after, renames, moved⟩
  rw [renames]
  exact ⟨rfl, moved⟩

/-- One call moves a directory; the other side copies it and deletes the old one. -/
theorem moveDirectory_agrees (directory : catalog.get? (Key.text source) = some .directory)
    (alike : ∀ found, catalog.get? (Key.text target) = some found → found = .directory)
    (free : catalog.below (Key.text target) = []) :
    Agree (Follows root place initial)
      (attempt Machine.serve (onHost (Host.rename (hostPath root (Key.text source))
        (hostPath root (Key.text target)))) machine)
      (attempt Store.memory (do
        let below ← Virtual.descendants (Key.text source)
        Session.putMany (copied (Key.text source) (Key.text target) below)
        Session.deleteMany (below.map Entry.path ++ [Key.text source])) catalog) := by
  have differentText : Key.text source ≠ Key.text target := by
    intro same
    exact notBelow (Key.text_injective addressed.areNames addressedTarget.areNames same ▸
      List.prefix_refl source)
  have notInside : Key.isBelow (Key.text source) (Key.text target) = false := by
    apply Bool.eq_false_iff.mpr
    intro below
    exact notBelow ((Key.isBelow_text_text_iff addressed.areNames addressedTarget.areNames
      addressed.nonempty).mp below).1
  rcases follows.attempt_rename addressed addressedTarget directory grounded
    (fun found stored => congrArg Node.kind (alike found stored)) free notBelow
    (follows.tree.eraseAll_copied addressedTarget.canonical grounded free differentText notInside
      directory)
    (moved_directory follows.tree addressed.areNames addressed.nonempty addressedTarget.areNames
      addressedTarget.nonempty directory free notBelow) with ⟨after, renames, moved⟩
  rw [renames]
  exact ⟨rfl, moved⟩

end Moving

/-- The part of a move that may change something. -/
def renameOnto (root source target : String) (kind : Kind) : Act Unit := do
  ensureDirectories root (Key.parent target)
  match ← kind? root target with
  | none => pure ()
  | some found =>
    if found ≠ kind then throw (.conflict target)
    if found = .directory then
      if (← onHost (Host.list (hostPath root target))) ≠ [] then
        throw (.destinationNotEmpty target)
  onHost (Host.rename (hostPath root source) (hostPath root target))

section Renaming

variable {source target : List String} (follows : Follows root place initial machine catalog)
  (addressed : Addressed root source) (addressedTarget : Addressed root target)
  (notBelow : ¬ source <+: target)

include follows addressed addressedTarget notBelow

theorem renameFile_agrees (file : catalog.get? (Key.text source) = some (.file content)) :
    Agree (Follows root place initial)
      (attempt Machine.serve (renameOnto root (Key.text source) (Key.text target) .file) machine)
      (attempt Store.memory (do
        Virtual.putFile (Key.text target) content
        Session.delete (Key.text source)) catalog) := by
  rw [Virtual.putFile, bind_assoc]
  apply (ensureParent_agrees follows addressedTarget).bind
  intro _ after between _ walked related
  have grounded : Grounded between (Key.text target) := fun above below =>
    Virtual.directory_of_ensureParent follows.tree addressedTarget.canonical walked below
  have stillFile := Virtual.get?_of_ensureParent follows.tree addressedTarget.canonical walked file
  have moves := moveFile_agrees related addressed addressedTarget grounded notBelow stillFile
  rw [attempt_bind_of_ok (related.attempt_kind_of_clear addressedTarget grounded.clear), bind_assoc,
    attempt_bind_of_ok (Store.attempt_get between (Key.text target))]
  cases found : between.get? (Key.text target) with
  | none => exact moves (found ▸ nofun)
  | some occupied =>
    cases occupied with
    | file other => exact moves (found ▸ nofun)
    | directory => exact ⟨rfl, related⟩

theorem renameDirectory_agrees (directory : catalog.get? (Key.text source) = some .directory) :
    Agree (Follows root place initial)
      (attempt Machine.serve (renameOnto root (Key.text source) (Key.text target) .directory) machine)
      (attempt Store.memory (Virtual.renameDirectory (Key.text source) (Key.text target)) catalog) := by
  have notInside : ¬ Key.isBelow (Key.text source) (Key.text target) = true := by
    intro below
    exact notBelow ((Key.isBelow_text_text_iff addressed.areNames addressedTarget.areNames
      addressed.nonempty).mp below).1
  unfold Virtual.renameDirectory
  dsimp only
  rw [if_neg notInside, attempt_bind_of_ok (Virtual.attempt_descendants catalog (Key.text target)),
    attempt_bind_of_ok (Store.attempt_get catalog (Key.text target))]
  cases stored : catalog.get? (Key.text target) with
  | none =>
    rw [below_eq_nil_of_leaf follows.tree (stored ▸ nofun)]
    apply (ensureParent_agrees follows addressedTarget).bind
    intro _ after between _ walked related
    have grounded : Grounded between (Key.text target) := fun above below =>
      Virtual.directory_of_ensureParent follows.tree addressedTarget.canonical walked below
    have missing : between.get? (Key.text target) = none := by
      rw [Virtual.eq_furnish_of_ensureParent follows.tree addressedTarget.canonical walked,
        Virtual.get?_furnish_parent addressedTarget.canonical, stored]
    have stillDirectory :=
      Virtual.get?_of_ensureParent follows.tree addressedTarget.canonical walked directory
    rw [attempt_bind_of_ok (related.attempt_kind_of_clear addressedTarget grounded.clear), missing]
    exact moveDirectory_agrees related addressed addressedTarget grounded notBelow stillDirectory
      (missing ▸ nofun) (below_eq_nil_of_leaf related.tree (missing ▸ nofun))
  | some occupied =>
    have grounded : Grounded catalog (Key.text target) :=
      fun above below => follows.tree.rooted stored below
    have walked := Virtual.attempt_ensureParent_of_stored follows.tree stored
    have walks := ensureParent_agrees follows addressedTarget
    rw [walked] at walks
    rcases walks.exists_of_right with ⟨after, walks, related⟩
    rw [renameOnto, attempt_bind_of_ok walks,
      attempt_bind_of_ok (related.attempt_kind_of_clear addressedTarget grounded.clear), stored]
    cases occupied with
    | file other => exact ⟨rfl, related⟩
    | directory =>
      apply Agree.bind_left (related.attempt_list addressedTarget.areSteps addressedTarget.fits
        (related.stands_of_stored addressedTarget stored))
      have empty_iff := related.mirrors.children_eq_nil_iff addressedTarget.areNames
        addressedTarget.nonempty
      by_cases empty : catalog.below (Key.text target) = []
      · have alike : ∀ found, catalog.get? (Key.text target) = some found → found = .directory := by
          intro found again
          rw [stored] at again
          exact (Option.some.inj again).symm
        have moves := moveDirectory_agrees related addressed addressedTarget grounded notBelow
          directory alike empty
        rw [empty_iff.mpr empty, empty]
        exact .bind_right walked moves
      · rcases List.exists_cons_of_ne_nil empty with ⟨entry, rest, listed⟩
        rw [if_pos (fun none => empty (empty_iff.mp none)), listed]
        exact ⟨rfl, related⟩

end Renaming

/-- Keys are their own keys. -/
theorem copy_eq {source target : List String} (addressed : Addressed root source)
    (addressedTarget : Addressed root target) :
    Virtual.copy (Key.text source) (Key.text target) =
      (Virtual.contentAt (Key.text source) >>= Virtual.putFile (Key.text target)) := by
  rw [Virtual.copy, Key.require_text addressed.areNames addressed.nonempty,
    Key.require_text addressedTarget.areNames addressedTarget.nonempty]
  rfl

/-- A file is not moved below itself. -/
theorem idle_moveBelow {source target : List String}
    (follows : Follows root place initial machine catalog) (addressed : Addressed root source)
    (addressedTarget : Addressed root target)
    (file : catalog.get? (Key.text source) = some (.file content))
    (below : Key.isBelow (Key.text source) (Key.text target) = true) :
    (attempt Store.memory (do
      Virtual.copy (Key.text source) (Key.text target)
      Session.delete (Key.text source)) catalog).2 = catalog := by
  have inside := (Key.mem_chain_parent_iff addressedTarget.canonical).mpr below
  rcases Virtual.exists_error_of_file inside (isFile_iff.mpr ⟨content, file⟩) with
    ⟨error, after, fails⟩
  rw [copy_eq addressed addressedTarget, bind_assoc,
    attempt_bind_of_ok (Virtual.attempt_contentAt_of_file file), Virtual.putFile, bind_assoc,
    attempt_bind_of_error fails]
  exact Virtual.ensureParent_failsClean follows.tree addressedTarget.canonical error after fails

theorem rename_inStep {source target : String} (follows : Follows root place initial machine catalog)
    (admitted : Admits root source) (admittedTarget : Admits root target) :
    InStep root place initial
      (Clear catalog (Key.ofPath source) ∧ Clear catalog (Key.ofPath target))
      (attempt Machine.serve (rename root source target) machine)
      (attempt Store.memory (Virtual.rename source target) catalog) := by
  apply InStep.require follows admitted
  intro source addressed source_eq
  rw [source_eq]
  apply InStep.require follows admittedTarget
  intro target addressedTarget target_eq
  rw [target_eq]
  have gets := Store.attempt_get catalog (Key.text source)
  by_cases clear : Clear catalog (Key.text source)
  · apply InStep.bind_of_ok (follows.attempt_kind_of_clear addressed clear) gets
    cases stored : catalog.get? (Key.text source) with
    | none => exact ⟨follows, fun _ => rfl⟩
    | some node =>
    dsimp only [Option.map_some]
    by_cases same : Key.text source = Key.text target
    · rw [if_pos same, if_pos same]
      exact ⟨follows, fun _ => rfl⟩
    rw [if_neg same, if_neg same]
    by_cases below : Key.isBelow (Key.text source) (Key.text target) = true
    · rw [if_pos below]
      cases node with
      | directory =>
        dsimp only
        rw [Virtual.renameDirectory, if_pos below]
        exact ⟨follows, fun _ => rfl⟩
      | file content =>
        -- the file itself is in the way to the target
        refine ⟨?_, fun holds => ?_⟩
        · dsimp only
          rw [idle_moveBelow follows addressed addressedTarget stored below]
          exact follows
        · have free := holds.2 _ below
          rw [isFile, stored] at free
          cases free
    · have notBelow : ¬ source <+: target := by
        intro inside
        apply below
        apply (Key.isBelow_text_text_iff addressed.areNames addressedTarget.areNames
          addressed.nonempty).mpr
        exact ⟨inside, fun equal => same (congrArg Key.text equal)⟩
      rw [if_neg below]
      apply InStep.of_agree
      cases node with
      | directory => exact renameDirectory_agrees follows addressed addressedTarget notBelow stored
      | file content =>
        dsimp only
        rw [copy_eq addressed addressedTarget, bind_assoc,
          attempt_bind_of_ok (Virtual.attempt_contentAt_of_file stored)]
        exact renameFile_agrees follows addressed addressedTarget notBelow stored
  · refine .of_refusal follows (follows.attempt_kind_of_blocked addressed clear)
      (idle_bind gets ?_) (fun holds => clear holds.1)
    rw [missing_of_not_clear follows.tree clear]
    rfl

end Native
end SaveTree
