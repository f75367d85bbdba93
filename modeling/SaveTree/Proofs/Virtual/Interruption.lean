import SaveTree.Proofs.Key.Steps
import SaveTree.Proofs.Store.Looking
import SaveTree.Proofs.Virtual.Relocation

namespace SaveTree

/-!
# Moves that are cut short

Each change of a durable store is committed as a whole or fails and leaves the store as it
was.  A move makes several of them, and the operation ends at the first that fails.  But
what is moved is put at its new place before it is deleted at the old one.  So whichever
change fails, each file that was to be moved stands at one of the two places or at both,
and no other file is touched, except one that is replaced.
-/

open Key

namespace Catalog

open Virtual

variable {before between after : Catalog} {source target key : String} {content : Content}
  {fresh : String → Prop}

/-- No file is lost by a move: the files of the source are where they were or where they
should go, the other ones stay, unless one is replaced at the target, and there are no
new ones. -/
structure KeepsFiles (source target : String) (before after : Catalog) : Prop where
  top : ∀ content, before.get? source = some (.file content) →
    after.get? source = some (.file content) ∨ after.get? target = some (.file content)
  inside : ∀ rest content, before.get? (source ++ "/" ++ rest) = some (.file content) →
    after.get? (source ++ "/" ++ rest) = some (.file content) ∨
      after.get? (target ++ "/" ++ rest) = some (.file content)
  others : ∀ key content, before.get? key = some (.file content) → key ≠ source →
    (∀ rest, key ≠ source ++ "/" ++ rest) → key ≠ target → after.get? key = some (.file content)
  new : ∀ key content, after.get? key = some (.file content) →
    before.get? key = some (.file content) ∨
    (key = target ∧ before.get? source = some (.file content)) ∨
    ∃ rest, key = target ++ "/" ++ rest ∧ before.get? (source ++ "/" ++ rest) = some (.file content)

theorem file_of_extends (extends_ : Extends fresh before after)
    (stored : after.get? key = some (.file content)) : before.get? key = some (.file content) := by
  rcases extends_ key with same | ⟨_, directory, _⟩
  · exact same ▸ stored
  · rw [directory] at stored
    cases stored

/-- Directories at free places do not matter. -/
theorem KeepsFiles.of_extends (extends_ : Extends fresh before between)
    (keeps : KeepsFiles source target between after) : KeepsFiles source target before after where
  top := fun content stored => keeps.top content (extends_.get?_eq stored)
  inside := fun rest content stored => keeps.inside rest content (extends_.get?_eq stored)
  others := fun key content stored => keeps.others key content (extends_.get?_eq stored)
  new := by
    intro key content stored
    rcases keeps.new key content stored with old | ⟨same, moved⟩ | ⟨rest, same, moved⟩
    · exact .inl (file_of_extends extends_ old)
    · exact .inr (.inl ⟨same, file_of_extends extends_ moved⟩)
    · exact .inr (.inr ⟨rest, same, file_of_extends extends_ moved⟩)

theorem KeepsFiles.refl (source target : String) (catalog : Catalog) :
    KeepsFiles source target catalog catalog where
  top := fun _ stored => .inl stored
  inside := fun _ _ stored => .inl stored
  others := fun _ _ stored _ _ _ => stored
  new := fun _ _ stored => .inl stored

/-! ## A file -/

section

variable (file : before.get? source = some (.file content))
  (alone : ∀ rest other, before.get? (source ++ "/" ++ rest) ≠ some (.file other))

include file alone

/-- A file that is put at the target. -/
theorem keepsFiles_put : KeepsFiles source target before (before.put ⟨target, .file content⟩) where
  top := by
    intro other stored
    rw [file] at stored
    right
    rw [get?_put, if_pos rfl, stored]
  inside := fun rest other stored => absurd stored (alone rest other)
  others := by
    intro key other stored _ _ notTarget
    rw [get?_put, if_neg notTarget, stored]
  new := by
    intro key other stored
    rw [get?_put] at stored
    by_cases same : key = target
    · rw [if_pos same] at stored
      exact .inr (.inl ⟨same, stored ▸ file⟩)
    · rw [if_neg same] at stored
      exact .inl stored

/-- A file that is then deleted at the source. -/
theorem keepsFiles_erase (different : source ≠ target) :
    KeepsFiles source target before
      (Table.erase (before.put ⟨target, .file content⟩) source) where
  top := by
    intro other stored
    rw [file] at stored
    right
    rw [Table.get?_erase, if_neg different.symm, get?_put, if_pos rfl, stored]
  inside := fun rest other stored => absurd stored (alone rest other)
  others := by
    intro key other stored elsewhere outside notTarget
    rw [Table.get?_erase, if_neg elsewhere]
    exact (keepsFiles_put file alone).others key other stored elsewhere outside notTarget
  new := by
    intro key other stored
    rw [Table.get?_erase] at stored
    by_cases gone : key = source
    · rw [if_pos gone] at stored
      cases stored
    · rw [if_neg gone] at stored
      exact (keepsFiles_put file alone).new key other stored

end

/-! ## A directory -/

section

variable (apart : Apart before source target) (directory : before.get? source = some .directory)

include apart

/-- A file that is not at the target is not below it either. -/
theorem Apart.get?_copied_of_file (stored : before.get? key = some (.file content))
    (notTarget : key ≠ target) :
    (before.putAll (copied source target (before.below source))).get? key = some (.file content) := by
  rw [get?_copied_outside notTarget (below_eq_nil_iff.mp apart.free key _ stored), stored]

theorem Apart.new_of_copied
    (stored : (before.putAll (copied source target (before.below source))).get? key =
      some (.file content)) :
    before.get? key = some (.file content) ∨
    (key = target ∧ before.get? source = some (.file content)) ∨
    ∃ rest, key = target ++ "/" ++ rest ∧ before.get? (source ++ "/" ++ rest) = some (.file content) := by
  rcases get?_copied_cases apart.free stored with ⟨_, isDirectory⟩ | ⟨old, inside, found, rfl⟩ | ⟨_, _, found⟩
  · cases isDirectory
  · rcases isBelow_iff_exists.mp inside with ⟨rest, rfl⟩
    exact .inr (.inr ⟨rest, rebase_append source target rest, found⟩)
  · exact .inl found

include directory

/-- A directory that is copied: all files of the source are where they were. -/
theorem Apart.keepsFiles_copied :
    KeepsFiles source target before (before.putAll (copied source target (before.below source))) where
  top := by
    intro content stored
    rw [directory] at stored
    cases stored
  inside := by
    intro rest content stored
    exact .inl (apart.get?_copied_of_file stored (ne_append_of_not_isBelow apart.notInside rest).symm)
  others := fun _ _ stored _ _ notTarget => apart.get?_copied_of_file stored notTarget
  new := fun _ _ => apart.new_of_copied

/-- A directory that is then deleted at the source: all its files are where they should
go. -/
theorem Apart.keepsFiles_relocate :
    KeepsFiles source target before (before.relocate source target) where
  top := by
    intro content stored
    rw [directory] at stored
    cases stored
  inside := by
    intro rest content stored
    have moved := apart.get?_relocate_moved stored (isBelow_iff_exists.mpr ⟨rest, rfl⟩)
    rw [rebase_append] at moved
    exact .inr moved
  others := by
    intro key content stored elsewhere outside notTarget
    have notBelow : isBelow source key = false := by
      apply Bool.eq_false_iff.mpr
      intro inside
      rcases isBelow_iff_exists.mp inside with ⟨rest, same⟩
      exact outside rest same
    rw [get?_relocate_outside elsewhere notBelow]
    exact apart.get?_copied_of_file stored notTarget
  new := by
    intro key content stored
    by_cases gone : key = source
    · rw [gone, get?_relocate_source] at stored
      cases stored
    · cases inside : isBelow source key with
      | true =>
        rw [apart.get?_relocate_below inside] at stored
        cases stored
      | false =>
        rw [get?_relocate_outside gone inside] at stored
        exact apart.new_of_copied stored

end

end Catalog

/-! ## The operation -/

namespace Virtual

open Catalog

variable {catalog start : Catalog} {source target key path pathTarget : String} {content : Content}
  {fresh : String → Prop}

/-- A walk that is cut short has put directories at free places. -/
theorem forM_ensurePlace_extends {places : List String} (areFresh : ∀ place ∈ places, fresh place)
    (extends_ : Extends fresh start catalog) :
    Session.Ensures (Extends fresh start) (fun _ _ => True) (places.forM ensurePlace) catalog := by
  induction places generalizing catalog with
  | nil => exact .pure extends_ trivial
  | cons place rest ih =>
    have step : Session.Ensures (Extends fresh start) (fun _ _ => True) (ensurePlace place) catalog := by
      apply Session.Ensures.bind
      apply Session.Ensures.get extends_
      cases found : catalog.get? place with
      | none =>
        have grown := extends_put found (areFresh place List.mem_cons_self)
        exact .put extends_ (extends_.trans grown) trivial
      | some node =>
        cases node with
        | file content => exact .throw extends_
        | directory => exact .pure extends_ trivial
    apply Session.Ensures.bind
    apply Session.Ensures.mono step
    intro _ between holds _
    exact ih (fun other member => areFresh other (.tail _ member)) holds

/-- Before anything else is done, a move puts the directories above its target. -/
theorem ensureParent_keepsFiles (canonical : Canonical target) :
    Session.Ensures (KeepsFiles source target catalog)
      (fun _ after => Extends (isBelow · target = true) catalog after)
      (ensureDirectories (parent target)) catalog := by
  have walk : Session.Ensures (Extends (isBelow · target = true) catalog) (fun _ _ => True)
      (ensureDirectories (parent target)) catalog := by
    rw [ensureDirectories_eq]
    apply forM_ensurePlace_extends _ (Extends.refl _ _)
    exact fun place member => (mem_chain_parent_iff canonical).mp member
  apply (walk.weaken fun after extends_ => .of_extends extends_ (.refl source target after)).mono
  exact fun _ _ _ ensured => ensured.1

theorem renameDirectory_keepsFiles (canonical : Canonical target) (different : source ≠ target)
    (directory : catalog.get? source = some .directory) :
    Session.Ensures (KeepsFiles source target catalog) (fun _ _ => True)
      (renameDirectory source target) catalog := by
  have start := KeepsFiles.refl source target catalog
  unfold renameDirectory
  dsimp only
  split
  · exact .bind (.throw start)
  · rename_i outside
    have notInside : isBelow source target = false := Bool.eq_false_iff.mpr outside
    apply Session.Ensures.bind
    apply Session.Ensures.mono (descendants_ensures start)
    rintro _ _ _ ⟨rfl, rfl⟩
    apply Session.Ensures.bind
    apply Session.Ensures.get start
    split
    · exact .bind (.throw start)
    · split
      · exact .bind (.throw start)
      · rename_i unoccupied
        have free : catalog.below target = [] := by simpa using unoccupied
        have notAround := below_eq_nil_iff.mp free source _ directory
        have apart : Apart catalog source target := ⟨different, notInside, notAround, free⟩
        apply Session.Ensures.bind
        apply Session.Ensures.mono (ensureParent_keepsFiles canonical)
        intro _ between holds extends_
        have ready := apart.of_extends extends_
        have stillDirectory := extends_.get?_eq directory
        have copied := KeepsFiles.of_extends extends_ (ready.keepsFiles_copied stillDirectory)
        have moved := KeepsFiles.of_extends extends_ (ready.keepsFiles_relocate stillDirectory)
        apply Session.Ensures.bind
        apply Session.Ensures.mono (descendants_ensures holds)
        rintro _ _ _ ⟨rfl, rfl⟩
        apply Session.Ensures.bind
        apply Session.Ensures.putMany holds copied
        exact .deleteMany copied moved trivial

/-- A copy puts the directories above the target and then the file. -/
theorem copy_keepsFiles (canonical : Canonical source) (canonicalTarget : Canonical target)
    (file : catalog.get? source = some (.file content))
    (alone : ∀ rest other, catalog.get? (source ++ "/" ++ rest) ≠ some (.file other)) :
    Session.Ensures (KeepsFiles source target catalog)
      (fun _ after => ∃ between, Extends (isBelow · target = true) catalog between ∧
        after = between.put ⟨target, .file content⟩)
      (copy source target) catalog := by
  have start := KeepsFiles.refl source target catalog
  apply Session.Ensures.bind
  apply Session.Ensures.mono (require_ensures start)
  rintro _ _ _ ⟨rfl, admitted, _⟩
  cases canonical.require_eq.symm.trans admitted
  apply Session.Ensures.bind
  apply Session.Ensures.mono (require_ensures start)
  rintro _ _ _ ⟨rfl, admittedTarget, _⟩
  cases canonicalTarget.require_eq.symm.trans admittedTarget
  apply Session.Ensures.bind
  apply Session.Ensures.mono (contentAt_ensures start)
  rintro found _ _ ⟨rfl, stored⟩
  cases file.symm.trans stored
  apply Session.Ensures.bind
  apply Session.Ensures.mono (ensureParent_keepsFiles canonicalTarget)
  intro _ between holds extends_
  have put : KeepsFiles source target catalog (between.put ⟨target, .file content⟩) :=
    .of_extends extends_ (keepsFiles_put (extends_.get?_eq file) fun rest other stored =>
      alone rest other (file_of_extends extends_ stored))
  apply Session.Ensures.bind
  apply Session.Ensures.get holds
  split
  · exact .throw holds
  · exact .put holds put ⟨between, extends_, rfl⟩

/-- Wherever a move ends, no file is lost. -/
theorem rename_keepsFiles (tree : IsSaveTree catalog) (admitted : require path = .ok source)
    (admittedTarget : require pathTarget = .ok target) :
    Session.Ensures (KeepsFiles source target catalog) (fun _ _ => True)
      (rename path pathTarget) catalog := by
  have start := KeepsFiles.refl source target catalog
  have canonical := canonical_of_require admitted
  have canonicalTarget := canonical_of_require admittedTarget
  apply Session.Ensures.bind
  apply Session.Ensures.mono (require_ensures start)
  rintro _ _ _ ⟨rfl, sameSource, _⟩
  cases admitted.symm.trans sameSource
  apply Session.Ensures.bind
  apply Session.Ensures.mono (require_ensures start)
  rintro _ _ _ ⟨rfl, sameTarget, _⟩
  cases admittedTarget.symm.trans sameTarget
  apply Session.Ensures.bind
  apply Session.Ensures.get start
  cases found : catalog.get? source with
  | none => exact .throw start
  | some node =>
    dsimp only
    split
    · exact .pure start trivial
    · rename_i different
      cases node with
      | directory => exact renameDirectory_keepsFiles canonicalTarget different found
      | file content =>
        have alone : ∀ rest other, catalog.get? (source ++ "/" ++ rest) ≠ some (.file other) := by
          intro rest other stored
          have directory := tree.rooted stored (isBelow_iff_exists.mpr ⟨rest, rfl⟩)
          rw [found] at directory
          cases directory
        apply Session.Ensures.bind
        apply Session.Ensures.mono (copy_keepsFiles canonical canonicalTarget found alone)
        rintro _ _ holds ⟨between, extends_, rfl⟩
        have moved : KeepsFiles source target catalog
            (Table.erase (between.put ⟨target, .file content⟩) source) := by
          apply KeepsFiles.of_extends extends_
          apply keepsFiles_erase (extends_.get?_eq found) _ different
          exact fun rest other stored => alone rest other (file_of_extends extends_ stored)
        exact .delete holds moved trivial

theorem perform_rename_keepsFiles (tree : IsSaveTree catalog) (admitted : require path = .ok source)
    (admittedTarget : require pathTarget = .ok target) :
    Session.Ensures (KeepsFiles source target catalog) (fun _ _ => True)
      (perform (.rename path pathTarget)) catalog := by
  apply Session.Ensures.bind
  apply Session.Ensures.mono (rename_keepsFiles tree admitted admittedTarget)
  intro _ after holds _
  exact .pure holds trivial

end Virtual

namespace Backend

open Catalog

variable {backend : Backend} {key : String} {content : Content}

/-- A file is read under a key, as bytes and, if it holds text, as text.  The store stays as
it is. -/
structure Reads (backend : Backend) (key : String) (content : Content) : Prop where
  bytes : (run (Virtual.perform (.read key))).run backend =
    pure (.ok (.bytes content.toBytes), backend)
  text : ∀ text, content.toText? = some text →
    (run (Virtual.perform (.readText key))).run backend = pure (.ok (.text text), backend)

/-- A file under a canonical key is read as it is stored. -/
theorem reads_of_stored (canonical : Canonical key)
    (stored : backend.catalog.get? key = some (.file content)) : backend.Reads key content where
  bytes := by
    have looks : (Virtual.perform (.read key)).Looks := (Virtual.readBytes_looks key).bind fun _ => .pure _
    have read : Program.attempt Store.memory (Virtual.readBytes key) backend.catalog =
        (.ok content.toBytes, backend.catalog) := by
      rw [Virtual.readBytes, Program.attempt_bind_of_ok (Virtual.attempt_require canonical.require_eq),
        Program.attempt_bind_of_ok (Virtual.attempt_contentAt_of_file stored)]
      rfl
    rw [run_of_looks looks, Virtual.perform, Program.attempt_bind_of_ok read]
    rfl
  text := by
    intro text spells
    have looks : (Virtual.perform (.readText key)).Looks := (Virtual.readText_looks key).bind fun _ => .pure _
    have read : Program.attempt Store.memory (Virtual.readText key) backend.catalog =
        (.ok text, backend.catalog) := by
      rw [Virtual.readText, Program.attempt_bind_of_ok (Virtual.attempt_require canonical.require_eq),
        Program.attempt_bind_of_ok (Virtual.attempt_contentAt_of_file stored), spells]
      rfl
    rw [run_of_looks looks, Virtual.perform, Program.attempt_bind_of_ok read]
    rfl

/-- A move on an open store that holds a save tree, where the host may refuse anything at
any time.  Whatever the move returns, and also where it is stopped between two calls, no
file is lost; and every file that is stored afterwards is read as it is stored. -/
theorem interrupted_rename_keeps_files {before : Backend} {path pathTarget source target : String}
    (tree : before.catalog.IsSaveTree) (admitted : require path = .ok source)
    (admittedTarget : require pathTarget = .ok target) :
    (∀ result after, Program.Runs Host.unknown
      ((run (Virtual.perform (.rename path pathTarget))).run before) () (result, after) () →
      KeepsFiles source target before.catalog after.catalog ∧
      ∀ key content, after.catalog.get? key = some (.file content) → after.Reads key content) ∧
    ∀ passed, Program.Passes Store.faulty (Virtual.perform (.rename path pathTarget)).run
      before.catalog passed → KeepsFiles source target before.catalog passed := by
  have ensures := Virtual.perform_rename_keepsFiles tree admitted admittedTarget
  constructor
  · intro result after runs
    constructor
    · exact kept_of_runs ensures runs
    · intro key content stored
      exact reads_of_stored ((isSaveTree_of_runs tree runs).canonical stored) stored
  · intro passed passes
    exact ensures.of_passes passes

/-- A directory is put at its new place, and then the host does not let it be deleted at the
old one. -/
theorem interrupted_rename_keeps_files_undeleted :
    ∃ before after : Backend,
      before.catalog.get? "a/x" = some (.file (.text "1")) ∧ before.catalog.get? "b" = none ∧
      Program.Runs Host.unknown ((run (Virtual.perform (.rename "a" "b"))).run before) ()
        (.error (.host .busy), after) () ∧
      KeepsFiles "a" "b" before.catalog after.catalog ∧
      after.Reads "a/x" (.text "1") ∧ after.Reads "b/x" (.text "1") := by
  have accepted (request : Host.Call) (reply : Except HostError request.Answer) :
      Host.unknown.turn () request reply () := trivial
  have reached : Reached (.durable ⟨"saves",
      Catalog.put (Catalog.put .empty ⟨"a", .directory⟩) ⟨"a/x", .file (.text "1")⟩⟩) :=
    Reached.perform (.writeText "a/x" "1") (.durable "saves")
      (.call (accepted (.write _ _) (.ok ())) (.call (accepted (.rename _ _) (.ok ()))
        (.call (accepted (.write _ _) (.ok ())) (.call (accepted (.rename _ _) (.ok ()))
          (.done _ _)))))
  have interrupted : ∃ after, Program.Runs Host.unknown
      ((run (Virtual.perform (.rename "a" "b"))).run (.durable ⟨"saves",
        Catalog.put (Catalog.put .empty ⟨"a", .directory⟩) ⟨"a/x", .file (.text "1")⟩⟩)) ()
        (.error (.host .busy), after) () ∧
      after.catalog.get? "a/x" = some (.file (.text "1")) ∧
      after.catalog.get? "b/x" = some (.file (.text "1")) :=
    ⟨_, .call (accepted (.write _ _) (.ok ())) (.call (accepted (.rename _ _) (.ok ()))
      (.call (accepted (.write _ _) (.error .busy)) (.done _ _))), rfl, rfl⟩
  rcases interrupted with ⟨after, runs, atSource, atTarget⟩
  have admitted : require "a" = .ok "a" := by decide
  have admittedTarget : require "b" = .ok "b" := by decide
  have kept := (interrupted_rename_keeps_files (isSaveTree_of_reached reached) admitted
    admittedTarget).1 _ after runs
  exact ⟨_, after, rfl, rfl, runs, kept.1, kept.2 _ _ atSource, kept.2 _ _ atTarget⟩

end Backend

end SaveTree
