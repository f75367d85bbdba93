import SaveTree.Proofs.Store.Looking
import SaveTree.Proofs.Virtual.Concurrency
import SaveTree.Proofs.Virtual.Relocation

namespace SaveTree

/-!
# What writes and copies change

In a save tree there is at most one file above a key, and none above a key that is stored.
So each of the two refusals of a write is told by one look at the tree.  A write that is
not refused puts the file and the directories that are missing above it, and nothing else.

A copy looks up a file and then writes what it holds.  For whoever performs it there is no
difference: on every host it makes the same calls as the write and ends in the same way.
-/

open Program Key

namespace Catalog

variable {catalog : Catalog} {key place : String}

/-- In a save tree nothing is stored below a file. -/
theorem IsSaveTree.isFile_above (tree : catalog.IsSaveTree) {node : Node}
    (stored : catalog.get? place = some node) {above : String} (below : isBelow above place = true) :
    catalog.isFile above = false := by
  rw [isFile, tree.rooted stored below]
  rfl

/-- The walk to a key stops at the only file above it. -/
theorem IsSaveTree.find?_chain_parent (tree : catalog.IsSaveTree) (canonical : Canonical key) :
    (chain (parent key)).find? catalog.isFile = some place ↔
      isBelow place key = true ∧ catalog.isFile place = true := by
  rw [find?_chain_parent_eq_some_iff canonical]
  constructor
  · rintro ⟨below, file, _⟩
    exact ⟨below, file⟩
  · rintro ⟨below, file⟩
    rcases isFile_iff.mp file with ⟨content, stored⟩
    exact ⟨below, file, fun other above => tree.isFile_above stored above⟩

end Catalog

namespace Virtual

open Catalog

variable {catalog : Catalog} {path pathTarget key source target : String} {content : Content}

/-- A file was written, with the directories above it. -/
structure Written (key : String) (content : Content) (before after : Catalog) : Prop where
  file : after.get? key = some (.file content)
  grounded : ∀ above, isBelow above key = true → after.get? above = some .directory
  others : ∀ other, other ≠ key → isBelow other key = false → after.get? other = before.get? other

/-- How a write ends in a save tree. -/
structure WritesFile (key : String) (content : Content) (before : Catalog)
    (result : Except FsError Answer) (after : Catalog) : Prop where
  belowFile : ∀ place, result = .error (.notADirectory place) ↔
    isBelow place key = true ∧ before.isFile place = true
  ontoDirectory : result = .error (.conflict key) ↔ before.get? key = some .directory
  succeeds : (∀ above, isBelow above key = true → before.isFile above = false) →
    before.get? key ≠ some .directory → result = .ok .done
  written : result = .ok .done → Written key content before after
  unchanged : ∀ error, result = .error error → after = before

/-- Where nothing is in the way, the file is put and the directories that are missing. -/
theorem written_withFile (canonical : Canonical key)
    (clear : ∀ above, isBelow above key = true → catalog.isFile above = false) (content : Content) :
    Written key content catalog (catalog.withFile key content) where
  file := get?_withFile catalog key content
  grounded := by
    intro above below
    rw [withFile, get?_put, if_neg (ne_of_isBelow below).symm, get?_furnish_above canonical,
      if_pos below]
    rcases get?_of_not_file (clear above below) with found | found <;> rw [found] <;> rfl
  others := by
    intro other different outside
    rw [withFile, get?_put, if_neg different, get?_furnish_above canonical, outside]
    rfl

/-- A write is refused, or the file is put. -/
theorem attempt_putFile_eq (tree : catalog.IsSaveTree) (canonical : Canonical key) (content : Content) :
    attempt Store.memory (putFile key content) catalog =
      match catalog.refusal? key with
      | some error => (.error error, catalog)
      | none => (.ok (), catalog.withFile key content) := by
  cases refused : catalog.refusal? key with
  | none => exact attempt_putFile canonical refused content
  | some error =>
    have walk := attempt_ensureParent tree canonical
    rw [refusal?] at refused
    cases found : (chain (parent key)).find? catalog.isFile with
    | some place =>
      rw [found] at refused walk
      cases refused
      rw [putFile, attempt_bind_of_error walk]
    | none =>
      rw [found] at refused
      dsimp only at refused
      split at refused
      · rename_i directory
        cases refused
        rw [putFile, attempt_bind_of_ok (attempt_ensureParent_of_stored tree directory),
          attempt_bind_of_ok (Store.attempt_get catalog key), directory]
        rfl
      · cases refused

theorem writesFile (tree : catalog.IsSaveTree) (canonical : Canonical key) (content : Content) :
    WritesFile key content catalog
      ((attempt Store.memory (putFile key content) catalog).1.map fun _ => .done)
      (attempt Store.memory (putFile key content) catalog).2 := by
  have file_iff (place : String) : (chain (parent key)).find? catalog.isFile = some place ↔ _ :=
    tree.find?_chain_parent canonical
  have clear_iff : (chain (parent key)).find? catalog.isFile = none ↔ _ :=
    find?_chain_parent_eq_none_iff canonical
  rw [attempt_putFile_eq tree canonical, refusal?]
  cases found : (chain (parent key)).find? catalog.isFile with
  | some place =>
    rw [found] at file_iff clear_iff
    have free : catalog.get? key ≠ some .directory := by
      intro directory
      have below := (file_iff place).mp rfl
      rw [tree.isFile_above directory below.1] at below
      cases below.2
    constructor <;> simp [Except.map, ← file_iff, ← clear_iff, free]
  | none =>
    rw [found] at file_iff
    by_cases directory : catalog.get? key = some .directory
    · constructor <;> simp [Except.map, ← file_iff, directory]
    · have written := written_withFile canonical (clear_iff.mp found) content
      constructor <;> simp [Except.map, ← file_iff, directory, written]

/-- A write looks for no file. -/
theorem WritesFile.ne_fileNotFound {before after : Catalog} {result : Except FsError Answer}
    (writes : WritesFile key content before result after) (place : String) :
    result ≠ .error (.fileNotFound place) := by
  by_cases below : ∃ above, isBelow above key = true ∧ before.isFile above = true
  · rcases below with ⟨above, file⟩
    rw [(writes.belowFile above).mpr file]
    nofun
  · by_cases directory : before.get? key = some .directory
    · rw [writes.ontoDirectory.mpr directory]
      nofun
    · rw [writes.succeeds _ directory]
      · nofun
      · intro above inside
        exact Bool.eq_false_iff.mpr fun file => below ⟨above, inside, file⟩

/-! ## Copies -/

/-- A path that is admitted is its key for the rest of a session. -/
theorem lift_require (admitted : require path = .ok key) :
    (liftM (require path) : Session String) = pure key := by
  rw [admitted]
  rfl

theorem perform_write (admitted : require path = .ok key) (content : Content) :
    perform (Write.operation ⟨path, content⟩) = (do putFile key content; return .done) := by
  have writes : writeFile path content = putFile key content := by
    rw [writeFile, lift_require admitted, pure_bind]
  rw [← writes]
  cases content <;> rfl

theorem perform_copy (admitted : require path = .ok source)
    (admittedTarget : require pathTarget = .ok target) :
    perform (.copy path pathTarget) =
      contentAt source >>= fun content => (do putFile target content; return .done) := by
  have copies : copy path pathTarget = contentAt source >>= putFile target := by
    rw [copy, lift_require admitted, pure_bind, lift_require admittedTarget, pure_bind]
  rw [perform, copies, bind_assoc]

end Virtual

namespace Backend

open Virtual

variable {before : Backend} {path pathTarget key source target : String} {content : Content}

/-- A copy of what is not a file ends at once. -/
theorem run_copy_of_not_file (before : Backend) (admitted : require path = .ok source)
    (admittedTarget : require pathTarget = .ok target)
    (notFile : before.catalog.isFile source = false) :
    (run (perform (.copy path pathTarget))).run before =
      pure (.error (.fileNotFound source), before) := by
  rw [perform_copy admitted admittedTarget, run_bind_of_looks (contentAt_looks source),
    attempt_contentAt_of_not_file notFile]

/-- A copy of a file is a write of what it holds. -/
theorem run_copy_of_file (before : Backend) (admitted : require path = .ok source)
    (admittedTarget : require pathTarget = .ok target) (content : Content)
    (file : before.catalog.get? source = some (.file content)) :
    (run (perform (.copy path pathTarget))).run before =
      (run (perform (Write.operation ⟨pathTarget, content⟩))).run before := by
  rw [perform_copy admitted admittedTarget, run_bind_of_looks (contentAt_looks source),
    attempt_contentAt_of_file file, perform_write admittedTarget]

theorem writesFile_of_runs {after : Backend} {result : Except FsError Answer}
    (tree : before.catalog.IsSaveTree) (admitted : require path = .ok key)
    (runs : Program.Runs Host.willing ((run (perform (Write.operation ⟨path, content⟩))).run before)
      () (result, after) ()) :
    WritesFile key content before.catalog result after.catalog := by
  have ends := attempt_of_runs runs
  rw [perform_write admitted, attempt_answer fun _ => Answer.done] at ends
  rcases Prod.mk.inj ends with ⟨rfl, same⟩
  rw [← same]
  exact writesFile tree (canonical_of_require admitted) content

/-- Writes and copies on an open store that holds a save tree, if the host refuses nothing.

A write ends, and fails just if there is a file above its key or a directory in its place;
otherwise the file is there, the places above it are directories and everything else is as
before.  A copy fails with a missing file just if its source is not a file.  Otherwise it
is, on whatever host, the write of what the source holds. -/
theorem write_and_copy_exact (tree : before.catalog.IsSaveTree) :
    (∀ path key content, require path = .ok key →
      (∃ result after, Program.Runs Host.willing
        ((run (perform (Write.operation ⟨path, content⟩))).run before) () (result, after) ()) ∧
      ∀ result after, Program.Runs Host.willing
        ((run (perform (Write.operation ⟨path, content⟩))).run before) () (result, after) () →
        WritesFile key content before.catalog result after.catalog) ∧
    ∀ path pathTarget source target, require path = .ok source → require pathTarget = .ok target →
      (∀ result after, Program.Runs Host.willing
        ((run (perform (.copy path pathTarget))).run before) () (result, after) () →
        (result = .error (.fileNotFound source) ↔ before.catalog.isFile source = false)) ∧
      (before.catalog.isFile source = false →
        (run (perform (.copy path pathTarget))).run before =
          pure (.error (.fileNotFound source), before)) ∧
      ∀ content, before.catalog.get? source = some (.file content) →
        (run (perform (.copy path pathTarget))).run before =
          (run (perform (Write.operation ⟨pathTarget, content⟩))).run before := by
  refine ⟨?writes, ?copies⟩
  case writes =>
    intro path key content admitted
    rcases exists_runs_of_attempt (perform (Write.operation ⟨path, content⟩)) before with ⟨after, runs⟩
    exact ⟨⟨_, after, runs⟩, fun result after => writesFile_of_runs tree admitted⟩
  case copies =>
    intro path pathTarget source target admitted admittedTarget
    have missing := run_copy_of_not_file before admitted admittedTarget
    have copies := fun content => run_copy_of_file before admitted admittedTarget content
    refine ⟨?_, missing, copies⟩
    intro result after runs
    cases file : before.catalog.isFile source with
    | false =>
      rw [missing file] at runs
      cases runs
      exact iff_of_true rfl rfl
    | true =>
      rcases Catalog.isFile_iff.mp file with ⟨content, stored⟩
      rw [copies content stored] at runs
      have writes := writesFile_of_runs tree admittedTarget runs
      exact iff_of_false (writes.ne_fileNotFound source) fun same => Bool.noConfusion same

/-- A file is copied below a directory that is missing, and is not copied below itself. -/
theorem write_and_copy_exact_below_missing :
    ∃ before after : Backend,
      before.catalog.get? "a" = some (.file (.bytes ⟨#[7]⟩)) ∧ before.catalog.get? "b" = none ∧
      Program.Runs Host.willing ((run (perform (.copy "a" "./b/c"))).run before) ()
        (.ok .done, after) () ∧
      after.catalog.get? "b" = some .directory ∧
      after.catalog.get? "b/c" = some (.file (.bytes ⟨#[7]⟩)) ∧
      after.catalog.get? "a" = some (.file (.bytes ⟨#[7]⟩)) ∧
      ∃ last, Program.Runs Host.willing ((run (perform (.copy "a" "a/x"))).run before) ()
        (.error (.notADirectory "a"), last) () ∧ last.catalog = before.catalog := by
  let held : Catalog := .ofEntries [⟨"a", .file (.bytes ⟨#[7]⟩)⟩]
  have reached : Reached (.memory held) := .perform (.write "a" ⟨#[7]⟩) .memory (.done _ _)
  rcases write_and_copy_exact (isSaveTree_of_reached reached) with ⟨writes, copies⟩
  have admitted : require "a" = .ok "a" := by decide
  have admittedTarget : require "./b/c" = .ok "b/c" := by decide
  have admittedInside : require "a/x" = .ok "a/x" := by decide
  have file : (Backend.memory held).catalog.get? "a" = some (.file (.bytes ⟨#[7]⟩)) := rfl
  rcases writes "./b/c" "b/c" (.bytes ⟨#[7]⟩) admittedTarget with ⟨⟨result, after, runs⟩, ends⟩
  rcases writes "a/x" "a/x" (.bytes ⟨#[7]⟩) admittedInside with ⟨⟨refused, last, fails⟩, refuses⟩
  have noFile : (chain (parent "b/c")).find? held.isFile = none := rfl
  have clear := (Catalog.find?_chain_parent_eq_none_iff (canonical_of_require admittedTarget)).mp noFile
  have done := (ends result after runs).succeeds clear nofun
  have written := (ends result after runs).written done
  have refusal := ((refuses refused last fails).belowFile "a").mpr ⟨rfl, rfl⟩
  rw [done, ← (copies _ _ _ _ admitted admittedTarget).2.2 _ file] at runs
  have unchanged := (refuses refused last fails).unchanged _ refusal
  rw [refusal, ← (copies _ _ _ _ admitted admittedInside).2.2 _ file] at fails
  exact ⟨.memory held, after, file, rfl, runs, written.grounded "b" rfl, written.file,
    (written.others "a" (by decide) rfl).trans file, last, fails, unchanged⟩

end Backend

end SaveTree
