import SaveTree.Proofs.Virtual.Writing

namespace SaveTree

/-!
# Directories that are moved

A directory is moved by putting all that lies below it under new keys and then deleting
the old ones.  What a store holds may be anything, not only a tree, and still the move
neither loses nor overwrites an entry.  For the target is refused if it lies below the
source or if something lies below it.  So neither of the two places is above the other,
and no key is below both.
-/

open Program Key

namespace Key

variable {source target key : String}

theorem isBelow_iff_exists : isBelow source key = true ↔ ∃ rest, key = source ++ "/" ++ rest := by
  rw [isBelow_iff]
  constructor
  · rintro ⟨rest, equal⟩
    refine ⟨String.ofList rest, String.toList_inj.mp ?_⟩
    simp [equal]
  · rintro ⟨rest, rfl⟩
    exact ⟨rest.toList, by simp⟩

theorem ne_append_of_not_isBelow (outside : isBelow source key = false) (rest : String) :
    key ≠ source ++ "/" ++ rest := by
  intro equal
  rw [isBelow_iff_exists.mpr ⟨rest, equal⟩] at outside
  cases outside

theorem rebase_append (source target rest : String) :
    rebase source target (source ++ "/" ++ rest) = target ++ "/" ++ rest := by
  apply String.toList_inj.mp
  simp [rebase, List.append_assoc]

/-- Nothing is below two keys of which neither is above the other. -/
theorem isBelow_eq_false_of_apart (different : source ≠ target)
    (notInside : isBelow source target = false) (notAround : isBelow target source = false)
    (below : isBelow target key = true) : isBelow source key = false := by
  apply Bool.eq_false_iff.mpr
  intro inside
  rcases isBelow_or_isBelow inside below with same | upper | lower
  · exact different same
  · rw [notInside] at upper
    cases upper
  · rw [notAround] at lower
    cases lower

theorem isBelow_asymm (below : isBelow source target = true) : isBelow target source = false := by
  apply Bool.eq_false_iff.mpr
  intro above
  have cycle := isBelow_trans below above
  rw [not_isBelow_self] at cycle
  cases cycle

end Key

namespace Catalog

variable {catalog : Catalog} {source target key place : String}

/-! ## The uppermost file above a key -/

/-- The walk to a key stops at the file that has no other file above it. -/
theorem find?_chain_parent_eq_some_iff (canonical : Canonical key) :
    (chain (parent key)).find? catalog.isFile = some place ↔
      isBelow place key = true ∧ catalog.isFile place = true ∧
        ∀ other, isBelow other place = true → catalog.isFile other = false := by
  have downwards : (chain (parent key)).Pairwise fun above below => isBelow above below = true := by
    rcases canonical.exists_parent with ⟨upper, name, areNames, _, parent_eq⟩
    rw [parent_eq]
    exact chain_pairwise fun other member => areNames other (List.mem_append_left _ member)
  have uppermost : ∀ {place}, (chain (parent key)).find? catalog.isFile = some place →
      isBelow place key = true ∧ catalog.isFile place = true ∧
        ∀ other, isBelow other place = true → catalog.isFile other = false := by
    intro place found
    have inside := (mem_chain_parent_iff canonical).mp (List.mem_of_find?_eq_some found)
    refine ⟨inside, List.find?_some found, ?_⟩
    intro other above
    have member := (mem_chain_parent_iff canonical).mpr (isBelow_trans above inside)
    rcases List.find?_eq_some_iff_append.mp found with ⟨_, before, behind, split, clear⟩
    rw [split] at member downwards
    rcases List.mem_append.mp member with early | late
    · simpa using clear other early
    · rcases List.mem_cons.mp late with rfl | later
      · rw [not_isBelow_self] at above
        cases above
      · have below := List.rel_of_pairwise_cons (List.pairwise_append.mp downwards).2.1 later
        rw [isBelow_asymm below] at above
        cases above
  refine ⟨uppermost, ?_⟩
  rintro ⟨inside, file, top⟩
  cases found : (chain (parent key)).find? catalog.isFile with
  | none =>
    exact absurd file (List.find?_eq_none.mp found place ((mem_chain_parent_iff canonical).mpr inside))
  | some first =>
    rcases uppermost found with ⟨firstInside, firstFile, firstTop⟩
    rcases isBelow_or_isBelow inside firstInside with rfl | above | below
    · rfl
    · rw [firstTop place above] at file
      cases file
    · rw [top first below] at firstFile
      cases firstFile

theorem find?_chain_parent_eq_none_iff (canonical : Canonical key) :
    (chain (parent key)).find? catalog.isFile = none ↔
      ∀ above, isBelow above key = true → catalog.isFile above = false := by
  rw [List.find?_eq_none]
  constructor
  · intro clear above below
    exact Bool.eq_false_iff.mpr (clear above ((mem_chain_parent_iff canonical).mpr below))
  · intro clear above member
    exact Bool.eq_false_iff.mp (clear above ((mem_chain_parent_iff canonical).mp member))

/-! ## What is stored after a move -/

/-- With a directory and all below it under another key. -/
def relocate (catalog : Catalog) (source target : String) : Catalog :=
  (catalog.putAll (copied source target (catalog.below source))).eraseAll
    ((catalog.below source).map Entry.path ++ [source])

/-- Outside the source nothing is deleted. -/
theorem get?_relocate_outside (elsewhere : key ≠ source) (outside : isBelow source key = false) :
    (catalog.relocate source target).get? key =
      (catalog.putAll (copied source target (catalog.below source))).get? key := by
  rw [relocate, get?_eraseAll, if_neg]
  intro listed
  rcases List.mem_append.mp listed with inside | top
  · rcases List.mem_map.mp inside with ⟨entry, member, rfl⟩
    rw [(mem_below_iff.mp member).2] at outside
    cases outside
  · exact elsewhere (List.mem_singleton.mp top)

theorem get?_relocate_source : (catalog.relocate source target).get? source = none := by
  rw [relocate, get?_eraseAll, if_pos (List.mem_append_right _ (List.mem_singleton_self source))]

/-- A key that is neither of the source nor one that something is moved to. -/
theorem get?_relocate_other (elsewhere : key ≠ source) (outside : isBelow source key = false)
    (notTarget : key ≠ target)
    (unmoved : ∀ old node, catalog.get? old = some node → isBelow source old = true →
      rebase source target old ≠ key) :
    (catalog.relocate source target).get? key = catalog.get? key := by
  rw [get?_relocate_outside elsewhere outside]
  apply get?_copied_of_not_mem notTarget
  intro entry member
  rcases mem_below_iff.mp member with ⟨stored, inside⟩
  exact unmoved entry.path entry.node stored inside

/-- The two places of a move: neither is above the other, and nothing is stored below the
target. -/
structure Apart (catalog : Catalog) (source target : String) : Prop where
  different : source ≠ target
  notInside : isBelow source target = false
  notAround : isBelow target source = false
  free : catalog.below target = []

namespace Apart

variable {node : Node} (apart : Apart catalog source target)

include apart

theorem get?_relocate_target : (catalog.relocate source target).get? target = some .directory := by
  rw [get?_relocate_outside apart.different.symm apart.notInside, get?_copied_target]

/-- What is stored below the source is found below the target. -/
theorem get?_relocate_moved (stored : catalog.get? key = some node)
    (inside : isBelow source key = true) :
    (catalog.relocate source target).get? (rebase source target key) = some node := by
  have below : isBelow target (rebase source target key) = true := isBelow_rebase inside
  have elsewhere : rebase source target key ≠ source := by
    intro same
    rw [same, apart.notAround] at below
    cases below
  have outside : isBelow source (rebase source target key) = false :=
    isBelow_eq_false_of_apart apart.different apart.notInside apart.notAround below
  rw [get?_relocate_outside elsewhere outside]
  exact get?_copied_rebase stored inside

/-- Nothing is left below the source: what was there is deleted, and nothing was put
there. -/
theorem get?_relocate_below (inside : isBelow source key = true) :
    (catalog.relocate source target).get? key = none := by
  rw [relocate, get?_eraseAll]
  split
  · rfl
  · rename_i kept
    have elsewhere : key ≠ target := by
      rintro rfl
      rw [apart.notInside] at inside
      cases inside
    have outside : isBelow target key = false :=
      isBelow_eq_false_of_apart apart.different.symm apart.notAround apart.notInside inside
    rw [get?_copied_outside elsewhere outside]
    apply Option.eq_none_iff_forall_ne_some.mpr
    intro node stored
    have member : (⟨key, node⟩ : Entry) ∈ catalog.below source := mem_below_iff.mpr ⟨stored, inside⟩
    exact kept (List.mem_append_left _ (List.mem_map.mpr ⟨_, member, rfl⟩))

end Apart

theorem get?_furnish_above (canonical : Canonical target) (key : String) :
    (catalog.furnish (chain (parent target))).get? key =
      if isBelow key target = true then some ((catalog.get? key).getD .directory)
      else catalog.get? key := by
  simp only [get?_furnish, mem_chain_parent_iff canonical]

theorem extends_furnish_above (canonical : Canonical target) :
    Virtual.Extends (isBelow · target = true) catalog (catalog.furnish (chain (parent target))) := by
  intro key
  rw [get?_furnish_above canonical]
  cases found : catalog.get? key with
  | none => by_cases above : isBelow key target = true <;> simp [above]
  | some node => simp

/-- Directories above the target are not below the source. -/
theorem get?_eq_of_extends {after : Catalog} (notInside : isBelow source target = false)
    (extends_ : Virtual.Extends (isBelow · target = true) catalog after)
    (inside : isBelow source key = true) : after.get? key = catalog.get? key := by
  rcases extends_ key with same | ⟨_, _, above⟩
  · exact same
  · rw [isBelow_trans inside above] at notInside
    cases notInside

/-- Directories above the target are no obstacle to a move. -/
theorem Apart.of_extends {after : Catalog} (apart : Apart catalog source target)
    (extends_ : Virtual.Extends (isBelow · target = true) catalog after) :
    Apart after source target where
  different := apart.different
  notInside := apart.notInside
  notAround := apart.notAround
  free := by
    apply below_eq_nil_iff.mpr
    intro key node stored
    apply Bool.eq_false_iff.mpr
    intro below
    rw [get?_eq_of_extends (not_isBelow_self target) extends_ below] at stored
    rw [below_eq_nil_iff.mp apart.free key node stored] at below
    cases below

/-- A directory and all below it stand under another key, below directories, and nothing
else has changed. -/
structure Relocated (source target : String) (before after : Catalog) : Prop where
  arrived : after.get? target = some .directory
  moved : ∀ rest node, before.get? (source ++ "/" ++ rest) = some node →
    after.get? (target ++ "/" ++ rest) = some node
  left : after.get? source = none
  emptied : ∀ rest, after.get? (source ++ "/" ++ rest) = none
  grounded : ∀ key, isBelow key target = true → before.get? key = none →
    after.get? key = some .directory
  others : ∀ key, key ≠ target → key ≠ source → (∀ rest, key ≠ source ++ "/" ++ rest) →
    (∀ rest node, before.get? (source ++ "/" ++ rest) = some node → key ≠ target ++ "/" ++ rest) →
    (isBelow key target = true → before.get? key ≠ none) → after.get? key = before.get? key

theorem Apart.relocated (apart : Apart catalog source target) (canonical : Canonical target) :
    Relocated source target catalog
      ((catalog.furnish (chain (parent target))).relocate source target) := by
  have grown : Virtual.Extends (isBelow · target = true) catalog _ := extends_furnish_above canonical
  have ready := apart.of_extends grown
  have inside : ∀ rest, isBelow source (source ++ "/" ++ rest) = true :=
    fun rest => isBelow_iff_exists.mpr ⟨rest, rfl⟩
  have same : ∀ rest, (catalog.furnish (chain (parent target))).get? (source ++ "/" ++ rest) =
      catalog.get? (source ++ "/" ++ rest) :=
    fun rest => get?_eq_of_extends apart.notInside grown (inside rest)
  constructor
  case arrived => exact ready.get?_relocate_target
  case moved =>
    intro rest node stored
    rw [← same] at stored
    have moved := ready.get?_relocate_moved stored (inside rest)
    rwa [rebase_append] at moved
  case left => exact get?_relocate_source
  case emptied => exact fun rest => ready.get?_relocate_below (inside rest)
  case grounded =>
    intro key above missing
    have elsewhere : key ≠ source := by
      rintro rfl
      rw [apart.notInside] at above
      cases above
    have outside : isBelow source key = false := by
      apply Bool.eq_false_iff.mpr
      intro below
      have within := apart.notInside
      rw [isBelow_trans below above] at within
      cases within
    rw [get?_relocate_other elsewhere outside (ne_of_isBelow above).symm]
    · rw [get?_furnish_above canonical, if_pos above, missing]
      rfl
    · intro old node _ below equal
      have lower : isBelow target (rebase source target old) = true := isBelow_rebase below
      rw [equal, isBelow_asymm above] at lower
      cases lower
  case others =>
    intro key notTarget elsewhere outside unmoved present
    have notBelow : isBelow source key = false := by
      apply Bool.eq_false_iff.mpr
      intro below
      rcases isBelow_iff_exists.mp below with ⟨rest, equal⟩
      exact outside rest equal
    rw [get?_relocate_other elsewhere notBelow notTarget]
    · rw [get?_furnish_above canonical]
      split
      · rename_i above
        cases found : catalog.get? key with
        | none => exact absurd found (present above)
        | some node => rfl
      · rfl
    · intro old node stored below equal
      rcases isBelow_iff_exists.mp below with ⟨rest, rfl⟩
      rw [same] at stored
      rw [rebase_append] at equal
      exact unmoved rest node stored equal.symm

end Catalog

/-! ## The operation -/

namespace Virtual

open Catalog

variable {catalog : Catalog} {source target path pathTarget : String}

/-- The part of a move that may change something. -/
theorem attempt_relocate (catalog : Catalog) (source target : String) :
    attempt Store.memory (do
      ensureDirectories (parent target)
      let below ← descendants source
      Session.putMany (copied source target below)
      Session.deleteMany (below.map Entry.path ++ [source])) catalog =
        match (chain (parent target)).find? catalog.isFile with
        | some place => (.error (.notADirectory place),
            catalog.furnish ((chain (parent target)).takeWhile fun place => !catalog.isFile place))
        | none => (.ok (), (catalog.furnish (chain (parent target))).relocate source target) := by
  have walk := attempt_forM_ensurePlace (chain (parent target)) catalog
  rw [← ensureDirectories_eq] at walk
  cases found : (chain (parent target)).find? catalog.isFile with
  | some place =>
    rw [found] at walk
    rw [attempt_bind_of_error walk]
  | none =>
    rw [found] at walk
    rw [attempt_bind_of_ok walk, attempt_bind_of_ok (attempt_descendants _ source),
      attempt_bind_of_ok (Store.attempt_putMany _ _), Store.attempt_deleteMany, relocate]

/-- A directory is moved, unless one of four things is in the way.  They are looked for in
this order, and only the last one after directories were put. -/
theorem attempt_renameDirectory (catalog : Catalog) (source target : String) :
    attempt Store.memory (renameDirectory source target) catalog =
      if isBelow source target then (.error (.moveIntoItself source), catalog)
      else if catalog.isFile target then (.error (.conflict target), catalog)
      else if catalog.below target ≠ [] then (.error (.destinationNotEmpty target), catalog)
      else
        match (chain (parent target)).find? catalog.isFile with
        | some place => (.error (.notADirectory place),
            catalog.furnish ((chain (parent target)).takeWhile fun place => !catalog.isFile place))
        | none => (.ok (), (catalog.furnish (chain (parent target))).relocate source target) := by
  unfold renameDirectory
  by_cases inside : isBelow source target = true
  · rw [if_pos inside, if_pos inside]
    rfl
  rw [if_neg inside, if_neg inside, attempt_bind_of_ok (attempt_descendants catalog target),
    attempt_bind_of_ok (Store.attempt_get catalog target), ← attempt_relocate]
  cases file : catalog.isFile target with
  | true =>
    rcases isFile_iff.mp file with ⟨content, stored⟩
    rw [stored]
    rfl
  | false =>
    rw [if_neg Bool.false_ne_true]
    split
    · rename_i content stored
      rw [isFile_iff.mpr ⟨content, stored⟩] at file
      cases file
    · cases occupied : catalog.below target with
      | nil => simp only [List.isEmpty_nil, Bool.not_true, Bool.false_eq_true, ne_eq,
          not_true_eq_false, if_false, copied]
      | cons entry rest => rfl

/-- How the move of a stored directory ends.  Each obstacle is named only if those before it
are not in the way, and without any of them the directory is moved. -/
structure MovesDirectory (source target : String) (before : Catalog)
    (result : Except FsError Answer) (after : Catalog) : Prop where
  admitted : ∀ path, result ≠ .error (.invalidPath path)
  intoItself : result = .error (.moveIntoItself source) ↔ isBelow source target = true
  ontoFile : isBelow source target = false →
    (result = .error (.conflict target) ↔ before.isFile target = true)
  ontoEntries : isBelow source target = false → before.isFile target = false →
    (result = .error (.destinationNotEmpty target) ↔
      ∃ rest node, before.get? (target ++ "/" ++ rest) = some node)
  belowFile : isBelow source target = false → before.isFile target = false →
    (∀ rest, before.get? (target ++ "/" ++ rest) = none) → ∀ place,
    (result = .error (.notADirectory place) ↔
      isBelow place target = true ∧ before.isFile place = true ∧
        ∀ above, isBelow above place = true → before.isFile above = false)
  succeeds : isBelow source target = false → before.isFile target = false →
    (∀ rest, before.get? (target ++ "/" ++ rest) = none) →
    (∀ above, isBelow above target = true → before.isFile above = false) →
    result = .ok .done ∧ Relocated source target before after

theorem below_eq_nil_iff_forall :
    catalog.below target = [] ↔ ∀ rest, catalog.get? (target ++ "/" ++ rest) = none := by
  rw [below_eq_nil_iff]
  constructor
  · intro none rest
    apply Option.eq_none_iff_forall_ne_some.mpr
    intro node stored
    exact ne_append_of_not_isBelow (none _ node stored) rest rfl
  · intro none key node stored
    apply Bool.eq_false_iff.mpr
    intro inside
    rcases isBelow_iff_exists.mp inside with ⟨rest, rfl⟩
    rw [none rest] at stored
    cases stored

theorem movesDirectory (canonical : Canonical target) (different : source ≠ target)
    (directory : catalog.get? source = some .directory) :
    MovesDirectory source target catalog
      ((attempt Store.memory (renameDirectory source target) catalog).1.map fun _ => .done)
      (attempt Store.memory (renameDirectory source target) catalog).2 := by
  have free_iff : catalog.below target = [] ↔ _ := below_eq_nil_iff_forall
  have occupied_iff : catalog.below target ≠ [] ↔
      ∃ rest node, catalog.get? (target ++ "/" ++ rest) = some node := by
    simp [free_iff, Option.ne_none_iff_exists']
  rw [attempt_renameDirectory]
  by_cases inside : isBelow source target = true
  · rw [if_pos inside]
    constructor <;> simp [inside, Except.map]
  rw [if_neg inside]
  rw [Bool.not_eq_true] at inside
  by_cases file : catalog.isFile target = true
  · rw [if_pos file]
    constructor <;> simp [inside, file, Except.map]
  rw [if_neg file]
  rw [Bool.not_eq_true] at file
  by_cases occupied : catalog.below target ≠ []
  · rw [if_pos occupied]
    constructor <;> simp [inside, file, ← free_iff, occupied, ← occupied_iff, Except.map]
  rw [if_neg occupied]
  have free : catalog.below target = [] := not_not.mp occupied
  have uppermost_iff (place : String) :
      (chain (parent target)).find? catalog.isFile = some place ↔ _ :=
    find?_chain_parent_eq_some_iff canonical
  have clear_iff : (chain (parent target)).find? catalog.isFile = none ↔ _ :=
    find?_chain_parent_eq_none_iff canonical
  cases found : (chain (parent target)).find? catalog.isFile with
  | some place =>
    rw [found] at uppermost_iff clear_iff
    constructor <;>
      simp [inside, file, ← occupied_iff, free, ← uppermost_iff, ← clear_iff, Except.map]
  | none =>
    rw [found] at uppermost_iff
    have notAround : isBelow target source = false := below_eq_nil_iff.mp free source _ directory
    have relocated := Apart.relocated ⟨different, inside, notAround, free⟩ canonical
    constructor <;>
      simp [inside, file, ← occupied_iff, free, ← uppermost_iff, Except.map, relocated]

/-- A stored directory is moved by its own part of the operation. -/
theorem attempt_rename_of_directory (admitted : require path = .ok source)
    (admittedTarget : require pathTarget = .ok target) (different : source ≠ target)
    (directory : catalog.get? source = some .directory) :
    attempt Store.memory (perform (.rename path pathTarget)) catalog =
      ((attempt Store.memory (renameDirectory source target) catalog).1.map fun _ => .done,
        (attempt Store.memory (renameDirectory source target) catalog).2) := by
  have renames : attempt Store.memory (rename path pathTarget) catalog =
      attempt Store.memory (renameDirectory source target) catalog := by
    rw [rename, attempt_bind_of_ok (attempt_require admitted),
      attempt_bind_of_ok (attempt_require admittedTarget),
      attempt_bind_of_ok (Store.attempt_get catalog source), directory]
    dsimp only
    rw [if_neg different]
  rw [← renames]
  exact attempt_answer fun _ => Answer.done

theorem rename_movesDirectory (admitted : require path = .ok source)
    (admittedTarget : require pathTarget = .ok target) (different : source ≠ target)
    (directory : catalog.get? source = some .directory) :
    MovesDirectory source target catalog
      (attempt Store.memory (perform (.rename path pathTarget)) catalog).1
      (attempt Store.memory (perform (.rename path pathTarget)) catalog).2 := by
  rw [attempt_rename_of_directory admitted admittedTarget different directory]
  exact movesDirectory (canonical_of_require admittedTarget) different directory

end Virtual

namespace Backend

/-- On every open store, whatever entries it holds, the move of a stored directory to
another place ends in one way only if the host refuses nothing, and so it does end: with
the first obstacle that is in the way, or with the directory and all below it moved. -/
theorem rename_moves_subtree {before : Backend} {path pathTarget source target : String}
    (admitted : require path = .ok source) (admittedTarget : require pathTarget = .ok target)
    (directory : before.catalog.get? source = some .directory) (different : source ≠ target) :
    ∃ result next, Virtual.MovesDirectory source target before.catalog result next ∧
      (∃ after, Program.Runs Host.willing ((run (Virtual.perform (.rename path pathTarget))).run before)
        () (result, after) ()) ∧
      ∀ other after, Program.Runs Host.willing
        ((run (Virtual.perform (.rename path pathTarget))).run before) () (other, after) () →
        other = result ∧ after.catalog = next := by
  have moves := Virtual.rename_movesDirectory admitted admittedTarget different directory
  refine ⟨_, _, moves, exists_runs_of_attempt _ before, ?_⟩
  intro other after runs
  rw [attempt_of_runs runs]
  exact ⟨rfl, rfl⟩

/-- A directory is moved below a missing one.  What is stored beside it under a longer name
stays, although the directory of that name is missing too. -/
theorem rename_moves_subtree_beside_namesake :
    ∃ (held : Catalog) (after : Backend),
      held.get? "a/x" = some (.file (.text "1")) ∧ held.get? "ab/x" = some (.file (.text "2")) ∧
      held.get? "ab" = none ∧ held.get? "c" = none ∧
      Program.Runs Host.willing ((run (Virtual.perform (.rename "a" "c/d"))).run (memory held))
        () (.ok .done, after) () ∧
      after.catalog.get? "c/d/x" = some (.file (.text "1")) ∧ after.catalog.get? "a/x" = none ∧
      after.catalog.get? "c" = some .directory ∧
      after.catalog.get? "ab/x" = some (.file (.text "2")) := by
  let held : Catalog := .ofEntries
    [⟨"a", .directory⟩, ⟨"ab/x", .file (.text "2")⟩, ⟨"a/x", .file (.text "1")⟩]
  have directory : (memory held).catalog.get? "a" = some .directory := rfl
  have admitted : require "a" = .ok "a" := by decide
  have admittedTarget : require "c/d" = .ok "c/d" := by decide
  rcases rename_moves_subtree admitted admittedTarget directory (by decide) with
    ⟨result, next, moves, ⟨after, runs⟩, unique⟩
  have noFile : (chain (parent "c/d")).find? held.isFile = none := rfl
  have clear := (Catalog.find?_chain_parent_eq_none_iff (canonical_of_require admittedTarget)).mp noFile
  rcases moves.succeeds rfl rfl (Virtual.below_eq_nil_iff_forall.mp rfl) clear with ⟨rfl, relocated⟩
  rcases unique _ after runs with ⟨_, rfl⟩
  refine ⟨held, after, rfl, rfl, rfl, rfl, runs, relocated.moved "x" _ rfl, relocated.emptied "x",
    relocated.grounded "c" rfl rfl, ?_⟩
  exact relocated.others "ab/x" (by decide) (by decide) (ne_append_of_not_isBelow rfl)
    (fun rest _ _ => ne_append_of_not_isBelow rfl rest) (fun above => by cases above)

end Backend

end SaveTree
