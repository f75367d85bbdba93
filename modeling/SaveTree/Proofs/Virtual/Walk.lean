import SaveTree.Proofs.Store.Memory
import SaveTree.Proofs.Virtual.Invariant

namespace SaveTree

/-!
# The walk down to a directory

What the walk does to a catalog in memory, step by step and as a whole.  It puts a
directory at every free place on its way and stops at the first file.  In a save
tree it does only one of the two: everything above a file is stored already, so a
walk that stops there has put nothing.
-/

open Program

namespace Catalog

variable {catalog : Catalog} {key : String} {places : List String}

/-- A file is stored under a key. -/
def isFile (catalog : Catalog) (key : String) : Bool :=
  (catalog.get? key).map Node.kind = some .file

theorem isFile_iff : catalog.isFile key = true ↔ ∃ content, catalog.get? key = some (.file content) := by
  rw [isFile, decide_eq_true_iff]
  cases catalog.get? key with
  | none => simp
  | some node => cases node <;> simp [Node.kind]

/-- Where no file is, there is nothing or a directory. -/
theorem get?_of_not_file (notFile : catalog.isFile key = false) :
    catalog.get? key = none ∨ catalog.get? key = some .directory := by
  cases found : catalog.get? key with
  | none => exact .inl rfl
  | some node =>
    cases node with
    | directory => exact .inr rfl
    | file content =>
      rw [isFile_iff.mpr ⟨content, found⟩] at notFile
      cases notFile

theorem kind_eq_directory_iff :
    (catalog.get? key).map Node.kind = some .directory ↔ catalog.get? key = some .directory := by
  cases catalog.get? key with
  | none => simp
  | some node => cases node <;> simp [Node.kind]

/-- With a directory at a place, if nothing is stored there. -/
def furnishAt (catalog : Catalog) (place : String) : Catalog :=
  if catalog.contains place then catalog else catalog.put ⟨place, .directory⟩

/-- With directories at all places where nothing is stored. -/
def furnish (catalog : Catalog) (places : List String) : Catalog :=
  places.foldl furnishAt catalog

@[simp]
theorem furnish_nil (catalog : Catalog) : catalog.furnish [] = catalog :=
  rfl

@[simp]
theorem furnish_cons (catalog : Catalog) (place : String) (places : List String) :
    catalog.furnish (place :: places) = (catalog.furnishAt place).furnish places :=
  rfl

theorem furnishAt_of_stored {node : Node} (stored : catalog.get? key = some node) :
    catalog.furnishAt key = catalog := by
  rw [furnishAt, Table.contains, stored]
  rfl

theorem furnishAt_of_missing (missing : catalog.get? key = none) :
    catalog.furnishAt key = catalog.put ⟨key, .directory⟩ := by
  rw [furnishAt, Table.contains, missing]
  rfl

theorem get?_furnishAt (catalog : Catalog) (place key : String) :
    (catalog.furnishAt place).get? key =
      if key = place then some ((catalog.get? key).getD .directory) else catalog.get? key := by
  cases found : catalog.get? place with
  | none =>
    rw [furnishAt_of_missing found, get?_put]
    by_cases same : key = place
    · rw [if_pos same, if_pos same, same, found]
      rfl
    · rw [if_neg same, if_neg same]
  | some node =>
    rw [furnishAt_of_stored found]
    by_cases same : key = place
    · rw [if_pos same, same, found]
      rfl
    · rw [if_neg same]

/-- What was stored stays, and everything else on the way is a directory. -/
theorem get?_furnish (catalog : Catalog) (places : List String) (key : String) :
    (catalog.furnish places).get? key =
      if key ∈ places then some ((catalog.get? key).getD .directory) else catalog.get? key := by
  induction places generalizing catalog with
  | nil => simp
  | cons place places ih =>
    rw [furnish_cons, ih, get?_furnishAt]
    by_cases first : key = place
    · by_cases later : key ∈ places <;> simp [first]
    · by_cases later : key ∈ places <;> simp [first, later]

/-- Nothing is done where everything is stored. -/
theorem furnish_eq_self (stored : ∀ place ∈ places, ∃ node, catalog.get? place = some node) :
    catalog.furnish places = catalog := by
  induction places with
  | nil => rfl
  | cons place places ih =>
    rcases stored place List.mem_cons_self with ⟨node, found⟩
    rw [furnish_cons, furnishAt_of_stored found]
    exact ih fun other member => stored other (.tail _ member)

/-- Putting a directory at a free place makes and loses no file. -/
theorem isFile_put_directory (missing : catalog.get? key = none) :
    (catalog.put ⟨key, .directory⟩).isFile = catalog.isFile := by
  funext other
  rw [isFile, isFile, get?_put]
  by_cases same : other = key
  · rw [if_pos same, same, missing]
    rfl
  · rw [if_neg same]

end Catalog

namespace Virtual

open Catalog Key

variable {catalog : Catalog} {key : String}

theorem attempt_ensurePlace (catalog : Catalog) (place : String) :
    attempt Store.memory (ensurePlace place) catalog =
      if catalog.isFile place then (.error (.notADirectory place), catalog)
      else (.ok (), catalog.furnishAt place) := by
  rw [ensurePlace, attempt_bind_of_ok (Store.attempt_get catalog place), isFile]
  cases found : catalog.get? place with
  | none =>
    rw [furnishAt_of_missing found]
    rfl
  | some node =>
    rw [furnishAt_of_stored found]
    cases node <;> rfl

/-- A step that succeeds leaves a directory, and all that was stored. -/
theorem directory_of_ensurePlace {place : String} {between : Catalog}
    (walked : attempt Store.memory (ensurePlace place) catalog = (.ok (), between)) :
    between.get? place = some .directory ∧
      ∀ other node, catalog.get? other = some node → between.get? other = some node := by
  rw [attempt_ensurePlace] at walked
  split at walked
  · cases walked
  · rename_i notFile
    cases walked
    constructor
    · rw [get?_furnishAt, if_pos rfl]
      rcases get?_of_not_file (Bool.eq_false_iff.mpr notFile) with found | found <;> rw [found] <;> rfl
    · intro other node stored
      rw [get?_furnishAt, stored]
      split <;> rfl

theorem isFile_furnishAt (catalog : Catalog) (key : String) :
    (catalog.furnishAt key).isFile = catalog.isFile := by
  cases found : catalog.get? key with
  | none => rw [furnishAt_of_missing found, isFile_put_directory found]
  | some node => rw [furnishAt_of_stored found]

/-- The walk along some places puts directories until it comes to a file. -/
theorem attempt_forM_ensurePlace (places : List String) (catalog : Catalog) :
    attempt Store.memory (places.forM ensurePlace) catalog =
      match places.find? catalog.isFile with
      | none => (.ok (), catalog.furnish places)
      | some place => (.error (.notADirectory place),
          catalog.furnish (places.takeWhile fun place => !catalog.isFile place)) := by
  induction places generalizing catalog with
  | nil => rfl
  | cons place places ih =>
    have step := attempt_ensurePlace catalog place
    have unfolded : (place :: places).forM ensurePlace =
        (ensurePlace place >>= fun _ => places.forM ensurePlace) := rfl
    rw [unfolded]
    cases file : catalog.isFile place with
    | true =>
      rw [file, if_pos rfl] at step
      rw [attempt_bind_of_error step, List.find?_cons_of_pos file,
        List.takeWhile_cons_of_neg (by simp [file])]
      rfl
    | false =>
      rw [file, if_neg Bool.false_ne_true] at step
      rw [attempt_bind_of_ok step, ih, isFile_furnishAt, List.find?_cons_of_neg (by simp [file]),
        List.takeWhile_cons_of_pos (by simp [file])]
      rfl

/-- A walk that comes to a file fails. -/
theorem exists_error_of_file {place : String} (inside : place ∈ chain key)
    (file : catalog.isFile place = true) :
    ∃ error after, attempt Store.memory (ensureDirectories key) catalog = (.error error, after) := by
  rw [ensureDirectories_eq, attempt_forM_ensurePlace]
  cases found : (chain key).find? catalog.isFile with
  | none => exact absurd file (List.find?_eq_none.mp found place inside)
  | some first => exact ⟨_, _, rfl⟩

/-- In a save tree everything before the first file of a chain is stored. -/
theorem furnish_before_file {places : List String} {place : String} (tree : IsSaveTree catalog)
    (downwards : places.Pairwise fun above below => isBelow above below = true)
    (found : places.find? catalog.isFile = some place) :
    catalog.furnish (places.takeWhile fun place => !catalog.isFile place) = catalog := by
  rcases List.find?_eq_some_iff_append.mp found with ⟨file, before, behind, rfl, clear⟩
  rcases isFile_iff.mp file with ⟨content, stored⟩
  rw [List.takeWhile_append_of_pos clear, List.takeWhile_cons_of_neg (by simp [file]),
    List.append_nil]
  apply furnish_eq_self
  intro above member
  have below := (List.pairwise_append.mp downwards).2.2 above member place List.mem_cons_self
  exact ⟨.directory, tree.rooted stored below⟩

/-- In a save tree the walk puts all directories that are missing, or stops at a
file and has put none. -/
theorem attempt_ensureNames {names : List (List Char)} (tree : IsSaveTree catalog)
    (areNames : ∀ name ∈ names, Path.IsName name) :
    attempt Store.memory (ensureDirectories (ofNames names)) catalog =
      match (chain (ofNames names)).find? catalog.isFile with
      | none => (.ok (), catalog.furnish (chain (ofNames names)))
      | some place => (.error (.notADirectory place), catalog) := by
  rw [ensureDirectories_eq, attempt_forM_ensurePlace]
  cases found : (chain (ofNames names)).find? catalog.isFile with
  | none => rfl
  | some place =>
    dsimp only
    rw [furnish_before_file tree (chain_pairwise areNames) found]

theorem attempt_ensureDirectories (tree : IsSaveTree catalog) (canonical : Canonical key) :
    attempt Store.memory (ensureDirectories key) catalog =
      match (chain key).find? catalog.isFile with
      | none => (.ok (), catalog.furnish (chain key))
      | some place => (.error (.notADirectory place), catalog) := by
  rcases canonical.exists_names with ⟨names, _, areNames, rfl⟩
  exact attempt_ensureNames tree areNames

theorem attempt_ensureParent (tree : IsSaveTree catalog) (canonical : Canonical key) :
    attempt Store.memory (ensureDirectories (parent key)) catalog =
      match (chain (parent key)).find? catalog.isFile with
      | none => (.ok (), catalog.furnish (chain (parent key)))
      | some place => (.error (.notADirectory place), catalog) := by
  rcases canonical.exists_parent with ⟨upper, name, areNames, _, parent_eq⟩
  rw [parent_eq]
  exact attempt_ensureNames tree fun other member => areNames other (List.mem_append_left _ member)

/-- A walk that succeeds leaves directories everywhere above the key. -/
theorem directory_of_ensureParent {between : Catalog} {above : String} (tree : IsSaveTree catalog)
    (canonical : Canonical key)
    (walked : attempt Store.memory (ensureDirectories (parent key)) catalog = (.ok (), between))
    (below : isBelow above key = true) : between.get? above = some .directory := by
  have inside := (mem_chain_parent_iff canonical).mpr below
  rw [attempt_ensureParent tree canonical] at walked
  split at walked
  · rename_i clear
    cases walked
    have notFile := List.find?_eq_none.mp clear above inside
    rw [get?_furnish, if_pos inside]
    rcases get?_of_not_file (Bool.eq_false_iff.mpr notFile) with found | found <;> rw [found] <;> rfl
  · cases walked

/-- Nothing is missing above a key that is stored. -/
theorem furnish_above_stored {node : Node} (tree : IsSaveTree catalog)
    (stored : catalog.get? key = some node) :
    catalog.furnish (chain (parent key)) = catalog := by
  apply furnish_eq_self
  intro above member
  exact ⟨.directory, tree.rooted stored ((mem_chain_parent_iff (tree.canonical stored)).mp member)⟩

theorem attempt_ensureParent_of_stored {node : Node} (tree : IsSaveTree catalog)
    (stored : catalog.get? key = some node) :
    attempt Store.memory (ensureDirectories (parent key)) catalog = (.ok (), catalog) := by
  have canonical := tree.canonical stored
  have clear : (chain (parent key)).find? catalog.isFile = none := by
    apply List.find?_eq_none.mpr
    intro above member
    rw [isFile, tree.rooted stored ((mem_chain_parent_iff canonical).mp member)]
    nofun
  rw [attempt_ensureParent tree canonical, clear, furnish_above_stored tree stored]

end Virtual
end SaveTree
