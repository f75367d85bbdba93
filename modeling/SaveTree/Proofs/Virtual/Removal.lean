import SaveTree.Proofs.Key.Admission
import SaveTree.Proofs.Virtual.Relocation

namespace SaveTree

/-!
# What removals take out

A removal looks at its key and at all that is stored below it, and deletes what it has
found.  So it does not matter whether the store holds a tree: a directory may be there
only because something is stored below it, and a key that merely begins with the same
letters is not below it.

Two readings of a path are at work.  The root is told by the key alone, and every other
path must be admitted.
-/

open Program Key

namespace Catalog

variable {catalog : Catalog} {key : String}

/-- To erase paths one after the other is to keep all the others. -/
theorem eraseAll_eq_filter (catalog : Catalog) (paths : List String) :
    catalog.eraseAll paths = catalog.filter fun key => decide (key ∉ paths) := by
  induction paths generalizing catalog with
  | nil =>
    apply Table.eq_of_rows_eq
    exact (List.filter_eq_self.mpr fun _ _ => rfl).symm
  | cons path rest ih =>
    have step : catalog.eraseAll (path :: rest) = eraseAll (catalog.erase path) rest := rfl
    rw [step, ih]
    apply Table.eq_of_rows_eq
    simp only [Table.erase, Table.filter, List.filter_filter]
    apply List.filter_congr
    intro row _
    rw [Bool.eq_iff_iff]
    simp [and_comm]

/-- The entries whose key is neither the given one nor below it. -/
def without (catalog : Catalog) (key : String) : Catalog :=
  catalog.filter fun other => !(decide (other = key) || isBelow key other)

/-- A directory is stored under the key, or something below it. -/
def Occupied (catalog : Catalog) (key : String) : Prop :=
  catalog.get? key = some .directory ∨ ∃ other node, catalog.get? other = some node ∧ isBelow key other = true

theorem below_ne_nil_iff :
    catalog.below key ≠ [] ↔ ∃ other node, catalog.get? other = some node ∧ isBelow key other = true := by
  rw [Ne, below_eq_nil_iff]
  simp

/-- What a removal deletes is all that stands at its key and below it. -/
theorem eraseAll_doomed (catalog : Catalog) (key : String) :
    catalog.eraseAll ((catalog.below key).map Entry.path ++
      if (catalog.get? key).isSome then [key] else []) = catalog.without key := by
  rw [eraseAll_eq_filter]
  apply Table.eq_of_rows_eq
  apply List.filter_congr
  rintro ⟨other, node⟩ member
  have stored : catalog.get? other = some node := catalog.get?_of_mem member
  have listed : other ∈ (catalog.below key).map Entry.path ↔ isBelow key other = true := by
    rw [List.mem_map]
    constructor
    · rintro ⟨entry, inside, rfl⟩
      exact (mem_below_iff.mp inside).2
    · intro below
      exact ⟨⟨other, node⟩, mem_below_iff.mpr ⟨stored, below⟩, rfl⟩
  have itself : (other ∈ if (catalog.get? key).isSome then [key] else []) ↔ other = key := by
    split
    · exact List.mem_singleton
    · rename_i missing
      refine iff_of_false List.not_mem_nil ?_
      rintro rfl
      exact missing (stored ▸ rfl)
  rw [Bool.eq_iff_iff]
  simp only [decide_eq_true_iff, List.mem_append, listed, itself, Bool.not_eq_true', Bool.or_eq_false_iff,
    decide_eq_false_iff_not, not_or, Bool.not_eq_true]
  exact and_comm

/-- Where nothing is stored below a key, only the key itself is taken out. -/
theorem without_eq_erase (free : catalog.below key = []) : catalog.without key = catalog.erase key := by
  apply Table.eq_of_rows_eq
  apply List.filter_congr
  rintro ⟨other, node⟩ member
  have stored : catalog.get? other = some node := catalog.get?_of_mem member
  simp [below_eq_nil_iff.mp free other node stored]

theorem without_eq_self (missing : catalog.get? key = none) (free : catalog.below key = []) :
    catalog.without key = catalog := by
  rw [without_eq_erase free]
  exact Table.erase_eq_self missing

/-- Nothing is left if all paths in use are erased. -/
theorem eraseAll_entries (catalog : Catalog) :
    catalog.eraseAll (catalog.entries.map Entry.path) = .empty := by
  rw [eraseAll_eq_filter]
  apply Table.eq_of_rows_eq
  apply List.filter_eq_nil_iff.mpr
  rintro ⟨other, node⟩ member
  have listed : other ∈ catalog.entries.map Entry.path :=
    List.mem_map.mpr ⟨⟨other, node⟩, mem_entries_iff.mpr (catalog.get?_of_mem member), rfl⟩
  simp [listed]

end Catalog

namespace Virtual

open Catalog

variable {catalog : Catalog} {path key : String}

/-- Without `recursive` a directory is kept, and so is a key with something below it.
Otherwise all that stands at the key and below it is gone. -/
theorem attempt_remove (catalog : Catalog) (admitted : require path = .ok key) (recursive : Bool) :
    attempt Store.memory (remove path recursive) catalog =
      if recursive = false ∧ (catalog.get? key = some .directory ∨ catalog.below key ≠ []) then
        (.error (.directoryNotEmpty key), catalog)
      else (.ok (), catalog.without key) := by
  have inside := (require_eq_ok_iff.mp admitted).2.1
  rw [remove, if_neg inside, attempt_bind_of_ok (attempt_require admitted),
    attempt_bind_of_ok (Store.attempt_get catalog key),
    attempt_bind_of_ok (attempt_descendants catalog key)]
  by_cases nothing : (catalog.get? key).isNone ∧ (catalog.below key).isEmpty
  · have missing := Option.isNone_iff_eq_none.mp nothing.1
    have free := List.isEmpty_iff.mp nothing.2
    rw [if_pos nothing, if_neg, without_eq_self missing free]
    · rfl
    · simp [missing, free]
  · rw [if_neg nothing]
    have same : ((catalog.get? key = some .directory ∨ (!(catalog.below key).isEmpty) = true) ∧
          (!recursive) = true) ↔
        recursive = false ∧ (catalog.get? key = some .directory ∨ catalog.below key ≠ []) := by
      simp [and_comm]
    by_cases refused : recursive = false ∧ (catalog.get? key = some .directory ∨ catalog.below key ≠ [])
    · rw [if_pos refused, if_pos (same.mpr refused)]
      rfl
    · rw [if_neg refused, if_neg (mt same.mp refused), Store.attempt_deleteMany, eraseAll_doomed]

/-- How the removal of a key ends, whatever is stored. -/
structure Removes (key : String) (recursive : Bool) (before : Catalog)
    (result : Except FsError Answer) (after : Catalog) : Prop where
  refused : result = .error (.directoryNotEmpty key) ↔ recursive = false ∧ before.Occupied key
  succeeds : recursive = true ∨ ¬before.Occupied key → result = .ok .done
  unchanged : ∀ error, result = .error error → after = before
  whole : recursive = true → after = before.without key
  single : recursive = false → result = .ok .done → after = before.erase key

theorem removes (catalog : Catalog) (admitted : require path = .ok key) (recursive : Bool) :
    Removes key recursive catalog
      ((attempt Store.memory (remove path recursive) catalog).1.map fun _ => .done)
      (attempt Store.memory (remove path recursive) catalog).2 := by
  have occupied_iff : catalog.Occupied key ↔ catalog.get? key = some .directory ∨ catalog.below key ≠ [] :=
    or_congr_right below_ne_nil_iff.symm
  have refused_iff := and_congr_right fun _ : recursive = false => occupied_iff
  rw [attempt_remove catalog admitted]
  by_cases refused : recursive = false ∧ catalog.Occupied key
  · rw [if_pos (refused_iff.mp refused)]
    constructor <;> simp [refused, Except.map]
  · rw [if_neg (mt refused_iff.mpr refused)]
    constructor
    case refused => simp [refused, Except.map]
    case succeeds => exact fun _ => rfl
    case unchanged =>
      intro error failed
      cases failed
    case whole => exact fun _ => rfl
    case single =>
      intro alone _
      have vacant := not_and.mp refused alone
      rw [occupied_iff, not_or, not_not] at vacant
      exact without_eq_erase vacant.2

/-- The root is emptied, or nothing is done. -/
theorem attempt_remove_root (catalog : Catalog) (root : ofPath path = "") (recursive : Bool) :
    attempt Store.memory (remove path recursive) catalog =
      if recursive then (.ok (), .empty) else (.error .rootRemoval, catalog) := by
  rw [remove, if_pos root]
  cases recursive with
  | false => rfl
  | true =>
    have emptied : attempt Store.memory removeAll catalog =
        (.ok (), catalog.eraseAll (catalog.entries.map Entry.path)) := rfl
    rw [eraseAll_entries] at emptied
    exact emptied

/-- A path that is refused, and not because it leads to the root. -/
theorem attempt_remove_of_refused {error : FsError} (catalog : Catalog) (inside : ofPath path ≠ "")
    (refused : require path = .error error) (recursive : Bool) :
    attempt Store.memory (remove path recursive) catalog = (.error error, catalog) := by
  rw [remove, if_neg inside, refused]
  rfl

theorem attempt_perform_remove (catalog : Catalog) (path : String) (recursive : Bool) :
    attempt Store.memory (perform (.remove path recursive)) catalog =
      ((attempt Store.memory (remove path recursive) catalog).1.map fun _ => .done,
        (attempt Store.memory (remove path recursive) catalog).2) :=
  attempt_answer fun _ => Answer.done

end Virtual

namespace Key

open Path

variable {path : String}

/-- A path that stays inside names the root if it leads nowhere else. -/
theorem ofPath_eq_empty_of_walk
    (stays : ¬(isRooted path.toList = false ∧ GoesAbove (path.toList.splitOnP isSeparator)))
    (top : walk path.toList [] = []) : ofPath path = "" := by
  have empty := require_eq path
  rw [if_neg stays, if_pos top, require] at empty
  by_cases root : ofPath path = ""
  · exact root
  · rw [if_neg root] at empty
    split at empty <;> cases empty

theorem ofPath_ne_empty_of_goesAbove
    (above : isRooted path.toList = false ∧ GoesAbove (path.toList.splitOnP isSeparator)) :
    ofPath path ≠ "" := by
  intro root
  have refused := require_eq path
  rw [if_pos above, require, if_pos root] at refused
  cases refused

end Key

namespace Backend

open Virtual Path

/-- Removals on an open store, whatever entries it holds, if the host refuses nothing.  A
removal ends in one way only.

If the path is admitted, it fails just if it is not recursive and a directory or something
below the key is stored.  Otherwise a recursive one keeps exactly what is neither at the key
nor below it, and any other one all but the key.  The root is emptied recursively or not at
all, and a path that goes above its start is refused. -/
theorem remove_exact (before : Backend) (path : String) (recursive : Bool) :
    ∃ result next,
      (∀ key, require path = .ok key → Removes key recursive before.catalog result next) ∧
      (¬(isRooted path.toList = false ∧ GoesAbove (path.toList.splitOnP isSeparator)) →
        walk path.toList [] = [] →
        (recursive = false → result = .error .rootRemoval ∧ next = before.catalog) ∧
        (recursive = true → result = .ok .done ∧ next = .empty)) ∧
      (isRooted path.toList = false ∧ GoesAbove (path.toList.splitOnP isSeparator) →
        result = .error (.invalidPath path) ∧ next = before.catalog) ∧
      (∃ after, Program.Runs Host.willing ((run (perform (.remove path recursive))).run before) ()
        (result, after) ()) ∧
      ∀ other after, Program.Runs Host.willing ((run (perform (.remove path recursive))).run before) ()
        (other, after) () → other = result ∧ after.catalog = next := by
  refine ⟨_, (attempt Store.memory (perform (.remove path recursive)) before.catalog).2, ?admitted,
    ?root, ?above, exists_runs_of_attempt _ before, ?unique⟩
  case unique =>
    intro other after runs
    rw [attempt_of_runs runs]
    exact ⟨rfl, rfl⟩
  case admitted =>
    intro key admitted
    rw [attempt_perform_remove]
    exact removes before.catalog admitted recursive
  case root =>
    intro stays top
    rw [attempt_perform_remove, attempt_remove_root before.catalog (ofPath_eq_empty_of_walk stays top)]
    cases recursive <;> simp [Except.map]
  case above =>
    intro above
    have refused := require_eq path
    rw [if_pos above] at refused
    rw [attempt_perform_remove,
      attempt_remove_of_refused before.catalog (ofPath_ne_empty_of_goesAbove above) refused]
    exact ⟨rfl, rfl⟩

/-- A directory that is there only because of what is stored below it is not removed
without `recursive`, and is removed with it; a longer name beside it stays. -/
theorem remove_exact_beside_namesake :
    ∃ (held : Catalog) (last : Backend),
      held.get? "a" = none ∧ held.get? "a/b/c" = some .directory ∧ held.get? "ab" = some (.file (.text "2")) ∧
      (∃ after, Program.Runs Host.willing ((run (perform (.remove "./a" false))).run (memory held)) ()
        (.error (.directoryNotEmpty "a"), after) () ∧ after.catalog = held) ∧
      Program.Runs Host.willing ((run (perform (.remove "./a" true))).run (memory held)) ()
        (.ok .done, last) () ∧
      last.catalog = held.without "a" ∧ last.catalog.get? "ab" = some (.file (.text "2")) := by
  let held : Catalog := .ofEntries [⟨"ab", .file (.text "2")⟩, ⟨"a/b/c", .directory⟩]
  have admitted : require "./a" = .ok "a" := by decide
  have occupied : held.Occupied "a" := .inr ⟨"a/b/c", .directory, rfl, rfl⟩
  rcases remove_exact (memory held) "./a" false with ⟨kept, same, keeps, _, _, ⟨after, fails⟩, unique⟩
  rcases remove_exact (memory held) "./a" true with ⟨result, next, takes, _, _, ⟨last, runs⟩, uniqueLast⟩
  have refusal := (keeps "a" admitted).refused.mpr ⟨rfl, occupied⟩
  have unchanged := (keeps "a" admitted).unchanged _ refusal
  have done := (takes "a" admitted).succeeds (.inl rfl)
  have left := (uniqueLast _ last runs).2.trans ((takes "a" admitted).whole rfl)
  rw [refusal] at fails
  rw [done] at runs
  refine ⟨held, last, rfl, rfl, rfl, ⟨after, fails, ?_⟩, runs, left, left ▸ rfl⟩
  exact ((unique _ after (refusal ▸ fails)).2).trans unchanged

end Backend

end SaveTree
