import SaveTree.Proofs.Virtual.Files

namespace SaveTree

/-!
# What making a directory changes

Three things can be in the way of a directory: its parent is missing and is not to be
made, a file is in its place, or a file is above it.  They are looked at in this order,
but in a save tree hardly two of them meet, since nothing is stored below a file.  Where
nothing is in the way, the directory and those that are missing above it are put.

After that the whole way down to the directory stands.  Making it again finds nothing to
do: it looks along the way and calls for no change.
-/

open Program Key

namespace Key

variable {key : String}

theorem beginnings_concat {α : Type} (list : List α) (last : α) :
    beginnings (list ++ [last]) = beginnings list ++ [list ++ [last]] := by
  induction list with
  | nil => rfl
  | cons first rest ih => simp [beginnings, ih]

/-- The chain of a key is that of its parent and the key. -/
theorem Canonical.chain_eq (canonical : Canonical key) : chain key = chain (parent key) ++ [key] := by
  rcases canonical.exists_parent with ⟨upper, name, areNames, rfl, parent_eq⟩
  rw [parent_eq, chain_ofNames areNames,
    chain_ofNames fun other member => areNames other (List.mem_append_left _ member),
    beginnings_concat, List.map_append]
  rfl

/-- A key is below its parent, unless that is the root. -/
theorem Canonical.isBelow_parent (canonical : Canonical key) (below : parent key ≠ "") :
    isBelow (parent key) key = true := by
  rcases canonical.exists_parent with ⟨upper, name, areNames, rfl, parent_eq⟩
  rw [parent_eq] at below ⊢
  refine (isBelow_ofNames_concat_iff areNames).mpr ⟨upper, ?_, List.prefix_refl upper, rfl⟩
  rintro rfl
  exact below ofNames_nil

theorem Canonical.ofPath_parent (canonical : Canonical key) : ofPath (parent key) = parent key := by
  rcases canonical.exists_steps with ⟨steps, nonempty, areNames, rfl⟩
  rcases List.eq_nil_or_concat steps with empty | ⟨upper, name, rfl⟩
  · exact absurd empty nonempty
  rw [List.concat_eq_append] at areNames ⊢
  rw [parent_text_concat (areNames name List.mem_concat_self)]
  exact ofPath_text (areNames_append_iff.mp areNames).1

end Key

namespace Catalog

variable {catalog : Catalog} {key : String}

/-- The parent of a key is missing. -/
def Orphaned (catalog : Catalog) (key : String) : Prop :=
  parent key ≠ "" ∧ catalog.get? (parent key) = none

instance decidableOrphaned (catalog : Catalog) (key : String) : Decidable (catalog.Orphaned key) :=
  inferInstanceAs (Decidable (parent key ≠ "" ∧ catalog.get? (parent key) = none))

theorem furnish_append (catalog : Catalog) (upper lower : List String) :
    catalog.furnish (upper ++ lower) = (catalog.furnish upper).furnish lower :=
  List.foldl_append

/-- What is not at the key is above it. -/
theorem find?_chain (canonical : Canonical key) (free : catalog.isFile key = false) :
    (chain key).find? catalog.isFile = (chain (parent key)).find? catalog.isFile := by
  rw [canonical.chain_eq, List.find?_append, List.find?_singleton, if_neg (Bool.eq_false_iff.mp free),
    Option.or_none]

/-- If the parent of a key is there, nothing else is missing above the key. -/
theorem IsSaveTree.furnish_chain (tree : catalog.IsSaveTree) (canonical : Canonical key)
    (parented : ¬catalog.Orphaned key) : catalog.furnish (chain key) = catalog.furnishAt key := by
  have above : catalog.furnish (chain (parent key)) = catalog := by
    by_cases top : parent key = ""
    · rw [top]
      rfl
    · rcases Option.ne_none_iff_exists'.mp fun missing => parented ⟨top, missing⟩ with ⟨node, stored⟩
      have chain_eq := (tree.canonical stored).chain_eq
      rw [chain_eq, furnish_append, Virtual.furnish_above_stored tree stored, furnish_cons,
        furnishAt_of_stored stored, furnish_nil]
  rw [canonical.chain_eq, furnish_append, above, furnish_cons, furnish_nil]

end Catalog

namespace Virtual

open Catalog

variable {catalog : Catalog} {path key : String} {recursive : Bool}

/-! ## The parts of the operation -/

/-- A directory is made where its parent is of no matter. -/
def placeDirectory (key : String) : Session Unit := do
  match ← Session.get key with
  | some (.file _) => throw (.conflict key)
  | _ => ensureDirectories key

theorem makeDirectory_eq (admitted : require path = .ok key) (recursive : Bool) :
    makeDirectory path recursive =
      if recursive then placeDirectory key
      else find (parent key) >>= fun found =>
        if found then placeDirectory key else throw (.parentMissing (parent key)) := by
  rw [makeDirectory, lift_require admitted, pure_bind]
  cases recursive with
  | true => rfl
  | false =>
    refine bind_congr fun found => ?_
    cases found <;> rfl

/-- The root and what is stored is found. -/
theorem attempt_find_parent (catalog : Catalog) (canonical : Canonical key) :
    attempt Store.memory (find (parent key)) catalog =
      (.ok (!decide (catalog.Orphaned key)), catalog) := by
  unfold find
  rw [canonical.ofPath_parent]
  dsimp only
  by_cases top : parent key = ""
  · rw [if_pos top]
    simp [Orphaned, top]
  · rw [if_neg top, attempt_bind_of_ok (Store.attempt_get catalog (parent key))]
    cases found : catalog.get? (parent key) <;> simp [Orphaned, top, found]

theorem attempt_placeDirectory (catalog : Catalog) (key : String) :
    attempt Store.memory (placeDirectory key) catalog =
      if catalog.isFile key then (.error (.conflict key), catalog)
      else attempt Store.memory (ensureDirectories key) catalog := by
  rw [placeDirectory, attempt_bind_of_ok (Store.attempt_get catalog key)]
  cases file : catalog.isFile key with
  | true =>
    rcases isFile_iff.mp file with ⟨content, stored⟩
    rw [stored]
    rfl
  | false => rcases get?_of_not_file file with found | found <;> rw [found] <;> rfl

/-- What is in the way of a directory is looked at in turn. -/
theorem attempt_makeDirectory (catalog : Catalog) (admitted : require path = .ok key)
    (recursive : Bool) :
    attempt Store.memory (makeDirectory path recursive) catalog =
      if recursive = false ∧ catalog.Orphaned key then (.error (.parentMissing (parent key)), catalog)
      else if catalog.isFile key then (.error (.conflict key), catalog)
      else attempt Store.memory (ensureDirectories key) catalog := by
  rw [makeDirectory_eq admitted, ← attempt_placeDirectory]
  cases recursive with
  | true => simp
  | false =>
    have looked := attempt_find_parent catalog (canonical_of_require admitted)
    rw [if_neg Bool.false_ne_true, attempt_bind_of_ok looked]
    by_cases orphaned : catalog.Orphaned key <;> simp [orphaned]

/-! ## What it changes -/

/-- All directories down to a key stand, and nothing but those that were missing is new. -/
structure Paved (key : String) (before after : Catalog) : Prop where
  standing : ∀ place, place = key ∨ isBelow place key = true → after.get? place = some .directory
  others : ∀ other, ¬((other = key ∨ isBelow other key = true) ∧ before.get? other = none) →
    after.get? other = before.get? other

/-- How making a directory ends in a save tree. -/
structure MakesDirectory (key : String) (recursive : Bool) (before : Catalog)
    (result : Except FsError Answer) (after : Catalog) : Prop where
  orphaned : result = .error (.parentMissing (parent key)) ↔ recursive = false ∧ before.Orphaned key
  ontoFile : ¬(recursive = false ∧ before.Orphaned key) →
    (result = .error (.conflict key) ↔ before.isFile key = true)
  belowFile : ¬(recursive = false ∧ before.Orphaned key) → before.isFile key = false → ∀ place,
    (result = .error (.notADirectory place) ↔ isBelow place key = true ∧ before.isFile place = true)
  succeeds : ¬(recursive = false ∧ before.Orphaned key) → before.isFile key = false →
    (∀ above, isBelow above key = true → before.isFile above = false) → result = .ok .done
  made : result = .ok .done → Paved key before after
  unchanged : ∀ error, result = .error error → after = before

theorem paved_furnish (canonical : Canonical key) (free : catalog.isFile key = false)
    (clear : ∀ above, isBelow above key = true → catalog.isFile above = false) :
    Paved key catalog (catalog.furnish (chain key)) where
  standing := by
    intro place onWay
    have notFile : catalog.isFile place = false := by
      rcases onWay with rfl | below
      · exact free
      · exact clear place below
    rw [get?_furnish, if_pos ((mem_chain_iff canonical).mpr onWay)]
    rcases get?_of_not_file notFile with found | found <;> rw [found] <;> rfl
  others := by
    intro other old
    rw [get?_furnish]
    split
    · rename_i inside
      cases found : catalog.get? other with
      | none => exact absurd ⟨(mem_chain_iff canonical).mp inside, found⟩ old
      | some node => rfl
    · rfl

theorem makesDirectory (tree : catalog.IsSaveTree) (admitted : require path = .ok key)
    (recursive : Bool) :
    MakesDirectory key recursive catalog
      ((attempt Store.memory (makeDirectory path recursive) catalog).1.map fun _ => .done)
      (attempt Store.memory (makeDirectory path recursive) catalog).2 := by
  have canonical := canonical_of_require admitted
  have file_iff (place : String) : (chain (parent key)).find? catalog.isFile = some place ↔ _ :=
    tree.find?_chain_parent canonical
  have clear_iff : (chain (parent key)).find? catalog.isFile = none ↔ _ :=
    find?_chain_parent_eq_none_iff canonical
  rw [attempt_makeDirectory catalog admitted]
  by_cases orphaned : recursive = false ∧ catalog.Orphaned key
  · rw [if_pos orphaned]
    constructor <;> simp [Except.map, orphaned]
  rw [if_neg orphaned]
  by_cases file : catalog.isFile key = true
  · rw [if_pos file]
    constructor <;> simp [Except.map, orphaned, file]
  rw [if_neg file]
  rw [Bool.not_eq_true] at file
  rw [attempt_ensureDirectories tree canonical, find?_chain canonical file]
  cases found : (chain (parent key)).find? catalog.isFile with
  | some place =>
    rw [found] at file_iff clear_iff
    constructor <;> simp [Except.map, orphaned, file, ← file_iff, ← clear_iff]
  | none =>
    rw [found] at file_iff
    have paved := paved_furnish canonical file (clear_iff.mp found)
    constructor <;> simp [Except.map, orphaned, file, ← file_iff, paved]

/-- Without missing parents at most the directory itself is put. -/
theorem eq_or_put_of_makeDirectory {after : Catalog} (tree : catalog.IsSaveTree)
    (admitted : require path = .ok key)
    (makes : attempt Store.memory (makeDirectory path false) catalog = (.ok (), after)) :
    after = catalog ∨ catalog.get? key = none ∧ after = catalog.put ⟨key, .directory⟩ := by
  have canonical := canonical_of_require admitted
  rw [attempt_makeDirectory catalog admitted] at makes
  split at makes
  · cases makes
  rename_i parented
  split at makes
  · cases makes
  rw [attempt_ensureDirectories tree canonical] at makes
  split at makes
  · cases makes
    rw [tree.furnish_chain canonical fun orphaned => parented ⟨rfl, orphaned⟩]
    cases found : catalog.get? key with
    | none => exact .inr ⟨rfl, furnishAt_of_missing found⟩
    | some node => exact .inl (furnishAt_of_stored found)
  · cases makes

end Virtual

namespace Backend

open Virtual

variable {before backend : Backend} {path key : String}

/-- A walk along directories that stand only looks. -/
theorem run_forM_ensurePlace {α : Type} {places : List String} {next : Unit → Session α}
    (standing : ∀ place ∈ places, backend.catalog.get? place = some .directory) :
    (run (places.forM ensurePlace >>= next)).run backend = (run (next ())).run backend := by
  induction places with
  | nil => rfl
  | cons place places ih =>
    have here := standing place List.mem_cons_self
    have unfolded : (place :: places).forM ensurePlace >>= next =
        ensurePlace place >>= fun _ => places.forM ensurePlace >>= next := bind_assoc ..
    rw [unfolded, ensurePlace, bind_assoc, run_bind_of_looks (.get place), Store.attempt_get, here]
    exact ih fun other member => standing other (.tail _ member)

theorem run_placeDirectory {α : Type} {next : Unit → Session α} (canonical : Canonical key)
    (standing : ∀ place, place = key ∨ isBelow place key = true →
      backend.catalog.get? place = some .directory) :
    (run (placeDirectory key >>= next)).run backend = (run (next ())).run backend := by
  rw [placeDirectory, bind_assoc, run_bind_of_looks (.get key), Store.attempt_get,
    standing key (.inl rfl)]
  exact run_forM_ensurePlace fun place member => standing place ((mem_chain_iff canonical).mp member)

/-- To make a directory that stands, as all above it do, calls for no change. -/
theorem run_makeDirectory_of_standing (admitted : require path = .ok key)
    (standing : ∀ place, place = key ∨ isBelow place key = true →
      backend.catalog.get? place = some .directory) (recursive : Bool) :
    (run (perform (.makeDirectory path recursive))).run backend = pure (.ok .done, backend) := by
  have canonical := canonical_of_require admitted
  have placed : (run (placeDirectory key >>= fun _ => pure Answer.done)).run backend =
      pure (.ok .done, backend) := run_placeDirectory canonical standing
  rw [perform, makeDirectory_eq admitted]
  cases recursive with
  | true => rw [if_pos rfl, placed]
  | false =>
    have parented : ¬backend.catalog.Orphaned key := by
      rintro ⟨below, missing⟩
      rw [standing _ (.inr (canonical.isBelow_parent below))] at missing
      cases missing
    rw [if_neg Bool.false_ne_true, bind_assoc, run_bind_of_looks (find_looks _),
      attempt_find_parent _ canonical, decide_eq_false parented]
    dsimp only
    rw [Bool.not_false, if_pos rfl, placed]

theorem makesDirectory_of_runs {recursive : Bool} {after : Backend} {result : Except FsError Answer}
    (tree : before.catalog.IsSaveTree) (admitted : require path = .ok key)
    (runs : Program.Runs Host.willing ((run (perform (.makeDirectory path recursive))).run before)
      () (result, after) ()) :
    MakesDirectory key recursive before.catalog result after.catalog := by
  have ends := attempt_of_runs runs
  rw [perform, attempt_answer fun _ => Answer.done] at ends
  rcases Prod.mk.inj ends with ⟨rfl, same⟩
  rw [← same]
  exact makesDirectory tree admitted recursive

/-- Making a directory on an open store that holds a save tree, if the host refuses nothing.

It ends.  It fails just if its parent is missing and is not to be made, or else if a file is
in its place, or else if a file is above it; otherwise the directory and those above it
stand, and nothing is new but those that were missing.  So at most one entry is new if no
parents are to be made.  Once it was made, making it again succeeds on whatever host and
changes nothing. -/
theorem make_directory_exact (tree : before.catalog.IsSaveTree) (admitted : require path = .ok key) :
    (∀ recursive,
      (∃ result after, Program.Runs Host.willing
        ((run (perform (.makeDirectory path recursive))).run before) () (result, after) ()) ∧
      ∀ result after, Program.Runs Host.willing
        ((run (perform (.makeDirectory path recursive))).run before) () (result, after) () →
        MakesDirectory key recursive before.catalog result after.catalog) ∧
    (∀ after, Program.Runs Host.willing
      ((run (perform (.makeDirectory path false))).run before) () (.ok .done, after) () →
      after.catalog = before.catalog ∨
        before.catalog.get? key = none ∧ after.catalog = before.catalog.put ⟨key, .directory⟩) ∧
    ∀ recursive after, Program.Runs Host.willing
      ((run (perform (.makeDirectory path recursive))).run before) () (.ok .done, after) () →
      ∀ again, (run (perform (.makeDirectory path again))).run after = pure (.ok .done, after) := by
  refine ⟨?ends, ?single, ?again⟩
  case ends =>
    intro recursive
    rcases exists_runs_of_attempt (perform (.makeDirectory path recursive)) before with ⟨after, runs⟩
    exact ⟨⟨_, after, runs⟩, fun _ _ => makesDirectory_of_runs tree admitted⟩
  case single =>
    intro after runs
    rcases attempt_bind_eq_ok (attempt_of_runs runs) with ⟨_, between, makes, last⟩
    have same : between = after.catalog := (Prod.mk.inj last).2
    rw [← same]
    exact eq_or_put_of_makeDirectory tree admitted makes
  case again =>
    intro recursive after runs
    have paved := (makesDirectory_of_runs tree admitted runs).made rfl
    exact run_makeDirectory_of_standing admitted paved.standing

/-- Two directories are made below one that stands.  Without its parent the lower one is not
made, and once it was made it can be made again in either way. -/
theorem make_directory_exact_twice :
    ∃ before after : Backend,
      before.catalog.get? "a" = some .directory ∧ before.catalog.get? "a/b" = none ∧
      (∃ last, Program.Runs Host.willing ((run (perform (.makeDirectory "a/b/c" false))).run before) ()
        (.error (.parentMissing "a/b"), last) () ∧ last.catalog = before.catalog) ∧
      Program.Runs Host.willing ((run (perform (.makeDirectory "a/b/c" true))).run before) ()
        (.ok .done, after) () ∧
      after.catalog.get? "a/b" = some .directory ∧ after.catalog.get? "a/b/c" = some .directory ∧
      (run (perform (.makeDirectory "a/b/c" false))).run after = pure (.ok .done, after) := by
  let held : Catalog := .ofEntries [⟨"a", .directory⟩]
  have reached : Reached (.memory held) := .perform (.makeDirectory "a" false) .memory (.done _ _)
  have admitted : require "a/b/c" = .ok "a/b/c" := by decide
  rcases make_directory_exact (isSaveTree_of_reached reached) admitted with ⟨ends, _, repeats⟩
  rcases ends false with ⟨⟨refused, last, fails⟩, refuses⟩
  rcases ends true with ⟨⟨result, after, runs⟩, makes⟩
  have refusal := (refuses refused last fails).orphaned.mpr ⟨rfl, by decide⟩
  have unchanged := (refuses refused last fails).unchanged _ refusal
  have noFile : (chain (parent "a/b/c")).find? held.isFile = none := rfl
  have clear := (Catalog.find?_chain_parent_eq_none_iff (canonical_of_require admitted)).mp noFile
  have done := (makes result after runs).succeeds nofun rfl clear
  have paved := (makes result after runs).made done
  rw [refusal] at fails
  rw [done] at runs
  exact ⟨.memory held, after, rfl, rfl, ⟨last, fails, unchanged⟩, runs, paved.standing _ (.inr rfl),
    paved.standing _ (.inl rfl), repeats true after runs false⟩

end Backend

end SaveTree
