import SaveTree.Proofs.Store.Session
import SaveTree.Proofs.Store.Tree
import SaveTree.Virtual.Tree

namespace SaveTree
namespace Virtual

open Catalog Key Path

/-!
# Operations keep the save tree

No operation ever leaves a catalog that is not a save tree, not even in the
middle: after each single call of a session the catalog is a tree, whether the
call succeeded or failed.  So nothing depends on an operation running to its end.

The walk down to a directory is where the tree grows.  Its invariant is that all
places passed so far are directories, so the next one can be put.  Everything else
either removes a place with all below it, or puts something at a place that the
walk has prepared.
-/

variable {catalog : Catalog} {key : String}

/-! ## The walk down to a directory -/

/-- Directories were put at fresh places; nothing else has changed. -/
def Extends (fresh : String → Prop) (before after : Catalog) : Prop :=
  ∀ key, after.get? key = before.get? key ∨
    (before.get? key = none ∧ after.get? key = some .directory ∧ fresh key)

theorem Extends.refl (fresh : String → Prop) (catalog : Catalog) :
    Extends fresh catalog catalog :=
  fun _ => Or.inl rfl

theorem Extends.trans {fresh : String → Prop} {before between after : Catalog}
    (first : Extends fresh before between) (second : Extends fresh between after) :
    Extends fresh before after := by
  intro key
  rcases second key with same | ⟨missing, directory, isFresh⟩
  · rw [same]
    exact first key
  · rcases first key with same | ⟨_, put, _⟩
    · exact Or.inr ⟨same ▸ missing, directory, isFresh⟩
    · rw [put] at missing
      cases missing

theorem Extends.get?_eq {fresh : String → Prop} {before after : Catalog} {node : Node}
    (extends_ : Extends fresh before after) (stored : before.get? key = some node) :
    after.get? key = some node := by
  rcases extends_ key with same | ⟨missing, _, _⟩
  · rw [same, stored]
  · rw [stored] at missing
    cases missing

/-- A directory that is put at a free place. -/
theorem extends_put {fresh : String → Prop} (missing : catalog.get? key = none) (isFresh : fresh key) :
    Extends fresh catalog (catalog.put ⟨key, .directory⟩) := by
  intro other
  rw [get?_put]
  by_cases same : other = key
  · rw [if_pos same]
    exact Or.inr ⟨same ▸ missing, rfl, same ▸ isFresh⟩
  · rw [if_neg same]
    exact Or.inl rfl

/-- One step of the walk. -/
def ensurePlace (place : String) : Session Unit := do
  match ← Session.get place with
  | some (.file _) => throw (.notADirectory place)
  | some .directory => pure ()
  | none => Session.put ⟨place, .directory⟩

theorem ensureDirectories_eq (key : String) :
    ensureDirectories key = (chain key).forM ensurePlace :=
  rfl

/-- A step from a place whose upper places are directories. -/
theorem ensurePlace_ensures {place : String} (tree : IsSaveTree catalog)
    (canonical : Canonical place)
    (rooted : ∀ above, isBelow above place = true → catalog.get? above = some .directory) :
    Session.Ensures IsSaveTree
      (fun _ after => Extends (· = place) catalog after ∧ after.get? place = some .directory)
      (ensurePlace place) catalog := by
  apply Session.Ensures.bind
  apply Session.Ensures.get tree
  cases found : catalog.get? place with
  | none =>
    have grown : IsSaveTree (catalog.put ⟨place, .directory⟩) :=
      tree.put canonical rooted (Or.inl rfl)
    apply Session.Ensures.put tree grown
    exact ⟨extends_put found rfl, by rw [get?_put, if_pos rfl]⟩
  | some node =>
    cases node with
    | file content => exact Session.Ensures.throw tree
    | directory => exact Session.Ensures.pure tree ⟨Extends.refl _ _, found⟩

/-- The walk along `rest`, when everything down to `passed` is a directory.  The
places of the walk are the beginnings of `rest` behind `passed`, and the induction
follows them name by name. -/
theorem forM_ensurePlace_ensures (passed rest : List (List Char)) (tree : IsSaveTree catalog)
    (areNames : ∀ name ∈ passed ++ rest, IsName name)
    (ready : ∀ upper, upper ≠ [] → upper <+: passed →
      catalog.get? (ofNames upper) = some .directory) :
    Session.Ensures IsSaveTree
      (fun _ after =>
        Extends (fun place => ∃ upper, upper ≠ [] ∧ upper <+: passed ++ rest ∧
          place = ofNames upper) catalog after ∧
        ∀ upper, upper ≠ [] → upper <+: passed ++ rest →
          after.get? (ofNames upper) = some .directory)
      (((beginnings rest).map fun names => ofNames (passed ++ names)).forM ensurePlace) catalog := by
  induction rest generalizing passed catalog with
  | nil =>
    rw [List.append_nil]
    exact Session.Ensures.pure tree ⟨Extends.refl _ _, ready⟩
  | cons name rest ih =>
    have places : (beginnings (name :: rest)).map (fun names => ofNames (passed ++ names)) =
        ofNames (passed ++ [name]) ::
          (beginnings rest).map (fun names => ofNames ((passed ++ [name]) ++ names)) := by
      simp [beginnings, Function.comp_def]
    have split : passed ++ name :: rest = (passed ++ [name]) ++ rest := by simp
    rw [split] at areNames ⊢
    have hereNames : ∀ other ∈ passed ++ [name], IsName other :=
      fun other member => areNames other (List.mem_append_left _ member)
    have canonical : Canonical (ofNames (passed ++ [name])) := canonical_ofNames (by simp) hereNames
    have rooted : ∀ above, isBelow above (ofNames (passed ++ [name])) = true →
        catalog.get? above = some .directory := by
      intro above below
      rcases (isBelow_ofNames_concat_iff hereNames).mp below with ⟨upper, nonempty, beginning, rfl⟩
      exact ready upper nonempty beginning
    rw [places]
    apply Session.Ensures.bind
    apply Session.Ensures.mono (ensurePlace_ensures tree canonical rooted)
    intro _ between betweenTree step
    have readyNext : ∀ upper, upper ≠ [] → upper <+: passed ++ [name] →
        between.get? (ofNames upper) = some .directory := by
      intro upper nonempty beginning
      rcases List.prefix_concat_iff.mp beginning with whole | shorter
      · rw [whole]
        exact step.2
      · exact step.1.get?_eq (ready upper nonempty shorter)
    apply Session.Ensures.mono (ih (passed ++ [name]) betweenTree areNames readyNext)
    intro _ after _ walked
    refine ⟨Extends.trans ?_ walked.1, walked.2⟩
    intro other
    rcases step.1 other with same | ⟨missing, directory, rfl⟩
    · exact Or.inl same
    · exact Or.inr ⟨missing, directory, passed ++ [name], by simp, List.prefix_append _ _, rfl⟩

/-- The walk from the root. -/
theorem ensureNames_ensures {names : List (List Char)} (tree : IsSaveTree catalog)
    (areNames : ∀ name ∈ names, IsName name) :
    Session.Ensures IsSaveTree
      (fun _ after =>
        Extends (fun place => ∃ upper, upper ≠ [] ∧ upper <+: names ∧ place = ofNames upper)
          catalog after ∧
        ∀ upper, upper ≠ [] → upper <+: names → after.get? (ofNames upper) = some .directory)
      (ensureDirectories (ofNames names)) catalog := by
  have start : ∀ upper, upper ≠ [] → upper <+: [] →
      catalog.get? (ofNames upper) = some .directory :=
    fun upper nonempty beginning => absurd (List.prefix_nil.mp beginning) nonempty
  have walk := forM_ensurePlace_ensures [] names tree areNames start
  simp only [List.nil_append] at walk
  rw [ensureDirectories_eq, chain_ofNames areNames]
  exact walk

/-- Creating the directories above a key. -/
theorem ensureParent_ensures (tree : IsSaveTree catalog) (canonical : Canonical key) :
    Session.Ensures IsSaveTree
      (fun _ after => Extends (isBelow · key = true) catalog after ∧
        ∀ above, isBelow above key = true → after.get? above = some .directory)
      (ensureDirectories (parent key)) catalog := by
  rcases canonical.exists_names with ⟨names, nonempty, areNames, rfl⟩
  rcases List.eq_nil_or_concat names with empty | ⟨initial, last, rfl⟩
  · exact absurd empty nonempty
  rw [List.concat_eq_append] at areNames ⊢
  have initialNames : ∀ name ∈ initial, IsName name :=
    fun name member => areNames name (List.mem_append_left _ member)
  have above_iff : ∀ above, isBelow above (ofNames (initial ++ [last])) = true ↔ _ :=
    fun above => isBelow_ofNames_concat_iff areNames
  rw [parent_ofNames_concat (areNames last (by simp))]
  apply Session.Ensures.mono (ensureNames_ensures tree initialNames)
  intro _ after _ walked
  constructor
  · intro other
    rcases walked.1 other with same | ⟨missing, directory, onTheWay⟩
    · exact Or.inl same
    · exact Or.inr ⟨missing, directory, (above_iff other).mpr onTheWay⟩
  · intro above below
    rcases (above_iff above).mp below with ⟨upper, upperNonempty, beginning, rfl⟩
    exact walked.2 upper upperNonempty beginning

/-- Creating a directory with those above it. -/
theorem ensureDirectories_ensures (tree : IsSaveTree catalog) (canonical : Canonical key) :
    Session.Ensures IsSaveTree (fun _ _ => True) (ensureDirectories key) catalog := by
  rcases canonical.exists_names with ⟨names, _, areNames, rfl⟩
  exact Session.Ensures.mono (ensureNames_ensures tree areNames) fun _ _ _ _ => trivial

/-! ## The operations -/

/-- Writing a file: directories are put above it, and no file becomes a
directory. -/
theorem putFile_ensures {content : Content} (tree : IsSaveTree catalog)
    (canonical : Canonical key) :
    Session.Ensures IsSaveTree
      (fun _ after => ∀ other old, catalog.get? other = some (.file old) →
        after.get? other ≠ some .directory)
      (putFile key content) catalog := by
  apply Session.Ensures.bind
  apply Session.Ensures.mono (ensureParent_ensures tree canonical)
  intro _ between betweenTree prepared
  apply Session.Ensures.bind
  apply Session.Ensures.get betweenTree
  have stores : between.get? key ≠ some .directory →
      Session.Ensures IsSaveTree
        (fun _ after => ∀ other old, catalog.get? other = some (.file old) →
          after.get? other ≠ some .directory)
        (Session.put ⟨key, .file content⟩) between := by
    intro free
    apply Session.Ensures.put betweenTree
      (betweenTree.put canonical prepared.2 (Or.inr free))
    intro other old stored
    rw [get?_put]
    by_cases same : other = key
    · rw [if_pos same]
      exact nofun
    · rw [if_neg same, prepared.1.get?_eq stored]
      exact nofun
  cases found : between.get? key with
  | none => exact stores (by rw [found]; exact nofun)
  | some node =>
    cases node with
    | file old => exact stores (by rw [found]; exact nofun)
    | directory => exact Session.Ensures.throw betweenTree

section Looking

variable {kept : Catalog → Prop} (holds : kept catalog)

include holds

theorem contentAt_ensures :
    Session.Ensures kept
      (fun content after => catalog = after ∧ catalog.get? key = some (.file content))
      (contentAt key) catalog := by
  apply Session.Ensures.bind
  apply Session.Ensures.get holds
  cases found : catalog.get? key with
  | none => exact Session.Ensures.throw holds
  | some node =>
    cases node with
    | file content => exact Session.Ensures.pure holds ⟨rfl, rfl⟩
    | directory => exact Session.Ensures.throw holds

theorem descendants_ensures :
    Session.Ensures kept (fun found after => catalog = after ∧ found = catalog.below key)
      (descendants key) catalog := by
  apply Session.Ensures.bind
  apply Session.Ensures.list holds
  exact Session.Ensures.pure holds ⟨rfl, rfl⟩

/-- A path is admitted with a canonical key, or nothing happens. -/
theorem require_ensures {path : String} :
    Session.Ensures kept
      (fun key after => catalog = after ∧ require path = .ok key ∧ Canonical key)
      (liftM (require path) : Session String) catalog :=
  Session.Ensures.lift holds fun _ admitted => ⟨rfl, admitted, canonical_of_require admitted⟩

end Looking

theorem writeFile_ensures {path : String} {content : Content} (tree : IsSaveTree catalog) :
    Session.Ensures IsSaveTree (fun _ _ => True) (writeFile path content) catalog := by
  apply Session.Ensures.bind
  apply Session.Ensures.mono (require_ensures tree)
  rintro key _ _ ⟨rfl, _, canonical⟩
  exact Session.Ensures.mono (putFile_ensures tree canonical) fun _ _ _ _ => trivial

theorem readText_ensures {path : String} (tree : IsSaveTree catalog) :
    Session.Ensures IsSaveTree (fun _ _ => True) (readText path) catalog := by
  apply Session.Ensures.bind
  apply Session.Ensures.mono (require_ensures tree)
  rintro key _ _ ⟨rfl, _⟩
  apply Session.Ensures.bind
  apply Session.Ensures.mono (contentAt_ensures tree)
  rintro content _ _ ⟨rfl, _⟩
  cases content.toText? with
  | none => exact Session.Ensures.throw tree
  | some text => exact Session.Ensures.pure tree trivial

theorem readBytes_ensures {path : String} (tree : IsSaveTree catalog) :
    Session.Ensures IsSaveTree (fun _ _ => True) (readBytes path) catalog := by
  apply Session.Ensures.bind
  apply Session.Ensures.mono (require_ensures tree)
  rintro key _ _ ⟨rfl, _⟩
  apply Session.Ensures.bind
  apply Session.Ensures.mono (contentAt_ensures tree)
  rintro content _ _ ⟨rfl, _⟩
  exact Session.Ensures.pure tree trivial

theorem find_ensures {path : String} (tree : IsSaveTree catalog) :
    Session.Ensures IsSaveTree (fun _ after => catalog = after) (find path) catalog := by
  unfold find
  dsimp only
  split
  · exact Session.Ensures.pure tree rfl
  · apply Session.Ensures.bind
    apply Session.Ensures.get tree
    exact Session.Ensures.pure tree rfl

theorem makeDirectory_ensures {path : String} {recursive : Bool} (tree : IsSaveTree catalog) :
    Session.Ensures IsSaveTree (fun _ _ => True) (makeDirectory path recursive) catalog := by
  apply Session.Ensures.bind
  apply Session.Ensures.mono (require_ensures tree)
  rintro key _ _ ⟨rfl, _, canonical⟩
  have made := ensureDirectories_ensures tree canonical
  -- what follows the look-up, whichever branch it is reached by
  have finish : ∀ {next : Option Node → Session Unit},
      (∀ content, next (some (.file content)) = throw (.conflict key)) →
      next (some .directory) = ensureDirectories key → next none = ensureDirectories key →
      Session.Ensures IsSaveTree (fun _ _ => True) (Session.get key >>= next) catalog := by
    intro next occupied present missing
    apply Session.Ensures.bind
    apply Session.Ensures.get tree
    cases catalog.get? key with
    | none => rwa [missing]
    | some node =>
      cases node with
      | directory => rwa [present]
      | file content =>
        rw [occupied]
        exact Session.Ensures.throw tree
  cases recursive with
  | true => exact finish (fun _ => rfl) rfl rfl
  | false =>
    apply Session.Ensures.bind
    apply Session.Ensures.mono (find_ensures tree)
    rintro found _ _ rfl
    cases found with
    | true => exact finish (fun _ => rfl) rfl rfl
    | false =>
      apply Session.Ensures.bind
      exact Session.Ensures.throw tree

theorem listingAt_ensures {recursive : Bool} (tree : IsSaveTree catalog) :
    Session.Ensures IsSaveTree (fun _ _ => True) (listingAt key recursive) catalog := by
  apply Session.Ensures.bind
  apply Session.Ensures.list tree
  split
  · exact Session.Ensures.pure tree trivial
  · exact Session.Ensures.throw tree

theorem list_ensures {path : String} {recursive : Bool} (tree : IsSaveTree catalog) :
    Session.Ensures IsSaveTree (fun _ _ => True) (list path recursive) catalog := by
  unfold list
  dsimp only
  split
  · apply Session.Ensures.bind
    apply Session.Ensures.get tree
    split
    · apply Session.Ensures.bind
      exact Session.Ensures.throw tree
    · exact listingAt_ensures tree
  · exact listingAt_ensures tree

theorem removeAll_ensures (tree : IsSaveTree catalog) :
    Session.Ensures IsSaveTree (fun _ _ => True) removeAll catalog := by
  apply Session.Ensures.bind
  apply Session.Ensures.list tree
  have cleared : IsSaveTree (catalog.eraseAll (catalog.entries.map Entry.path)) := by
    apply tree.eraseAll
    intro above _ other found stored _
    exact List.mem_map.mpr ⟨⟨other, found⟩, mem_entries_iff.mpr stored, rfl⟩
  exact Session.Ensures.deleteMany tree cleared trivial

/-- What is removed is a place with all below it. -/
theorem remove_ensures {path : String} {recursive : Bool} (tree : IsSaveTree catalog) :
    Session.Ensures IsSaveTree (fun _ _ => True) (remove path recursive) catalog := by
  unfold remove
  split
  · cases recursive with
    | true => exact removeAll_ensures tree
    | false =>
      apply Session.Ensures.bind
      exact Session.Ensures.throw tree
  · apply Session.Ensures.bind
    apply Session.Ensures.mono (require_ensures tree)
    rintro key _ _ ⟨rfl, _, canonical⟩
    apply Session.Ensures.bind
    apply Session.Ensures.get tree
    apply Session.Ensures.bind
    apply Session.Ensures.mono (descendants_ensures tree)
    rintro _ _ _ ⟨rfl, rfl⟩
    dsimp only
    split
    · exact Session.Ensures.pure tree trivial
    · have cleared : IsSaveTree (catalog.eraseAll
          ((catalog.below key).map Entry.path ++
            if (catalog.get? key).isSome then [key] else [])) := by
        apply tree.eraseAll
        intro above gone other found stored below
        have underKey : isBelow key other = true := by
          rcases List.mem_append.mp gone with inside | top
          · rcases List.mem_map.mp inside with ⟨entry, member, rfl⟩
            exact isBelow_trans (mem_below_iff.mp member).2 below
          · split at top
            · exact List.mem_singleton.mp top ▸ below
            · cases top
        apply List.mem_append_left
        exact List.mem_map.mpr ⟨⟨other, found⟩, mem_below_iff.mpr ⟨stored, underKey⟩, rfl⟩
      split
      · apply Session.Ensures.bind
        exact Session.Ensures.throw tree
      · exact Session.Ensures.deleteMany tree cleared trivial

/-- Copying a file makes no file a directory. -/
theorem copy_ensures {source target : String} (tree : IsSaveTree catalog) :
    Session.Ensures IsSaveTree
      (fun _ after => ∀ other old, catalog.get? other = some (.file old) →
        after.get? other ≠ some .directory)
      (copy source target) catalog := by
  apply Session.Ensures.bind
  apply Session.Ensures.mono (require_ensures tree)
  rintro source _ _ ⟨rfl, _⟩
  apply Session.Ensures.bind
  apply Session.Ensures.mono (require_ensures tree)
  rintro target _ _ ⟨rfl, _, canonical⟩
  apply Session.Ensures.bind
  apply Session.Ensures.mono (contentAt_ensures tree)
  rintro content _ _ ⟨rfl, _⟩
  exact putFile_ensures tree canonical

/-- Deleting a place that is not a directory. -/
theorem delete_ensures (tree : IsSaveTree catalog) (notDirectory : catalog.get? key ≠ some .directory) :
    Session.Ensures IsSaveTree (fun _ _ => True) (Session.delete key) catalog := by
  have cleared : IsSaveTree (catalog.eraseAll [key]) := by
    apply tree.eraseAll
    intro above gone other found stored below
    rw [List.mem_singleton.mp gone, tree.isBelow_eq_false notDirectory stored] at below
    cases below
  exact Session.Ensures.delete tree cleared trivial

/-- Moving a directory to a free place: it is copied as a whole, and then the old
one is removed as a whole. -/
theorem moveDirectory_ensures {source target : String} (tree : IsSaveTree catalog)
    (canonical : Canonical target) (different : source ≠ target)
    (notInside : isBelow source target = false) (free : catalog.below target = [])
    (isDirectory : catalog.get? source = some .directory) :
    Session.Ensures IsSaveTree (fun _ _ => True)
      (do
        ensureDirectories (parent target)
        let below ← descendants source
        Session.putMany (copied source target below)
        Session.deleteMany (below.map Entry.path ++ [source])) catalog := by
  apply Session.Ensures.bind
  apply Session.Ensures.mono (ensureParent_ensures tree canonical)
  intro _ between betweenTree prepared
  have stillFree : between.below target = [] := by
    apply below_eq_nil_iff.mpr
    intro other found stored
    rcases prepared.1 other with same | ⟨_, _, above⟩
    · exact below_eq_nil_iff.mp free other found (same ▸ stored)
    · -- a new directory is above the target and cannot be below it
      apply Bool.eq_false_iff.mpr
      intro below
      have cycle := isBelow_trans above below
      rw [not_isBelow_self] at cycle
      cases cycle
  have stillDirectory := prepared.1.get?_eq isDirectory
  apply Session.Ensures.bind
  apply Session.Ensures.mono (descendants_ensures betweenTree)
  rintro _ _ _ ⟨rfl, rfl⟩
  have copiedTree : IsSaveTree (between.putAll (copied source target (between.below source))) :=
    betweenTree.putAll_copied canonical prepared.2 stillFree
  have movedTree := betweenTree.eraseAll_copied canonical prepared.2 stillFree different notInside
    stillDirectory
  apply Session.Ensures.bind
  apply Session.Ensures.putMany betweenTree copiedTree
  exact Session.Ensures.deleteMany copiedTree movedTree trivial

theorem renameDirectory_ensures {source target : String} (tree : IsSaveTree catalog)
    (canonical : Canonical target) (different : source ≠ target)
    (isDirectory : catalog.get? source = some .directory) :
    Session.Ensures IsSaveTree (fun _ _ => True) (renameDirectory source target) catalog := by
  unfold renameDirectory
  dsimp only
  split
  · apply Session.Ensures.bind
    exact Session.Ensures.throw tree
  · rename_i outside
    have notInside : isBelow source target = false := Bool.eq_false_iff.mpr outside
    apply Session.Ensures.bind
    apply Session.Ensures.mono (descendants_ensures tree)
    rintro _ _ _ ⟨rfl, rfl⟩
    apply Session.Ensures.bind
    apply Session.Ensures.get tree
    split
    · apply Session.Ensures.bind
      exact Session.Ensures.throw tree
    · split
      · apply Session.Ensures.bind
        exact Session.Ensures.throw tree
      · rename_i unoccupied
        have free : catalog.below target = [] := by simpa using unoccupied
        exact moveDirectory_ensures tree canonical different notInside free isDirectory

/-- Moving a file copies it and then deletes the old one, which is still no
directory. -/
theorem rename_ensures {source target : String} (tree : IsSaveTree catalog) :
    Session.Ensures IsSaveTree (fun _ _ => True) (rename source target) catalog := by
  apply Session.Ensures.bind
  apply Session.Ensures.mono (require_ensures tree)
  rintro source _ _ ⟨rfl, _⟩
  apply Session.Ensures.bind
  apply Session.Ensures.mono (require_ensures tree)
  rintro target _ _ ⟨rfl, _, canonical⟩
  apply Session.Ensures.bind
  apply Session.Ensures.get tree
  cases found : catalog.get? source with
  | none => exact Session.Ensures.throw tree
  | some node =>
    dsimp only
    split
    · exact Session.Ensures.pure tree trivial
    · rename_i different
      cases node with
      | directory => exact renameDirectory_ensures tree canonical different found
      | file content =>
        apply Session.Ensures.bind
        apply Session.Ensures.mono (copy_ensures tree)
        intro _ after afterTree stays
        exact delete_ensures afterTree (stays source content found)

/-- Every operation keeps the save tree, after each single call and at its end. -/
theorem perform_ensures (tree : IsSaveTree catalog) (operation : Operation) :
    Session.Ensures IsSaveTree (fun _ _ => True) (perform operation) catalog := by
  have answering : ∀ {α : Type} {session : Session α} (answer : α → Answer),
      Session.Ensures IsSaveTree (fun _ _ => True) session catalog →
      Session.Ensures IsSaveTree (fun _ _ => True) (do return answer (← session)) catalog := by
    intro α session answer ensures
    apply Session.Ensures.bind
    apply Session.Ensures.mono ensures
    intro value after afterTree _
    exact Session.Ensures.pure afterTree trivial
  cases operation with
  | writeText path text => exact answering (fun _ => .done) (writeFile_ensures tree)
  | write path bytes => exact answering (fun _ => .done) (writeFile_ensures tree)
  | readText path => exact answering .text (readText_ensures tree)
  | read path => exact answering .bytes (readBytes_ensures tree)
  | find path =>
    exact answering .found (Session.Ensures.mono (find_ensures tree) fun _ _ _ _ => trivial)
  | makeDirectory path recursive => exact answering (fun _ => .done) (makeDirectory_ensures tree)
  | list path recursive => exact answering .listing (list_ensures tree)
  | remove path recursive => exact answering (fun _ => .done) (remove_ensures tree)
  | copy source target =>
    exact answering (fun _ => .done) (Session.Ensures.mono (copy_ensures tree) fun _ _ _ _ => trivial)
  | rename source target => exact answering (fun _ => .done) (rename_ensures tree)

end Virtual

/-! ## Whole runs -/

namespace Backend

open Catalog

/-- The stores that operations lead to from an empty store on.  The host may reply
anything, so each change of a durable store may fail; and the next operation is
performed whether this one succeeds or not. -/
inductive Reached : Backend → Prop where
  | memory : Reached (.memory .empty)
  | durable (document : String) : Reached (.durable ⟨document, .empty⟩)
  | perform (operation : Operation) {before after : Backend} {result : Except FsError Answer}
      (reached : Reached before)
      (runs : Program.Runs Host.unknown ((run (Virtual.perform operation)).run before) ()
        (result, after) ()) :
      Reached after

/-- One operation keeps the save tree, whatever it returns. -/
theorem isSaveTree_of_runs {operation : Operation} {before after : Backend}
    {result : Except FsError Answer} (tree : before.catalog.IsSaveTree)
    (runs : Program.Runs Host.unknown ((run (Virtual.perform operation)).run before) ()
      (result, after) ()) :
    after.catalog.IsSaveTree :=
  kept_of_runs (Virtual.perform_ensures tree operation) runs

theorem isSaveTree_of_reached {backend : Backend} (reached : Reached backend) :
    backend.catalog.IsSaveTree := by
  induction reached with
  | memory => exact isSaveTree_empty
  | durable document => exact isSaveTree_empty
  | perform operation _ runs ih => exact isSaveTree_of_runs ih runs

/-- In every store that is reached, the entries are what is found under their own
paths, the root is not stored, and the catalog is a save tree.  It stays one after
each single call of any further operation. -/
theorem reached_tree_invariant {backend : Backend} (reached : Reached backend) :
    (∀ entry, entry ∈ backend.catalog.entries ↔
      backend.catalog.get? entry.path = some entry.node) ∧
    backend.catalog.get? "" = none ∧
    (∀ key node, backend.catalog.get? key = some node →
      Key.Canonical key ∧
      ∀ above, Key.isBelow above key = true → backend.catalog.get? above = some .directory) ∧
    ∀ operation passed,
      Program.Passes Store.faulty (Virtual.perform operation).run backend.catalog passed →
      passed.IsSaveTree := by
  have tree := isSaveTree_of_reached reached
  refine ⟨fun entry => mem_entries_iff, ?_, ?_, ?_⟩
  · apply Option.eq_none_iff_forall_ne_some.mpr
    intro node stored
    exact (tree.canonical stored).nonempty rfl
  · intro key node stored
    exact ⟨tree.canonical stored, fun above below => tree.rooted stored below⟩
  · intro operation passed passes
    exact (Virtual.perform_ensures tree operation).program.of_passes passes

/-- Of this write only the directory above the file is committed. -/
theorem reached_tree_invariant_interrupted :
    ∃ backend, Reached backend ∧ backend.catalog.get? "a/b" = none ∧
      backend.catalog.get? "a" = some .directory ∧ Key.Canonical "a" := by
  have reached : Reached (.durable ⟨"saves", Catalog.put .empty ⟨"a", .directory⟩⟩) :=
    Reached.perform (.writeText "a/b" "x") (.durable "saves")
      (.call (show Host.unknown.turn () (.write _ _) (.ok ()) () from trivial)
        (.call (show Host.unknown.turn () (.rename _ _) (.ok ()) () from trivial)
          (.call (show Host.unknown.turn () (.write _ _) (.ok ()) () from trivial)
            (.call (show Host.unknown.turn () (.rename _ _) (.error .busy) () from trivial)
              (.done _ _)))))
  exact ⟨_, reached, rfl, rfl, ((reached_tree_invariant reached).2.2.1 "a" .directory rfl).1⟩

end Backend

end SaveTree
