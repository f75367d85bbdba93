import Mathlib.Data.List.Nodup
import SaveTree.Proofs.Store.Looking
import SaveTree.Proofs.Text.Order
import SaveTree.Proofs.Virtual.Listing
import SaveTree.Proofs.Virtual.Walk

namespace SaveTree

/-!
# A listing shows the tree

A listing with all below it is a tree of places, and it is the part of the save tree
below the directory: every key that is stored there is shown once, under its own name
and with its own kind, and each directory holds its immediate children in the order of
the bytes of their names.

Listings are put together from places.  If each place shows its own subtree, and the
places are those right below a directory, then they show all below the directory; and a
directory shows its own subtree if its children show all below it.
-/

namespace Listed

mutual

/-- The place and all places that are listed below it. -/
def flat : Listed → List Listed
  | mk path name kind none => [mk path name kind none]
  | mk path name kind (some children) => mk path name kind (some children) :: flatAll children
termination_by structural listed => listed

/-- All places that are listed. -/
def flatAll : List Listed → List Listed
  | [] => []
  | listed :: rest => listed.flat ++ flatAll rest
termination_by structural all => all

end

theorem flatAll_eq_flatMap (nodes : List Listed) : flatAll nodes = nodes.flatMap flat := by
  induction nodes with
  | nil => rfl
  | cons listed rest ih => rw [flatAll, ih, List.flatMap_cons]

theorem map_path_flatAll (nodes : List Listed) :
    (flatAll nodes).map path = nodes.flatMap fun listed => listed.flat.map path := by
  rw [flatAll_eq_flatMap, List.map_flatMap]

theorem mem_flat_self (listed : Listed) : listed ∈ listed.flat := by
  rcases listed with ⟨path, name, kind, none | children⟩
  · exact List.mem_singleton_self _
  · exact List.mem_cons_self

/-- The place without its children. -/
def closed : Listed → Listed
  | mk path name kind _ => mk path name kind none

end Listed

namespace Catalog

open Key Listed

/-- Something is stored under the key. -/
def Stored (catalog : Catalog) (key : String) : Prop :=
  ∃ node, catalog.get? key = some node

/-- The places are the immediate children of a directory, in the strict order of the
bytes of their names. -/
structure IsLevel (catalog : Catalog) (directory : String) (nodes : List Listed) : Prop where
  increasing : nodes.Pairwise fun first second => Text.bytes first.name < Text.bytes second.name
  children : ∀ key, key ∈ nodes.map path ↔ catalog.Stored key ∧ parent key = directory

/-- The place is listed as it is stored: with the last step of its key as its name, with its
kind, and with its immediate children if it is a directory. -/
structure Describes (catalog : Catalog) (listed : Listed) : Prop where
  named : (steps listed.path).getLast? = some listed.name
  kind : (catalog.get? listed.path).map Node.kind = some listed.kind
  file : listed.kind = .file → listed.children = none
  directory : listed.kind = .directory →
    ∃ inner, listed.children = some inner ∧ catalog.IsLevel listed.path inner

/-- The places and what is listed below them is what is stored below a directory.  All keys
are below the root. -/
structure ListsTree (catalog : Catalog) (directory : String) (nodes : List Listed) : Prop where
  level : catalog.IsLevel directory nodes
  once : ((flatAll nodes).map path).Nodup
  all : ∀ key, key ∈ (flatAll nodes).map path ↔
    catalog.Stored key ∧ (directory = "" ∨ isBelow directory key = true)
  described : ∀ listed ∈ flatAll nodes, catalog.Describes listed

/-- A place shows what is stored at its steps and below. -/
structure ListsPlace (catalog : Catalog) (steps : List String) (listed : Listed) : Prop where
  here : listed.path = text steps
  once : (listed.flat.map path).Nodup
  all : ∀ key, key ∈ listed.flat.map path ↔
    catalog.Stored key ∧ ∃ rest, AreNames (steps ++ rest) ∧ key = text (steps ++ rest)
  described : ∀ other ∈ listed.flat, catalog.Describes other

variable {catalog : Catalog} {steps : List String} {key name : String} {content : Content}
  {nodes : List Listed}

/-! ## Listings from places -/

theorem ListsPlace.file (tree : catalog.IsSaveTree) (areNames : AreNames (steps ++ [name]))
    (stored : catalog.get? (text (steps ++ [name])) = some (.file content)) :
    catalog.ListsPlace (steps ++ [name]) (.mk (text (steps ++ [name])) name .file none) where
  here := rfl
  once := List.nodup_singleton _
  all := by
    intro key
    have leaf : catalog.get? (text (steps ++ [name])) ≠ some .directory := by
      rw [stored]
      nofun
    rw [flat, List.map_singleton, List.mem_singleton]
    constructor
    · rintro rfl
      exact ⟨⟨_, stored⟩, [], by rwa [List.append_nil], by rw [List.append_nil]; rfl⟩
    · rintro ⟨⟨node, found⟩, rest, areLower, rfl⟩
      by_cases whole : rest = []
      · rw [whole, List.append_nil]
        rfl
      · have beyond := tree.get?_beyond leaf (by simp) areLower (List.prefix_append _ rest)
          (by simpa using Ne.symm whole)
        rw [beyond] at found
        cases found
  described := by
    intro other member
    rw [flat, List.mem_singleton] at member
    subst member
    exact {
      named := areNames.getLast?_steps_text
      kind := congrArg (Option.map Node.kind) stored
      file := fun _ => rfl
      directory := nofun }

theorem ListsPlace.directory (tree : catalog.IsSaveTree) (areNames : AreNames (steps ++ [name]))
    (stored : catalog.get? (text (steps ++ [name])) = some .directory)
    (inner : catalog.ListsTree (text (steps ++ [name])) nodes) :
    catalog.ListsPlace (steps ++ [name])
      (.mk (text (steps ++ [name])) name .directory (some nodes)) where
  here := rfl
  once := by
    rw [flat, List.map_cons, List.nodup_cons]
    refine ⟨?_, inner.once⟩
    intro again
    have canonical := canonical_text (by simp) areNames
    rcases ((inner.all _).mp again).2 with empty | below
    · exact canonical.nonempty empty
    · exact absurd below (by rw [path, not_isBelow_self]; nofun)
  all := by
    intro key
    rw [flat, List.map_cons, List.mem_cons, inner.all]
    constructor
    · rintro (rfl | ⟨⟨node, found⟩, inside⟩)
      · exact ⟨⟨_, stored⟩, [], by rwa [List.append_nil], by rw [List.append_nil]; rfl⟩
      · rcases (isInside_text_iff areNames (tree.canonical found)).mp inside with
          ⟨first, rest, areLower, key_eq⟩
        exact ⟨⟨node, found⟩, first :: rest, areLower, key_eq⟩
    · rintro ⟨⟨node, found⟩, rest, areLower, rfl⟩
      cases rest with
      | nil =>
        rw [List.append_nil]
        exact .inl rfl
      | cons first others =>
        right
        exact ⟨⟨node, found⟩, (isInside_text_iff areNames (tree.canonical found)).mpr
          ⟨first, others, areLower, rfl⟩⟩
  described := by
    intro other member
    rw [flat, List.mem_cons] at member
    rcases member with rfl | below
    · exact {
        named := areNames.getLast?_steps_text
        kind := congrArg (Option.map Node.kind) stored
        file := nofun
        directory := fun _ => ⟨nodes, rfl, inner.level⟩ }
    · exact inner.described other below

/-- Places in the order of their names that show all steps below a directory. -/
structure Branches (catalog : Catalog) (steps : List String) (nodes : List Listed) : Prop where
  ordered : nodes.Pairwise fun first second => first.name < second.name
  names : ∀ listed ∈ nodes, AreNames [listed.name]
  places : ∀ listed ∈ nodes, catalog.ListsPlace (steps ++ [listed.name]) listed
  complete : ∀ name, AreNames [name] → catalog.Stored (text (steps ++ [name])) →
    ∃ listed ∈ nodes, listed.name = name

namespace Branches

theorem stored (branches : Branches catalog steps nodes) {listed : Listed}
    (member : listed ∈ nodes) : catalog.Stored listed.path := by
  have shown : listed.path ∈ listed.flat.map path := List.mem_map_of_mem listed.mem_flat_self
  exact (((branches.places listed member).all _).mp shown).1

theorem isLevel (branches : Branches catalog steps nodes) (tree : catalog.IsSaveTree)
    (areNames : AreNames steps) : catalog.IsLevel (text steps) nodes where
  increasing := branches.ordered.imp Text.bytes_lt
  children := by
    intro key
    rw [List.mem_map]
    constructor
    · rintro ⟨listed, member, rfl⟩
      rcases branches.stored member with ⟨node, found⟩
      refine ⟨⟨node, found⟩, (parent_eq_text_iff areNames (tree.canonical found)).mpr ?_⟩
      exact ⟨listed.name, branches.names listed member, (branches.places listed member).here⟩
    · rintro ⟨⟨node, found⟩, above⟩
      rcases (parent_eq_text_iff areNames (tree.canonical found)).mp above with ⟨name, isName, rfl⟩
      rcases branches.complete name isName ⟨node, found⟩ with ⟨listed, member, rfl⟩
      exact ⟨listed, member, (branches.places listed member).here⟩

/-- Places with different names show different keys. -/
theorem once (branches : Branches catalog steps nodes) : ((flatAll nodes).map path).Nodup := by
  rw [map_path_flatAll, List.nodup_flatMap]
  refine ⟨fun listed member => (branches.places listed member).once, ?_⟩
  apply branches.ordered.imp_of_mem
  intro first second memberFirst memberSecond less key inFirst inSecond
  have placeFirst := branches.places first memberFirst
  have placeSecond := branches.places second memberSecond
  rcases ((placeFirst.all key).mp inFirst).2 with ⟨rest, areFirst, key_eq⟩
  rcases ((placeSecond.all key).mp inSecond).2 with ⟨others, areSecond, other_eq⟩
  -- one key has one sequence of steps, and the two places differ in the step behind the directory
  have same := text_injective areFirst areSecond (key_eq.symm.trans other_eq)
  rw [List.append_assoc, List.append_assoc, List.append_cancel_left_eq] at same
  exact String.lt_irrefl _ ((List.cons.inj same).1 ▸ less)

theorem all (branches : Branches catalog steps nodes) (tree : catalog.IsSaveTree)
    (areNames : AreNames steps) (key : String) :
    key ∈ (flatAll nodes).map path ↔
      catalog.Stored key ∧ (text steps = "" ∨ isBelow (text steps) key = true) := by
  rw [map_path_flatAll, List.mem_flatMap]
  constructor
  · rintro ⟨listed, member, shown⟩
    have place := branches.places listed member
    rcases (place.all key).mp shown with ⟨⟨node, found⟩, rest, areLower, key_eq⟩
    refine ⟨⟨node, found⟩, (isInside_text_iff areNames (tree.canonical found)).mpr ?_⟩
    rw [List.append_assoc] at areLower key_eq
    exact ⟨listed.name, rest, areLower, key_eq⟩
  · rintro ⟨⟨node, found⟩, inside⟩
    rcases (isInside_text_iff areNames (tree.canonical found)).mp inside with
      ⟨name, rest, areLower, rfl⟩
    rcases tree.exists_step areLower found with ⟨top, storedTop⟩
    rw [List.append_cons] at areLower found
    have isName := (areNames_append_iff.mp (areNames_append_iff.mp areLower).1).2
    rcases branches.complete name isName ⟨top, storedTop⟩ with ⟨listed, member, rfl⟩
    have place := branches.places listed member
    rw [List.append_cons]
    exact ⟨listed, member, (place.all _).mpr ⟨⟨node, found⟩, rest, areLower, rfl⟩⟩

/-- Places that show their own subtrees show the tree below the directory they are in. -/
theorem listsTree (branches : Branches catalog steps nodes) (tree : catalog.IsSaveTree)
    (areNames : AreNames steps) : catalog.ListsTree (text steps) nodes where
  level := branches.isLevel tree areNames
  once := branches.once
  all := branches.all tree areNames
  described := by
    intro other member
    rw [flatAll_eq_flatMap, List.mem_flatMap] at member
    rcases member with ⟨listed, inside, below⟩
    exact (branches.places listed inside).described other below

end Branches

end Catalog

namespace Virtual

open Catalog Key

variable {catalog : Catalog} {steps : List String}

/-- With levels enough, a listing comes to an end and shows the tree below its directory. -/
theorem exists_listLevels_listsTree (tree : catalog.IsSaveTree) (levels : Nat)
    (areNames : AreNames steps) (short : (text steps).length ≤ longest catalog.entries)
    (deep : longest catalog.entries < levels + (text steps).length) :
    ∃ nodes, listLevels catalog.entries true levels (text steps) = some nodes ∧
      catalog.ListsTree (text steps) nodes := by
  induction levels generalizing steps with
  | zero => omega
  | succ levels ih =>
    have inner (_ : true = true) (name : String)
        (child : (name, .directory) ∈ childrenBelow (stem (text steps)) catalog.entries) :
        ∃ nodes, listLevels catalog.entries true levels (childPath (text steps) name) = some nodes ∧
          catalog.ListsTree (childPath (text steps) name) nodes := by
      rcases (mem_childrenBelow_iff tree areNames).mp child with ⟨isName, stored⟩
      have areLower := areNames_append_iff.mpr ⟨areNames, isName⟩
      have longer := areLower.length_text_lt
      rcases Option.map_eq_some_iff.mp stored with ⟨node, found, _⟩
      rw [childPath_text areNames]
      exact ih areLower (length_le_longest found) (by omega)
    rcases exists_listLevels_succ catalog.ListsTree inner with ⟨below, lists, shows⟩
    refine ⟨_, lists, Branches.listsTree ?_ tree areNames⟩
    exact {
      ordered := by
        rw [List.pairwise_map]
        exact ordered_childrenBelow _ _
      names := by
        intro listed member
        rcases List.mem_map.mp member with ⟨⟨name, kind⟩, child, rfl⟩
        exact ((mem_childrenBelow_iff tree areNames).mp child).1
      places := by
        intro listed member
        rcases List.mem_map.mp member with ⟨⟨name, kind⟩, child, rfl⟩
        rcases (mem_childrenBelow_iff tree areNames).mp child with ⟨isName, stored⟩
        have areLower := areNames_append_iff.mpr ⟨areNames, isName⟩
        rcases Option.map_eq_some_iff.mp stored with ⟨node, found, rfl⟩
        have nested := shows rfl name
        dsimp only
        rw [childPath_text areNames] at nested ⊢
        cases node with
        | file content => exact ListsPlace.file tree areLower found
        | directory => exact ListsPlace.directory tree areLower found (nested child)
      complete := by
        rintro name isName ⟨node, found⟩
        have child : (name, node.kind) ∈ childrenBelow (stem (text steps)) catalog.entries := by
          rw [mem_childrenBelow_iff tree areNames, found]
          exact ⟨isName, rfl⟩
        exact ⟨_, List.mem_map_of_mem child, rfl⟩ }

/-- A listing of one level always comes to an end, and it shows the same places without their
children. -/
theorem listing_closed {base : String} {entries : List Entry} {nodes : List Listed}
    (lists : listing base entries true = some nodes) :
    listing base entries false = some (nodes.map Listed.closed) := by
  rw [listing, listLevels] at lists ⊢
  have places : nodes.map Listed.closed = (childrenBelow (stem base) entries).map fun child =>
      .mk (childPath base child.1) child.1 child.2 none := by
    apply map_eq_map_of_mapM lists
    rintro ⟨name, kind⟩ listed shown
    dsimp only at shown
    split at shown
    · rcases Option.map_eq_some_iff.mp shown with ⟨inner, _, rfl⟩
      rfl
    · cases shown
      rfl
  rw [places]
  apply mapM_eq_some_map
  rintro ⟨name, kind⟩ _
  rfl

theorem exists_steps_of_directory (tree : catalog.IsSaveTree) {key : String}
    (directory : key = "" ∨ catalog.get? key = some .directory) :
    ∃ steps, AreNames steps ∧ key = text steps := by
  rcases directory with rfl | stored
  · exact ⟨[], nofun, rfl⟩
  · rcases (tree.canonical stored).exists_steps with ⟨steps, _, areNames, key_eq⟩
    exact ⟨steps, areNames, key_eq⟩

/-- The listing of the root or of a directory shows the tree below it. -/
theorem exists_listing_listsTree (tree : catalog.IsSaveTree) {key : String}
    (directory : key = "" ∨ catalog.get? key = some .directory) :
    ∃ nodes, listing key catalog.entries true = some nodes ∧ catalog.ListsTree key nodes := by
  have short : key.length ≤ longest catalog.entries := by
    rcases directory with rfl | stored
    · exact Nat.zero_le _
    · exact length_le_longest stored
  rcases exists_steps_of_directory tree directory with ⟨steps, areNames, rfl⟩
  exact exists_listLevels_listsTree tree _ areNames short (by omega)

variable {path : String}

/-- The root, and whatever is stored, is listed by what its key shows. -/
theorem attempt_list_of_stored {recursive : Bool} {nodes : List Listed}
    (present : ofPath path = "" ∨ catalog.Stored (ofPath path))
    (lists : listing (ofPath path) catalog.entries recursive = some nodes) :
    Program.attempt Store.memory (list path recursive) catalog = (.ok nodes, catalog) := by
  unfold list
  dsimp only
  by_cases root : ofPath path = ""
  · rw [if_neg (not_not_intro root), attempt_listingAt, lists]
    rfl
  · rcases present.resolve_left root with ⟨node, stored⟩
    rw [if_pos root, Program.attempt_bind_of_ok (Store.attempt_get catalog (ofPath path)), stored]
    dsimp only [Option.isNone_some]
    rw [if_neg Bool.false_ne_true, attempt_listingAt, lists]
    rfl

theorem attempt_list_of_missing (recursive : Bool) (below : ofPath path ≠ "")
    (missing : catalog.get? (ofPath path) = none) :
    Program.attempt Store.memory (list path recursive) catalog =
      (.error (.directoryNotFound (ofPath path)), catalog) := by
  unfold list
  dsimp only
  rw [if_pos below, Program.attempt_bind_of_ok (Store.attempt_get catalog (ofPath path)), missing]
  rfl

end Virtual

namespace Backend

open Catalog Key

/-- A listing on any open store changes nothing and answers from what is held. -/
theorem run_list (backend : Backend) (path : String) (recursive : Bool) :
    (run (Virtual.perform (.list path recursive))).run backend =
      pure ((Program.attempt Store.memory (Virtual.list path recursive) backend.catalog).1.map
        Answer.listing, backend) := by
  have looks : (Virtual.perform (.list path recursive)).Looks :=
    (Virtual.list_looks path recursive).bind fun _ => .pure _
  rw [run_of_looks looks, Virtual.perform, Program.attempt_answer]

/-- Listings of an open store that holds a save tree.  The root or a directory is listed
with exactly what is stored below it, or with its immediate children alone; a file is listed
with nothing in it, and any other path is not found.  The store stays as it is. -/
theorem list_shows_tree (backend : Backend) (tree : backend.catalog.IsSaveTree) (path : String) :
    (ofPath path = "" ∨ backend.catalog.get? (ofPath path) = some .directory →
      ∃ nodes, backend.catalog.ListsTree (ofPath path) nodes ∧
        (run (Virtual.perform (.list path true))).run backend =
          pure (.ok (.listing nodes), backend) ∧
        (run (Virtual.perform (.list path false))).run backend =
          pure (.ok (.listing (nodes.map Listed.closed)), backend)) ∧
    (∀ content recursive, backend.catalog.get? (ofPath path) = some (.file content) →
      (run (Virtual.perform (.list path recursive))).run backend =
        pure (.ok (.listing []), backend)) ∧
    (∀ recursive, ofPath path ≠ "" → backend.catalog.get? (ofPath path) = none →
      (run (Virtual.perform (.list path recursive))).run backend =
        pure (.error (.directoryNotFound (ofPath path)), backend)) := by
  refine ⟨?directory, ?file, ?missing⟩
  case directory =>
    intro directory
    have present : ofPath path = "" ∨ backend.catalog.Stored (ofPath path) :=
      directory.imp_right fun stored => ⟨_, stored⟩
    rcases Virtual.exists_listing_listsTree tree directory with ⟨nodes, lists, shows⟩
    refine ⟨nodes, shows, ?_, ?_⟩
    · rw [run_list, Virtual.attempt_list_of_stored present lists]
      rfl
    · rw [run_list, Virtual.attempt_list_of_stored present (Virtual.listing_closed lists)]
      rfl
  case file =>
    intro content recursive stored
    rw [run_list, Virtual.attempt_list_of_stored (.inr ⟨_, stored⟩)
      (Virtual.listing_of_file tree stored recursive)]
    rfl
  case missing =>
    intro recursive below missing
    rw [run_list, Virtual.attempt_list_of_missing recursive below missing]
    rfl

/-- A directory with an empty directory in it, beside a file whose name begins with its own. -/
theorem list_shows_tree_beside_namesake :
    ∃ (backend : Backend) (nodes : List Listed),
      backend.catalog.get? "a/b" = some .directory ∧
      backend.catalog.get? "a/x" = some (.file (.text "1")) ∧
      backend.catalog.get? "ab" = some (.file (.text "2")) ∧
      backend.catalog.ListsTree "a" nodes ∧
      (run (Virtual.perform (.list "./a/" true))).run backend =
        pure (.ok (.listing nodes), backend) ∧
      (run (Virtual.perform (.list "./a/" false))).run backend =
        pure (.ok (.listing (nodes.map Listed.closed)), backend) ∧
      (run (Virtual.perform (.list "ab" true))).run backend = pure (.ok (.listing []), backend) ∧
      (run (Virtual.perform (.list "../a" true))).run backend =
        pure (.error (.directoryNotFound "../a"), backend) := by
  let held : Catalog := .ofEntries [⟨"a", .directory⟩, ⟨"a/x", .file (.text "1")⟩,
    ⟨"a/b", .directory⟩, ⟨"ab", .file (.text "2")⟩]
  have reached : Reached (.memory held) :=
    .perform (.writeText "ab" "2") (.perform (.makeDirectory "a/b" false)
      (.perform (.writeText "a/x" "1") .memory (.done _ _)) (.done _ _)) (.done _ _)
  have tree := isSaveTree_of_reached reached
  have directory : ofPath "./a/" = "a" := by decide
  have file : ofPath "ab" = "ab" := by decide
  have climbing : ofPath "../a" = "../a" := by decide
  rcases (list_shows_tree _ tree "./a/").1 (.inr (directory ▸ rfl)) with
    ⟨nodes, shows, listed, listedOne⟩
  rw [directory] at shows
  refine ⟨.memory held, nodes, rfl, rfl, rfl, shows, listed, listedOne, ?_, ?_⟩
  · exact (list_shows_tree _ tree "ab").2.1 (.text "2") true (file ▸ rfl)
  · have missing := (list_shows_tree _ tree "../a").2.2 true (by decide) (climbing ▸ rfl)
    rwa [climbing] at missing

end Backend

end SaveTree
