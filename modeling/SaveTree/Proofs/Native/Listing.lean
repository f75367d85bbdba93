import SaveTree.Proofs.Native.Operations
import SaveTree.Proofs.Virtual.Listing

namespace SaveTree

/-!
# Listings of two trees

A directory of the host and a directory of the store list the same children, and
both sort them by name.  A listing with all below it goes down level by level on
both sides.  Neither side comes to the bound on its levels: a path that the host
admits has too few steps for that, and a stored key is no longer than the longest.
-/

namespace Native

open Host Location Machine Program Catalog

variable {root path name : String} {place : Place} {initial machine : Machine} {catalog : Catalog}
  {steps : List String} {recursive : Bool}

/-- Both sides have the same children in the same order. -/
theorem Mirrors.children_eq {disk : Disk} (mirrors : Mirrors disk place catalog)
    (areNames : Key.AreNames steps) :
    byName (disk.children (place ++ steps)) =
      Virtual.childrenBelow (Key.stem (Key.text steps)) catalog.entries := by
  apply eq_of_byName (pairwise_byName (disk.nodup_children _)) (Virtual.ordered_childrenBelow _ _)
  rintro ⟨name, kind⟩
  rw [mem_byName_iff, mirrors.mem_children_iff areNames,
    Virtual.mem_childrenBelow_iff mirrors.tree areNames]

/-- An admitted path has fewer steps than a listing has levels. -/
theorem Fits.length_lt (fits : Fits root steps) (areSteps : AreSteps steps) :
    steps.length < deepest := by
  have size := Key.length_le_utf8ByteSize_text fun step member => (areSteps step member).nonempty
  have longer : (Key.text steps).utf8ByteSize ≤ (hostPath root (Key.text steps)).utf8ByteSize := by
    rw [hostPath]
    split
    · rename_i empty
      rw [empty]
      exact Nat.zero_le _
    · rw [join]
      split
      · rw [String.utf8ByteSize_append]
        omega
      · rw [String.utf8ByteSize_append]
        omega
  have short := fits.short
  rw [admitLength] at short
  split at short
  · cases short
  · split at short
    · cases short
    · rename_i admitted
      rw [pathLimit] at admitted
      rw [deepest]
      omega

/-- The host admits the path of every directory below a key. -/
def Within (root : String) (catalog : Catalog) (key : String) : Prop :=
  ∀ other, catalog.get? other = some .directory → key = "" ∨ Key.isBelow key other = true →
    Fits root (Key.steps other)

theorem Within.fits (within : Within root catalog (Key.text steps))
    (areLower : Key.AreNames (steps ++ [name]))
    (stored : catalog.get? (Key.text (steps ++ [name])) = some .directory) :
    Fits root (steps ++ [name]) := by
  have areNames := (Key.areNames_append_iff.mp areLower).1
  have inside := (Key.isInside_text_iff areNames (Key.canonical_text (by simp) areLower)).mpr
    ⟨name, [], areLower, rfl⟩
  have fits := within _ stored inside
  rwa [areLower.steps_text] at fits

theorem Within.lower (within : Within root catalog (Key.text steps)) (tree : catalog.IsSaveTree)
    (areLower : Key.AreNames (steps ++ [name])) :
    Within root catalog (Key.text (steps ++ [name])) := by
  intro other stored inside
  have canonical := tree.canonical stored
  have areNames := (Key.areNames_append_iff.mp areLower).1
  rcases (Key.isInside_text_iff areLower canonical).mp inside with ⟨first, rest, areAll, other_eq⟩
  rw [List.append_assoc] at areAll other_eq
  exact within other stored
    ((Key.isInside_text_iff areNames canonical).mpr ⟨name, first :: rest, areAll, other_eq⟩)

/-- The root, or a directory below it. -/
def IsDirectory (catalog : Catalog) (steps : List String) : Prop :=
  steps = [] ∨ catalog.get? (Key.text steps) = some .directory

theorem Follows.directory_at (follows : Follows root place initial machine catalog)
    (areNames : Key.AreNames steps) (directory : IsDirectory catalog steps) :
    machine.disk.kind? (place ++ steps) = some .directory := by
  by_cases top : steps = []
  · rw [top, List.append_nil]
    exact follows.directory
  · rw [follows.mirrors.kind?_eq top areNames, directory.resolve_left top]
    rfl

/-- As far as both sides have levels enough, their listings are the same. -/
theorem attempt_listLevels (levels levelsOther : Nat)
    (follows : Follows root place initial machine catalog) (areNames : Key.AreNames steps)
    (fits : Fits root steps) (directory : IsDirectory catalog steps)
    (within : recursive = true → Within root catalog (Key.text steps))
    (deep : deepest ≤ levels + steps.length)
    (deepOther : Virtual.longest catalog.entries < levelsOther + (Key.text steps).length) :
    ∃ nodes,
      Virtual.listLevels catalog.entries recursive levelsOther (Key.text steps) = some nodes ∧
      attempt Machine.serve (listLevels root recursive levels (Key.text steps)) machine =
        (.ok nodes, machine) := by
  induction levels generalizing steps levelsOther with
  | zero =>
    have shallow := fits.length_lt (areSteps_of_areNames areNames)
    omega
  | succ levels ih =>
  have areSteps := areSteps_of_areNames areNames
  have short : (Key.text steps).length ≤ Virtual.longest catalog.entries := by
    rcases directory with top | stored
    · rw [top]
      exact Nat.zero_le _
    · exact Virtual.length_le_longest stored
  cases levelsOther with
  | zero => omega
  | succ levelsOther =>
    have inner (whole : recursive = true) (name : String) (child : (name, .directory) ∈
        Virtual.childrenBelow (Key.stem (Key.text steps)) catalog.entries) :
        ∃ nodes,
          Virtual.listLevels catalog.entries recursive levelsOther
            (Virtual.childPath (Key.text steps) name) = some nodes ∧
          attempt Machine.serve
            (listLevels root recursive levels (Virtual.childPath (Key.text steps) name)) machine =
              (.ok nodes, machine) := by
      rcases (Virtual.mem_childrenBelow_iff follows.tree areNames).mp child with ⟨isName, stored⟩
      have areLower := Key.areNames_append_iff.mpr ⟨areNames, isName⟩
      have isDirectory := kind_eq_directory_iff.mp stored
      have longer := areLower.length_text_lt
      rw [Virtual.childPath_text areNames]
      exact ih levelsOther areLower ((within whole).fits areLower isDirectory) (.inr isDirectory)
        (fun whole => (within whole).lower follows.tree areLower)
        (by rw [List.length_append, List.length_singleton]; omega) (by omega)
    rcases Virtual.exists_listLevels_succ (fun path nodes =>
      attempt Machine.serve (listLevels root recursive levels path) machine = (.ok nodes, machine))
      inner with ⟨below, listsOther, nested⟩
    have lists := follows.attempt_list areSteps fits (follows.directory_at areNames directory)
    have same : (machine.disk.children (place ++ steps)).mergeSort
        (fun first second => first.1 ≤ second.1) =
          Virtual.childrenBelow (Key.stem (Key.text steps)) catalog.entries :=
      follows.mirrors.children_eq areNames
    refine ⟨_, listsOther, ?_⟩
    rw [listLevels, attempt_bind_of_ok lists, same]
    apply attempt_mapM
    rintro ⟨name, kind⟩ member
    have path_eq := Key.text_concat (fun step inside => (areSteps step inside).nonempty) name
    dsimp only
    rw [← path_eq, ← Virtual.childPath_text areNames]
    by_cases whole : recursive = true ∧ kind = .directory
    · rw [if_pos whole, if_pos whole,
        attempt_bind_of_ok (nested whole.1 name (whole.2 ▸ member))]
      rfl
    · rw [if_neg whole, if_neg whole]
      rfl

/-! ## Programs that only look -/

theorem looks_kind (root key : String) : Looks Machine.serve (kind? root key) := by
  intro machine
  rw [attempt_kind?]

theorem looks_names (path : String) : Looks Machine.serve (onHost (Host.list path)) :=
  fun _ => rfl

theorem looks_find (root path : String) : Looks Machine.serve (find root path) := by
  unfold find
  dsimp only
  split
  · exact .pure true
  · exact .bind (looks_kind root _) fun found => .pure found.isSome

theorem looks_listLevels (root : String) (recursive : Bool) (levels : Nat) (key : String) :
    Looks Machine.serve (listLevels root recursive levels key) := by
  induction levels generalizing key with
  | zero => exact .pure []
  | succ levels ih =>
    apply Looks.bind (looks_names _)
    intro found
    apply Looks.mapM
    rintro ⟨name, kind⟩ _
    dsimp only
    split
    · exact .bind (ih _) fun children => .pure _
    · exact .pure _

theorem looks_list (root path : String) (recursive : Bool) :
    Looks Machine.serve (list root path recursive) := by
  apply Looks.bind (looks_kind root _)
  intro found
  cases found with
  | none =>
    dsimp only
    split
    · exact .pure []
    · exact .throw _
  | some kind =>
    cases kind with
    | file => exact .pure []
    | directory => exact looks_listLevels root recursive deepest _

/-! ## Looking for a path and listing it -/

/-- A path that does not climb leads along admitted steps, perhaps none. -/
theorem exists_steps_of_admitted (follows : Follows root place initial machine catalog)
    (admitted : Admits root path) (stays : Key.climbs (Key.ofPath path) = false) :
    ∃ steps, Key.AreNames steps ∧ Fits root steps ∧ Key.ofPath path = Key.text steps := by
  rcases Key.exists_steps_of_stays stays with ⟨steps, areNames, key_eq⟩
  by_cases top : steps = []
  · exact ⟨[], nofun, follows.fits_root, top ▸ key_eq⟩
  · have nonempty : Key.ofPath path ≠ "" := by
      rw [key_eq]
      exact (Key.canonical_text top areNames).nonempty
    have fits := admitted _ (Key.require_eq_ok_iff.mpr ⟨rfl, nonempty, stays⟩)
    rw [key_eq, areNames.steps_text] at fits
    exact ⟨steps, areNames, fits, key_eq⟩

theorem find_inStep (follows : Follows root place initial machine catalog)
    (admitted : Admits root path) :
    InStep root place initial
      (Clear catalog (Key.ofPath path) ∧ Key.climbs (Key.ofPath path) = false)
      (attempt Machine.serve (find root path) machine)
      (attempt Store.memory (Virtual.find path) catalog) := by
  constructor
  · rcases Virtual.exists_of_find catalog path with ⟨found, finds⟩
    rw [looks_find, finds]
    exact follows
  · rintro ⟨clear, stays⟩
    rcases exists_steps_of_admitted follows admitted stays with ⟨steps, areNames, fits, key_eq⟩
    rw [key_eq] at clear
    rcases find_cases follows areNames fits key_eq with ⟨found, finds, same | ⟨blocked, _⟩⟩
    · rw [finds, same]
    · exact absurd clear blocked

theorem idle_list (catalog : Catalog) (path : String) (recursive : Bool) :
    (attempt Store.memory (Virtual.list path recursive) catalog).2 = catalog := by
  unfold Virtual.list
  dsimp only
  split
  · apply idle_bind (Store.attempt_get catalog (Key.ofPath path))
    split
    · rfl
    · rw [Virtual.attempt_listingAt]
  · rw [Virtual.attempt_listingAt]

theorem list_inStep (recursive : Bool) (follows : Follows root place initial machine catalog)
    (admitted : Admits root path) :
    InStep root place initial
      (Clear catalog (Key.ofPath path) ∧ Key.climbs (Key.ofPath path) = false ∧
        (recursive = true → Within root catalog (Key.ofPath path)))
      (attempt Machine.serve (list root path recursive) machine)
      (attempt Store.memory (Virtual.list path recursive) catalog) := by
  constructor
  · rw [looks_list, idle_list]
    exact follows
  rintro ⟨clear, stays, within⟩
  rcases exists_steps_of_admitted follows admitted stays with ⟨steps, areNames, fits, key_eq⟩
  rw [key_eq] at clear within
  have lists (directory : IsDirectory catalog steps) :
      (attempt Machine.serve (listLevels root recursive deepest (Key.text steps)) machine).1 =
        (attempt Store.memory (Virtual.listingAt (Key.text steps) recursive) catalog).1 := by
    rcases attempt_listLevels deepest (Virtual.longest catalog.entries + 2) follows areNames fits
      directory within (Nat.le_add_right _ _) (by omega) with ⟨nodes, lists, listsOther⟩
    rw [Virtual.attempt_listingAt, Virtual.listing, lists, listsOther]
    rfl
  unfold list Virtual.list
  dsimp only
  rw [key_eq]
  by_cases top : steps = []
  · subst top
    rw [Key.text_nil, attempt_bind_of_ok follows.attempt_kind_root]
    exact lists (.inl rfl)
  · have addressed : Addressed root steps := ⟨top, areNames, fits⟩
    rw [attempt_bind_of_ok (follows.attempt_kind_of_clear addressed clear),
      if_pos addressed.canonical.nonempty,
      attempt_bind_of_ok (Store.attempt_get catalog (Key.text steps))]
    cases found : catalog.get? (Key.text steps) with
    | none =>
      dsimp only [Option.map_none]
      rw [if_neg addressed.canonical.nonempty]
      rfl
    | some node =>
      cases node with
      | file content =>
        dsimp only [Option.isNone_some, Option.map_some, Node.kind]
        rw [if_neg Bool.false_ne_true, Virtual.attempt_listingAt,
          Virtual.listing_of_file follows.tree found]
        rfl
      | directory => exact lists (.inr found)

end Native
end SaveTree
