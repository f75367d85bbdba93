import SaveTree.Proofs.Key.Canonical
import SaveTree.Proofs.Store.Catalog

namespace SaveTree
namespace Catalog

/-!
# Catalogs that are save trees

A store knows nothing of directories, so being a tree is a property of what it
holds: every key is canonical, and everything above a stored key is a stored
directory.  The root is above all keys and is never stored.

This module says which changes of a catalog keep it a tree: putting an entry below
directories, taking out places together with all below them, and putting a copy
of a directory with all below it at a free place.
-/

/-- Every key is canonical, and whatever is above a key is a directory. -/
structure IsSaveTree (catalog : Catalog) : Prop where
  canonical : ∀ {key : String} {node : Node}, catalog.get? key = some node → Key.Canonical key
  rooted : ∀ {key above : String} {node : Node}, catalog.get? key = some node →
    Key.isBelow above key = true → catalog.get? above = some .directory

variable {catalog : Catalog} {key : String} {node : Node}

theorem isSaveTree_empty : IsSaveTree .empty where
  canonical := nofun
  rooted := nofun

/-- Nothing is stored below a place that is not a directory. -/
theorem IsSaveTree.isBelow_eq_false (tree : IsSaveTree catalog) {other : String}
    (notDirectory : catalog.get? key ≠ some .directory) (stored : catalog.get? other = some node) :
    Key.isBelow key other = false := by
  apply Bool.eq_false_iff.mpr
  intro below
  exact notDirectory (tree.rooted stored below)

/-- An entry below directories keeps the tree, if it takes the place of no
directory or is one itself. -/
theorem IsSaveTree.put (tree : IsSaveTree catalog) (canonical : Key.Canonical key)
    (rooted : ∀ above, Key.isBelow above key = true → catalog.get? above = some .directory)
    (fits : node = .directory ∨ catalog.get? key ≠ some .directory) :
    IsSaveTree (catalog.put ⟨key, node⟩) where
  canonical := by
    intro other found stored
    rw [get?_put] at stored
    by_cases same : other = key
    · exact same ▸ canonical
    · rw [if_neg same] at stored
      exact tree.canonical stored
  rooted := by
    intro other above found stored below
    rw [get?_put] at stored ⊢
    by_cases same : other = key
    · subst same
      have different : above ≠ other := by
        intro equal
        rw [equal, Key.not_isBelow_self] at below
        cases below
      rw [if_neg different]
      exact rooted above below
    · rw [if_neg same] at stored
      have directory := tree.rooted stored below
      by_cases replaced : above = key
      · rw [if_pos replaced]
        subst replaced
        rcases fits with isDirectory | free
        · exact congrArg some isDirectory
        · exact absurd directory free
      · rw [if_neg replaced]
        exact directory

/-- Taking out places with all that is stored below them leaves a tree. -/
theorem IsSaveTree.eraseAll (tree : IsSaveTree catalog) {paths : List String}
    (closed : ∀ above ∈ paths, ∀ other found, catalog.get? other = some found →
      Key.isBelow above other = true → other ∈ paths) :
    IsSaveTree (catalog.eraseAll paths) := by
  have kept : ∀ {other found}, (catalog.eraseAll paths).get? other = some found →
      other ∉ paths ∧ catalog.get? other = some found := by
    intro other found stored
    rw [get?_eraseAll] at stored
    by_cases gone : other ∈ paths
    · rw [if_pos gone] at stored
      cases stored
    · rw [if_neg gone] at stored
      exact ⟨gone, stored⟩
  constructor
  · intro other found stored
    exact tree.canonical (kept stored).2
  · intro other above found stored below
    have before := kept stored
    rw [get?_eraseAll, if_neg]
    · exact tree.rooted before.2 below
    · intro gone
      exact before.1 (closed above gone other found before.2 below)

/-! ## A directory that is put somewhere else -/

/-- What lies below a directory, as entries below another key. -/
def copied (source target : String) (below : List Entry) : List Entry :=
  ⟨target, .directory⟩ ::
    below.map fun entry => ⟨Key.rebase source target entry.path, entry.node⟩

/-- Everything stored strictly below a key. -/
def below (catalog : Catalog) (key : String) : List Entry :=
  catalog.entries.filter fun entry => Key.isBelow key entry.path

theorem mem_below_iff {entry : Entry} :
    entry ∈ catalog.below key ↔
      catalog.get? entry.path = some entry.node ∧ Key.isBelow key entry.path = true := by
  rw [Catalog.below, List.mem_filter, mem_entries_iff]

variable {source target : String}

theorem below_eq_nil_iff :
    catalog.below key = [] ↔
      ∀ other found, catalog.get? other = some found → Key.isBelow key other = false := by
  rw [Catalog.below, List.filter_eq_nil_iff]
  constructor
  · intro none other found stored
    exact Bool.eq_false_iff.mpr (none ⟨other, found⟩ (mem_entries_iff.mpr stored))
  · intro none entry member
    exact Bool.eq_false_iff.mp (none entry.path entry.node (mem_entries_iff.mp member))

/-- Different keys below the source are put at different keys. -/
theorem rebase_injective {left right : String} (leftBelow : Key.isBelow source left = true)
    (rightBelow : Key.isBelow source right = true)
    (same : Key.rebase source target left = Key.rebase source target right) : left = right := by
  rcases Key.isBelow_iff.mp leftBelow with ⟨leftRest, left_eq⟩
  rcases Key.isBelow_iff.mp rightBelow with ⟨rightRest, right_eq⟩
  have texts := congrArg String.toList same
  simp only [Key.rebase, String.toList_ofList, left_eq, right_eq, List.drop_left,
    List.append_cancel_left_eq] at texts
  apply String.toList_inj.mp
  rw [left_eq, right_eq, texts]

theorem isBelow_rebase (below : Key.isBelow source key = true) :
    Key.isBelow target (Key.rebase source target key) = true := by
  rcases Key.isBelow_iff.mp below with ⟨rest, equal⟩
  apply Key.isBelow_iff.mpr
  exact ⟨rest, by rw [Key.rebase, String.toList_ofList, equal, List.drop_left]⟩

theorem ne_of_isBelow {above : String} (below : Key.isBelow above key = true) : key ≠ above := by
  intro same
  rw [same, Key.not_isBelow_self] at below
  cases below

/-- The target of a copy is a directory. -/
theorem get?_copied_target :
    (catalog.putAll (copied source target (catalog.below source))).get? target =
      some .directory := by
  apply get?_putAll_of_agree ⟨_, List.mem_cons_self, rfl⟩
  intro entry member same
  rcases List.mem_cons.mp member with first | later
  · rw [first]
  · rcases List.mem_map.mp later with ⟨old, inside, rfl⟩
    exact absurd same (ne_of_isBelow (isBelow_rebase (mem_below_iff.mp inside).2))

/-- What is stored below the source is copied. -/
theorem get?_copied_rebase (stored : catalog.get? key = some node)
    (inside : Key.isBelow source key = true) :
    (catalog.putAll (copied source target (catalog.below source))).get?
      (Key.rebase source target key) = some node := by
  have member : (⟨key, node⟩ : Entry) ∈ catalog.below source := mem_below_iff.mpr ⟨stored, inside⟩
  apply get?_putAll_of_agree
  · exact ⟨_, List.mem_cons_of_mem _ (List.mem_map_of_mem member), rfl⟩
  · intro entry listed same
    rcases List.mem_cons.mp listed with first | later
    · rw [first] at same
      exact absurd same.symm (ne_of_isBelow (isBelow_rebase inside))
    · rcases List.mem_map.mp later with ⟨old, found, rfl⟩
      have parts := mem_below_iff.mp found
      have path_eq : old.path = key := rebase_injective parts.2 inside same
      rw [path_eq, stored] at parts
      exact (Option.some.inj parts.1).symm

/-- A key that nothing is copied to keeps what it had. -/
theorem get?_copied_of_not_mem (different : key ≠ target)
    (absent : ∀ entry ∈ catalog.below source, Key.rebase source target entry.path ≠ key) :
    (catalog.putAll (copied source target (catalog.below source))).get? key = catalog.get? key := by
  apply get?_putAll_of_not_mem
  intro entry member
  rcases List.mem_cons.mp member with first | later
  · rw [first]
    exact different.symm
  · rcases List.mem_map.mp later with ⟨old, found, rfl⟩
    exact absent old found

/-- Outside the target nothing changes. -/
theorem get?_copied_outside (different : key ≠ target) (outside : Key.isBelow target key = false) :
    (catalog.putAll (copied source target (catalog.below source))).get? key = catalog.get? key := by
  apply get?_copied_of_not_mem different
  intro entry member same
  have below : Key.isBelow target (Key.rebase source target entry.path) = true :=
    isBelow_rebase (mem_below_iff.mp member).2
  rw [same, outside] at below
  cases below

/-- What is stored after a copy was stored before, or is the target or a copy. -/
theorem get?_copied_cases (free : catalog.below target = [])
    (stored : (catalog.putAll (copied source target (catalog.below source))).get? key = some node) :
    (key = target ∧ node = .directory) ∨
    (∃ old, Key.isBelow source old = true ∧ catalog.get? old = some node ∧
      key = Key.rebase source target old) ∨
    (key ≠ target ∧ Key.isBelow target key = false ∧ catalog.get? key = some node) := by
  by_cases atTarget : key = target
  · rw [atTarget, get?_copied_target] at stored
    exact Or.inl ⟨atTarget, (Option.some.inj stored).symm⟩
  · refine Or.inr ?_
    by_cases listed : ∃ entry ∈ catalog.below source, Key.rebase source target entry.path = key
    · rcases listed with ⟨entry, member, same⟩
      have parts := mem_below_iff.mp member
      rw [← same, get?_copied_rebase parts.1 parts.2] at stored
      exact Or.inl ⟨entry.path, parts.2, stored ▸ parts.1, same.symm⟩
    · rw [get?_copied_of_not_mem atTarget fun entry member same => listed ⟨entry, member, same⟩]
        at stored
      exact Or.inr ⟨atTarget, below_eq_nil_iff.mp free key node stored, stored⟩

/-- A copy of a directory at a free place below directories keeps the tree. -/
theorem IsSaveTree.putAll_copied (tree : IsSaveTree catalog) (canonical : Key.Canonical target)
    (rooted : ∀ above, Key.isBelow above target = true → catalog.get? above = some .directory)
    (free : catalog.below target = []) :
    IsSaveTree (catalog.putAll (copied source target (catalog.below source))) := by
  have stays : ∀ {above}, catalog.get? above = some .directory →
      (catalog.putAll (copied source target (catalog.below source))).get? above =
        some .directory := by
    intro above directory
    by_cases same : above = target
    · rw [same, get?_copied_target]
    · rw [get?_copied_outside same (below_eq_nil_iff.mp free above _ directory), directory]
  constructor
  · intro key node stored
    rcases get?_copied_cases free stored with ⟨rfl, _⟩ | ⟨old, inside, found, rfl⟩ | ⟨_, _, found⟩
    · exact canonical
    · exact ((tree.canonical found).rebase canonical inside).1
    · exact tree.canonical found
  · intro key above node stored below
    rcases get?_copied_cases free stored with ⟨rfl, _⟩ | ⟨old, inside, found, rfl⟩ | ⟨_, _, found⟩
    · exact stays (rooted above below)
    · -- a key above a copy is above the target, the target, or itself a copy
      rcases Key.isBelow_or_isBelow below (isBelow_rebase inside) with same | upper | lower
      · rw [same, get?_copied_target]
      · exact stays (rooted above upper)
      · rcases Key.isBelow_iff.mp lower with ⟨rest, above_eq⟩
        rcases Key.isBelow_iff.mp below with ⟨tail, key_eq⟩
        rcases Key.isBelow_iff.mp inside with ⟨names, old_eq⟩
        have above_is : above = Key.rebase source target
            (String.ofList (source.toList ++ '/' :: rest)) := by
          apply String.toList_inj.mp
          simp only [Key.rebase, String.toList_ofList, List.drop_left, above_eq]
        have names_eq : names = rest ++ '/' :: tail := by
          simpa [Key.rebase, old_eq, above_eq] using key_eq
        have middleBelow : Key.isBelow source (String.ofList (source.toList ++ '/' :: rest)) = true :=
          Key.isBelow_iff.mpr ⟨rest, String.toList_ofList⟩
        have middleAbove : Key.isBelow (String.ofList (source.toList ++ '/' :: rest)) old = true := by
          apply Key.isBelow_iff.mpr
          exact ⟨tail, by rw [old_eq, names_eq, String.toList_ofList]; simp⟩
        rw [above_is]
        exact get?_copied_rebase (tree.rooted found middleAbove) middleBelow
    · exact stays (tree.rooted found below)

/-- Taking the source out after the copy leaves a tree, if neither place is below
the other.  The copies stay: none of them is below the source. -/
theorem IsSaveTree.eraseAll_copied (tree : IsSaveTree catalog) (canonical : Key.Canonical target)
    (rooted : ∀ above, Key.isBelow above target = true → catalog.get? above = some .directory)
    (free : catalog.below target = []) (different : source ≠ target)
    (notInside : Key.isBelow source target = false)
    (stored : catalog.get? source = some node) :
    IsSaveTree ((catalog.putAll (copied source target (catalog.below source))).eraseAll
      ((catalog.below source).map Entry.path ++ [source])) := by
  apply (tree.putAll_copied canonical rooted free).eraseAll
  intro above gone other found listed below
  have underSource : Key.isBelow source other = true := by
    rcases List.mem_append.mp gone with inside | top
    · rcases List.mem_map.mp inside with ⟨entry, member, rfl⟩
      exact Key.isBelow_trans (mem_below_iff.mp member).2 below
    · exact List.mem_singleton.mp top ▸ below
  rcases get?_copied_cases free listed with ⟨rfl, _⟩ | ⟨old, inside, _, rfl⟩ | ⟨_, _, before⟩
  · rw [notInside] at underSource
    cases underSource
  · rcases Key.isBelow_or_isBelow underSource (isBelow_rebase inside) with same | upper | lower
    · exact absurd same different
    · rw [notInside] at upper
      cases upper
    · rw [below_eq_nil_iff.mp free source node stored] at lower
      cases lower
  · apply List.mem_append_left
    exact List.mem_map.mpr ⟨⟨other, found⟩, mem_below_iff.mpr ⟨before, underSource⟩, rfl⟩

end Catalog
end SaveTree
