import SaveTree.Host.Call
import SaveTree.Table

namespace SaveTree

/-!
# Disks

A disk is a tree of directories and files.  A place on it is the list of names
that lead there from the root, and the disk is a table of what stands at each
place.  The root is always a directory and is not listed.  Whatever is listed
stands in a directory, and every operation keeps it so.

The disks meant hold regular files and directories and nothing else, each file
under one name: there are no links and no devices.  They have room for all that
is ever written, and everyone may read and change everything on them.
-/

/-- The names that lead to a place from the root of the disk. -/
abbrev Place := List String

/-- A place is listed before another one: it leads there, or it has the smaller
name where they part. -/
def Place.precedes : Place → Place → Bool
  | [], _ => true
  | _ :: _, [] => false
  | name :: rest, other :: others =>
    if name = other then precedes rest others else name < other

namespace Host

/-- What stands at a place. -/
inductive Item where
  | file (bytes : ByteArray)
  | directory

instance : DecidableEq Item
  | .file a, .file b =>
    @decidable_of_decidable_of_iff (a = b) _ (ByteArray.instDecidableEq a b)
      ⟨congrArg Item.file, Item.file.inj⟩
  | .directory, .directory => isTrue rfl
  | .file _, .directory => isFalse nofun
  | .directory, .file _ => isFalse nofun

/-- Whether it is a file or a directory. -/
def Item.kind : Item → Kind
  | file _ => .file
  | directory => .directory

/-- A place that can hold something: the root, or a listed directory. -/
def Holds (items : Table Place Item) (place : Place) : Prop :=
  place = [] ∨ items.get? place = some .directory

instance (items : Table Place Item) (place : Place) : Decidable (Holds items place) :=
  inferInstanceAs (Decidable (_ ∨ _))

/-- Everything in the table stands in a directory. -/
def IsTree (items : Table Place Item) : Prop :=
  ∀ place ∈ items.keys, place ≠ [] ∧ Holds items place.dropLast

/-- A tree of directories and files. -/
structure Disk where
  items : Table Place Item
  isTree : IsTree items

namespace Disk

/-- A disk with nothing but its root. -/
def empty : Disk where
  items := .empty
  isTree := fun _ member => nomatch member

/-- What stands at a place. -/
def get? (disk : Disk) (place : Place) : Option Item :=
  if place = [] then some .directory else disk.items.get? place

/-- Whether a file, a directory or nothing stands at a place. -/
def kind? (disk : Disk) (place : Place) : Option Kind :=
  (disk.get? place).map Item.kind

/-- The names in a directory, with what they name. -/
def children (disk : Disk) (place : Place) : List (String × Kind) :=
  disk.items.rows.filterMap fun (other, item) =>
    if other.dropLast = place then other.getLast?.map fun name => (name, item.kind) else none

/-- Everything strictly below a place.  A directory comes right before what it
holds, and the names in a directory are sorted. -/
def below (disk : Disk) (place : Place) : List (Place × Item) :=
  let found := disk.items.rows.filter fun (other, _) => place.isPrefixOf other && other ≠ place
  found.mergeSort fun a b => Place.precedes a.1 b.1

theorem keys_insert {items : Table Place Item} {place other : Place} {item : Item}
    (member : other ∈ (items.insert place item).keys) : other = place ∨ other ∈ items.keys := by
  rcases List.mem_cons.mp member with same | later
  · exact Or.inl same
  · obtain ⟨row, inside, same⟩ := List.mem_map.mp later
    exact Or.inr (same ▸ List.mem_map_of_mem (List.mem_filter.mp inside).1)

theorem keys_filter {items : Table Place Item} {keep : Place → Bool} {place : Place}
    (member : place ∈ (items.filter keep).keys) : place ∈ items.keys ∧ keep place = true := by
  obtain ⟨row, inside, same⟩ := List.mem_map.mp member
  have parts := List.mem_filter.mp inside
  exact ⟨same ▸ List.mem_map_of_mem parts.1, same ▸ parts.2⟩

theorem dropLast_ne_self {place : Place} (nonempty : place ≠ []) : place.dropLast ≠ place := by
  intro same
  have shorter := congrArg List.length same
  have positive := List.length_pos_iff.mpr nonempty
  rw [List.length_dropLast] at shorter
  omega

/-- A new item keeps the tree, if it stands in a directory and takes the place
of no directory that holds something. -/
theorem isTree_insert {items : Table Place Item} (tree : IsTree items) {place : Place}
    {item : Item} (nonempty : place ≠ []) (parent : Holds items place.dropLast)
    (free : items.get? place ≠ some .directory) : IsTree (items.insert place item) := by
  intro other member
  have keep : ∀ above, above ≠ place → Holds items above → Holds (items.insert place item) above := by
    intro above different holds
    rcases holds with root | listed
    · exact Or.inl root
    · exact Or.inr (by rw [Table.get?_insert, if_neg different, listed])
  rcases keys_insert member with same | old
  · subst same
    exact ⟨nonempty, keep _ (dropLast_ne_self nonempty) parent⟩
  · have before := tree other old
    refine ⟨before.1, keep _ ?_ before.2⟩
    intro same
    rcases before.2 with root | listed
    · exact nonempty (same ▸ root)
    · exact free (same ▸ listed)

/-- Puts a file at a place in a directory, unless a directory is there. -/
def putFile (disk : Disk) (place : Place) (bytes : ByteArray) : Disk :=
  if fits : place ≠ [] ∧ Holds disk.items place.dropLast ∧
      disk.items.get? place ≠ some .directory then
    ⟨disk.items.insert place (.file bytes), isTree_insert disk.isTree fits.1 fits.2.1 fits.2.2⟩
  else disk

/-- Makes a directory at a free place in a directory. -/
def makeDirectory (disk : Disk) (place : Place) : Disk :=
  if fits : place ≠ [] ∧ Holds disk.items place.dropLast ∧ disk.items.get? place = none then
    ⟨disk.items.insert place .directory,
      isTree_insert disk.isTree fits.1 fits.2.1 (by rw [fits.2.2]; exact nofun)⟩
  else disk

/-- What is left of a tree when everything from a place on is gone. -/
theorem isTree_filter {items : Table Place Item} (tree : IsTree items) (place : Place) :
    IsTree (items.filter fun other => !place.isPrefixOf other) := by
  intro other member
  have parts := keys_filter member
  have before := tree other parts.1
  refine ⟨before.1, ?_⟩
  rcases before.2 with root | listed
  · exact Or.inl root
  · refine Or.inr ?_
    rw [Table.get?_filter, if_pos, listed]
    simp only [Bool.not_eq_eq_eq_not, Bool.not_true, ← Bool.not_eq_true,
      List.isPrefixOf_iff_prefix] at parts ⊢
    exact fun above => parts.2 (above.trans (List.dropLast_prefix other))

/-- Takes out what stands at a place and below it. -/
def remove (disk : Disk) (place : Place) : Disk where
  items := disk.items.filter fun other => !place.isPrefixOf other
  isTree := isTree_filter disk.isTree place

/-- Where a place is found after `source` was moved to `target`. -/
def moved (source target place : Place) : Place :=
  if source.isPrefixOf place then target ++ place.drop source.length else place

theorem moved_inside {source target place : Place} (inside : source <+: place) :
    moved source target place = target ++ place.drop source.length := by
  rw [moved, if_pos (List.isPrefixOf_iff_prefix.mpr inside)]

theorem moved_outside {source target place : Place} (outside : ¬ source <+: place) :
    moved source target place = place := by
  rw [moved, if_neg (fun inside => outside (List.isPrefixOf_iff_prefix.mp inside))]

theorem target_above_moved {source target place : Place} (inside : source <+: place) :
    target <+: moved source target place := by
  rw [moved_inside inside]
  exact List.prefix_append target _

/-- Places outside the target stay apart when the source is moved there. -/
theorem moved_apart {source target : Place} {place other : Place}
    (free : ¬ target <+: place) (freeOther : ¬ target <+: other)
    (same : moved source target place = moved source target other) : place = other := by
  by_cases inside : source <+: place <;> by_cases insideOther : source <+: other
  · rw [moved_inside inside, moved_inside insideOther] at same
    obtain ⟨rest, rfl⟩ := inside
    obtain ⟨restOther, rfl⟩ := insideOther
    simpa using same
  · rw [moved_outside insideOther] at same
    exact absurd (same ▸ target_above_moved inside) freeOther
  · rw [moved_outside inside] at same
    exact absurd (same ▸ target_above_moved insideOther) free
  · rwa [moved_outside inside, moved_outside insideOther] at same

/-- Moving takes a directory along with what it holds. -/
theorem moved_dropLast (source target : Place) {place : Place} (different : place ≠ source)
    (nonempty : place ≠ []) :
    moved source target place.dropLast = (moved source target place).dropLast := by
  by_cases inside : source <+: place
  · obtain ⟨rest, rfl⟩ := inside
    have some_rest : rest ≠ [] := by
      intro empty
      exact different (by simp [empty])
    rw [List.dropLast_append_of_ne_nil some_rest,
      moved_inside (List.prefix_append source _), moved_inside (List.prefix_append source _)]
    simp [List.dropLast_append_of_ne_nil some_rest]
  · have outside : ¬ source <+: place.dropLast :=
      fun above => inside (above.trans (List.dropLast_prefix place))
    rw [moved_outside inside, moved_outside outside]

/-- A moved tree is a tree, if the target stands in a directory and is not below
the source. -/
theorem isTree_mapKeys {items : Table Place Item} (tree : IsTree items) {source target : Place}
    (apart : ∀ k ∈ items.keys, ∀ k' ∈ items.keys,
      moved source target k = moved source target k' → k = k')
    (nonempty : target ≠ []) (parent : Holds items target.dropLast)
    (outside : ¬ source <+: target) :
    IsTree (items.mapKeys (moved source target) apart) := by
  intro new member
  obtain ⟨row, inside, same⟩ := List.mem_map.mp member
  obtain ⟨old, listed, renamed⟩ := List.mem_map.mp inside
  have place_eq : new = moved source target old.1 := by rw [← same, ← renamed]
  subst place_eq
  have before := tree old.1 (List.mem_map_of_mem listed)
  have keep : ∀ above, moved source target above = [] ∨ ¬ above = [] → Holds items above →
      Holds (items.mapKeys (moved source target) apart) (moved source target above) := by
    intro above rooted holds
    rcases rooted with root | nonroot
    · exact Or.inl root
    · rcases holds with root | found
      · exact absurd root nonroot
      · exact Or.inr (items.get?_mapKeys (moved source target) apart found)
  by_cases top : old.1 = source
  · have at_target : moved source target old.1 = target := by
      rw [top, moved_inside (List.prefix_refl source)]
      simp
    rw [at_target]
    refine ⟨nonempty, ?_⟩
    have stays : moved source target target.dropLast = target.dropLast :=
      moved_outside fun above => outside (above.trans (List.dropLast_prefix target))
    rw [← stays]
    refine keep _ ?_ parent
    by_cases root : target.dropLast = []
    · exact Or.inl (by rw [stays, root])
    · exact Or.inr root
  · have parent_eq := moved_dropLast source target top before.1
    refine ⟨?_, ?_⟩
    · intro gone
      by_cases within : source <+: old.1
      · exact nonempty (List.prefix_nil.mp (gone ▸ target_above_moved within))
      · exact before.1 (by rwa [moved_outside within] at gone)
    · rw [← parent_eq]
      refine keep _ ?_ before.2
      by_cases root : old.1.dropLast = []
      · by_cases within : source <+: []
        · have source_nil := List.prefix_nil.mp within
          exact absurd (source_nil ▸ List.nil_prefix) outside
        · exact Or.inl (by rw [root, moved_outside within])
      · exact Or.inr root

/-- Moves what stands at `source` to `target`, a place in a directory.  What
stood at the target is gone.  Neither place may be inside the other. -/
def move (disk : Disk) (source target : Place) : Disk :=
  let cleared := disk.remove target
  if fits : target ≠ [] ∧ Holds cleared.items target.dropLast ∧
      ¬ source <+: target then
    ⟨cleared.items.mapKeys (moved source target) fun place member other memberOther =>
        moved_apart (free member) (free memberOther),
      isTree_mapKeys cleared.isTree _ fits.1 fits.2.1 fits.2.2⟩
  else disk
where
  free {disk : Disk} {target place : Place} (member : place ∈ (disk.remove target).items.keys) :
      ¬ target <+: place := by
    have kept := (keys_filter member).2
    simp only [Bool.not_eq_eq_eq_not, Bool.not_true, ← Bool.not_eq_true,
      List.isPrefixOf_iff_prefix] at kept
    exact kept

end Disk

end Host
end SaveTree
