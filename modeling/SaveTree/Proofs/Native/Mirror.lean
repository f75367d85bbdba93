import SaveTree.Proofs.Native.Reach
import SaveTree.Proofs.Store.Subtree
import SaveTree.Proofs.Virtual.Walk

namespace SaveTree

/-!
# A directory that mirrors a catalog

A subtree of a disk and a catalog can be the same tree: what stands under the
steps of a key is what is stored under the key.  This module says what the calls
of a save tree do on such a machine: a look sees what is stored, and a change
leaves a machine that mirrors the changed catalog.

The root stays where it was, because nothing outside its subtree changes and the
walk to it did not go through the subtree when that was empty.
-/

open Host Location Machine Program Catalog

/-- A node as it stands on a disk. -/
def Node.item : Node → Item
  | .file content => .file content.toBytes
  | .directory => .directory

theorem Node.kind_item (node : Node) : node.item.kind = node.kind := by
  cases node <;> rfl

namespace Native

variable {root name : String} {place other : Place} {initial machine : Machine} {catalog : Catalog}
  {steps upper : List String} {node : Node} {content : Content}

/-- The subtree at a place of a disk is the tree of a catalog: the same keys with
the same kinds and the same bytes. -/
structure Mirrors (disk : Disk) (place : Place) (catalog : Catalog) : Prop where
  /-- The keys of the catalog are those of a tree. -/
  tree : catalog.IsSaveTree
  /-- What stands under some names is what is stored under their key. -/
  stands : ∀ steps, steps ≠ [] → Key.AreNames steps →
    disk.get? (place ++ steps) = (catalog.get? (Key.text steps)).map Node.item
  /-- Whatever stands below the place stands under names. -/
  named : ∀ steps item, disk.get? (place ++ steps) = some item → Key.AreNames steps

namespace Mirrors

variable {disk : Disk} (mirrors : Mirrors disk place catalog)

include mirrors

theorem kind?_eq (nonempty : steps ≠ []) (areNames : Key.AreNames steps) :
    disk.kind? (place ++ steps) = (catalog.get? (Key.text steps)).map Node.kind := by
  have same : Item.kind ∘ Node.item = Node.kind := funext Node.kind_item
  rw [Disk.kind?, mirrors.stands steps nonempty areNames, Option.map_map, same]

/-- A directory lists what is stored right below it. -/
theorem mem_children_iff {kind : Kind} (areNames : Key.AreNames steps) :
    (name, kind) ∈ disk.children (place ++ steps) ↔
      Key.AreNames [name] ∧
        (catalog.get? (Key.text (steps ++ [name]))).map Node.kind = some kind := by
  rw [Disk.mem_children_iff, List.append_assoc]
  constructor
  · intro standing
    rcases Option.map_eq_some_iff.mp standing with ⟨item, found, _⟩
    have areLower := mirrors.named (steps ++ [name]) item found
    rw [mirrors.kind?_eq (by simp) areLower] at standing
    exact ⟨(Key.areNames_append_iff.mp areLower).2, standing⟩
  · rintro ⟨isName, stored⟩
    rwa [mirrors.kind?_eq (by simp) (Key.areNames_append_iff.mpr ⟨areNames, isName⟩)]

theorem mem_children_root_iff {kind : Kind} :
    (name, kind) ∈ disk.children place ↔
      Key.AreNames [name] ∧ (catalog.get? name).map Node.kind = some kind := by
  have areNone : Key.AreNames [] := nofun
  rw [← List.append_nil place, mirrors.mem_children_iff areNone, List.nil_append, Key.text_singleton]

theorem children_eq_nil_iff (areNames : Key.AreNames steps) (nonempty : steps ≠ []) :
    disk.children (place ++ steps) = [] ↔ catalog.below (Key.text steps) = [] := by
  rw [mirrors.tree.below_eq_nil_iff_children areNames nonempty, List.eq_nil_iff_forall_not_mem]
  constructor
  · intro empty name isName
    apply Option.eq_none_iff_forall_ne_some.mpr
    intro node stored
    apply empty (name, node.kind)
    rw [mirrors.mem_children_iff areNames, stored]
    exact ⟨isName, rfl⟩
  · rintro free ⟨name, kind⟩ member
    rcases (mirrors.mem_children_iff areNames).mp member with ⟨isName, stored⟩
    rw [free name isName] at stored
    cases stored

end Mirrors

/-- The root is a directory with nothing in it. -/
structure Vacant (machine : Machine) (root : String) (place : Place) : Prop where
  begins : machine.disk.kind? machine.here = some .directory
  located : machine.locate root = .ok (place, .directory)
  empty : ∀ rest, rest ≠ [] → machine.disk.get? (place ++ rest) = none

/-- A place that is not strictly below another one. -/
def Outside (place other : Place) : Prop :=
  ¬ place <+: other ∨ other = place

theorem Outside.not_prefix_append (outside : Outside place other) (nonempty : steps ≠ []) :
    ¬ place ++ steps <+: other := by
  rintro ⟨rest, rfl⟩
  rcases outside with apart | same
  · exact apart (List.append_assoc _ _ _ ▸ List.prefix_append _ _)
  · rw [List.append_assoc, List.append_right_eq_self] at same
    exact nonempty (List.append_eq_nil_iff.mp same).1

/-- A machine that has come from one with an empty root, and mirrors a catalog
there.  What stands in the root itself has an admitted path. -/
structure Follows (root : String) (place : Place) (initial machine : Machine) (catalog : Catalog) :
    Prop where
  vacant : Vacant initial root place
  here : machine.here = initial.here
  outside : ∀ other, Outside place other → machine.disk.get? other = initial.disk.get? other
  mirrors : Mirrors machine.disk place catalog
  shallow : ∀ name node, Key.AreNames [name] → catalog.get? (Key.text [name]) = some node →
    Fits root [name]

/-- Steps of a key that the host admits. -/
structure Addressed (root : String) (steps : List String) : Prop where
  nonempty : steps ≠ []
  areNames : Key.AreNames steps
  fits : Fits root steps

/-- No file is above the key. -/
def Clear (catalog : Catalog) (key : String) : Prop :=
  ∀ above, Key.isBelow above key = true → catalog.isFile above = false

/-- Everything above the key is a directory. -/
def Grounded (catalog : Catalog) (key : String) : Prop :=
  ∀ above, Key.isBelow above key = true → catalog.get? above = some .directory

theorem Grounded.clear {key : String} (grounded : Grounded catalog key) : Clear catalog key := by
  intro above below
  rw [isFile, grounded above below]
  rfl

theorem Clear.of_beginning (clear : Clear catalog (Key.text steps)) (areNames : Key.AreNames steps)
    (beginning : upper <+: steps) : Clear catalog (Key.text upper) := by
  intro above below
  rcases (Key.isBelow_text_iff (areNames.of_beginning beginning)).mp below with
    ⟨others, nonempty, inside, proper, rfl⟩
  apply clear
  apply (Key.isBelow_text_iff areNames).mpr
  refine ⟨others, nonempty, inside.trans beginning, ?_, rfl⟩
  rintro rfl
  exact proper (inside.eq_of_length_le beginning.length_le)

theorem exists_of_not_clear {key : String} (blocked : ¬ Clear catalog key) :
    ∃ above, Key.isBelow above key = true ∧ catalog.isFile above = true := by
  apply Classical.byContradiction
  intro none
  apply blocked
  intro above below
  apply Bool.eq_false_iff.mpr
  exact fun file => none ⟨above, below, file⟩

/-- In a tree nothing is stored below a file. -/
theorem missing_of_not_clear {key : String} (tree : catalog.IsSaveTree)
    (blocked : ¬ Clear catalog key) : catalog.get? key = none := by
  rcases exists_of_not_clear blocked with ⟨above, below, file⟩
  rcases isFile_iff.mp file with ⟨content, stored⟩
  apply Option.eq_none_iff_forall_ne_some.mpr
  intro node found
  rw [tree.rooted found below] at stored
  cases stored

namespace Addressed

variable (addressed : Addressed root steps)

include addressed

theorem areSteps : AreSteps steps :=
  areSteps_of_areNames addressed.areNames

theorem canonical : Key.Canonical (Key.text steps) :=
  Key.canonical_text addressed.nonempty addressed.areNames

theorem exists_last : ∃ front last, steps = front ++ [last] := by
  rcases List.eq_nil_or_concat steps with empty | ⟨front, last, split⟩
  · exact absurd empty addressed.nonempty
  · exact ⟨front, last, split.trans List.concat_eq_append⟩

theorem of_beginning (rooted : root ≠ "") (some : upper ≠ []) (beginning : upper <+: steps) :
    Addressed root upper where
  nonempty := some
  areNames := addressed.areNames.of_beginning beginning
  fits := addressed.fits.of_beginning rooted addressed.areSteps beginning

end Addressed

namespace Follows

variable (follows : Follows root place initial machine catalog)

include follows

theorem tree : catalog.IsSaveTree :=
  follows.mirrors.tree

theorem root_ne_empty : root ≠ "" :=
  Native.root_ne_empty follows.vacant.located

/-- No directory of the machine at the beginning has gone. -/
theorem keeps : Keeps initial.disk machine.disk := by
  intro other directory
  rw [Disk.kind?_eq_directory_iff] at directory ⊢
  rw [follows.outside, directory]
  by_cases inside : place <+: other
  · refine .inr ?_
    rcases inside with ⟨rest, rfl⟩
    by_cases top : rest = []
    · rw [top, List.append_nil]
    · rw [follows.vacant.empty rest top] at directory
      cases directory
  · exact .inl inside

/-- The root is still there. -/
theorem located : machine.locate root = .ok (place, .directory) := by
  rcases leads_of_locate follows.vacant.located with ⟨noZero, short, leads, directory⟩
  have stays := leads.of_keeps follows.keeps (start_directory follows.vacant.begins root) directory
  rw [← start_of_here follows.here] at stays
  exact locate_directory noZero short stays (follows.keeps place directory)

theorem directory : machine.disk.kind? place = some .directory :=
  (leads_of_locate follows.located).2.2.2

theorem kind?_eq (addressed : Addressed root steps) :
    machine.disk.kind? (place ++ steps) = (catalog.get? (Key.text steps)).map Node.kind :=
  follows.mirrors.kind?_eq addressed.nonempty addressed.areNames

theorem stands_of_stored (addressed : Addressed root steps)
    (stored : catalog.get? (Key.text steps) = some node) :
    machine.disk.kind? (place ++ steps) = some node.kind := by
  rw [follows.kind?_eq addressed, stored]
  rfl

theorem locate_of_stored (addressed : Addressed root steps)
    (stored : catalog.get? (Key.text steps) = some node) :
    machine.locate (hostPath root (Key.text steps)) = .ok (place ++ steps, node.kind) :=
  locate_of_stands follows.located addressed.areSteps addressed.fits
    (follows.stands_of_stored addressed stored)

/-- A catalog that finds the same is followed as well. -/
theorem congr {other : Catalog} (same : ∀ key, other.get? key = catalog.get? key) :
    Follows root place initial machine other where
  vacant := follows.vacant
  here := follows.here
  outside := follows.outside
  mirrors := by
    refine ⟨follows.tree.congr same, ?_, follows.mirrors.named⟩
    intro steps nonempty areNames
    rw [same]
    exact follows.mirrors.stands steps nonempty areNames
  shallow := by
    intro name node isName stored
    rw [same] at stored
    exact follows.shallow name node isName stored

/-- No file stands above steps whose key has none above it. -/
theorem not_file_above (addressed : Addressed root steps) (clear : Clear catalog (Key.text steps))
    (beginning : upper <+: steps) (proper : upper ≠ steps) :
    machine.disk.kind? (place ++ upper) ≠ some .file := by
  by_cases top : upper = []
  · rw [top, List.append_nil, follows.directory]
    nofun
  · have upperAddressed := addressed.of_beginning follows.root_ne_empty top beginning
    have below := (Key.isBelow_text_iff addressed.areNames).mpr
      ⟨upper, top, beginning, proper, rfl⟩
    have free := clear (Key.text upper) below
    rw [isFile, decide_eq_false_iff_not] at free
    rwa [follows.kind?_eq upperAddressed]

theorem attempt_kind_root :
    attempt Machine.serve (kind? root "") machine = (.ok (some .directory), machine) := by
  rw [attempt_kind?]
  exact congrArg (fun located => (seen located, machine)) follows.located

/-- A look at a key sees what is stored there, if no file is above it. -/
theorem attempt_kind_of_clear (addressed : Addressed root steps)
    (clear : Clear catalog (Key.text steps)) :
    attempt Machine.serve (kind? root (Key.text steps)) machine =
      (.ok ((catalog.get? (Key.text steps)).map Node.kind), machine) := by
  rw [attempt_kind?]
  cases found : catalog.get? (Key.text steps) with
  | some node =>
    rw [follows.locate_of_stored addressed found]
    rfl
  | none =>
    have standing := follows.kind?_eq addressed
    rw [found] at standing
    rw [locate_of_missing follows.located addressed.areSteps addressed.fits standing]
    · rfl
    · intro upper beginning
      by_cases whole : upper = steps
      · rw [whole, standing]
        nofun
      · exact follows.not_file_above addressed clear beginning whole

/-- A look at a key fails if a file is above it. -/
theorem attempt_kind_of_blocked (addressed : Addressed root steps)
    (blocked : ¬ Clear catalog (Key.text steps)) :
    attempt Machine.serve (kind? root (Key.text steps)) machine =
      (.error (.host .notADirectory), machine) := by
  rcases exists_of_not_clear blocked with ⟨above, below, file⟩
  rcases (Key.isBelow_text_iff addressed.areNames).mp below with
    ⟨upper, some, beginning, proper, rfl⟩
  have standing := follows.kind?_eq (addressed.of_beginning follows.root_ne_empty some beginning)
  rw [isFile, decide_eq_true_iff] at file
  rw [file] at standing
  rw [attempt_kind?, locate_of_blocked follows.located addressed.areSteps addressed.fits beginning
    proper standing]
  rfl

/-- A file is read as it is stored. -/
theorem attempt_read (addressed : Addressed root steps)
    (file : catalog.get? (Key.text steps) = some (.file content)) :
    attempt Machine.serve (onHost (Host.read (hostPath root (Key.text steps)))) machine =
      (.ok content.toBytes, machine) := by
  have holds := follows.mirrors.stands steps addressed.nonempty addressed.areNames
  rw [file] at holds
  rw [Native.attempt_read, contents_of_file (follows.locate_of_stored addressed file) holds]
  rfl

/-- A directory lists its children.  It may be the root itself. -/
theorem attempt_list (areSteps : AreSteps steps) (fits : Fits root steps)
    (directory : machine.disk.kind? (place ++ steps) = some .directory) :
    attempt Machine.serve (onHost (Host.list (hostPath root (Key.text steps)))) machine =
      (.ok (machine.disk.children (place ++ steps)), machine) := by
  rw [Native.attempt_list,
    listed_of_directory (locate_of_stands follows.located areSteps fits directory)]
  rfl

/-- The host admits the path of the root. -/
theorem fits_root : Fits root [] where
  clean := (leads_of_locate follows.located).1
  short := (leads_of_locate follows.located).2.1
  admitted := nofun

/-! ## Something that is put -/

/-- An item that is put below directories, on the disk and in the catalog. -/
theorem put (disk : Disk) (node : Node) (addressed : Addressed root steps)
    (grounded : Grounded catalog (Key.text steps))
    (free : node = .directory ∨ catalog.get? (Key.text steps) ≠ some .directory)
    (updated : ∀ other, disk.get? other =
      if other = place ++ steps then some node.item else machine.disk.get? other) :
    Follows root place initial { machine with disk := disk }
      (catalog.put ⟨Key.text steps, node⟩) where
  vacant := follows.vacant
  here := follows.here
  outside := by
    intro other outside
    have different : other ≠ place ++ steps := by
      rintro rfl
      exact outside.not_prefix_append addressed.nonempty (List.prefix_refl _)
    dsimp only
    rw [updated, if_neg different]
    exact follows.outside other outside
  mirrors := by
    refine ⟨follows.tree.put addressed.canonical grounded free, ?_, ?_⟩
    · intro others nonempty areNames
      rw [updated, get?_put]
      by_cases same : others = steps
      · rw [same, if_pos rfl, if_pos rfl]
        rfl
      · rw [if_neg (fun equal => same (List.append_cancel_left equal)),
          if_neg (fun equal => same (Key.text_injective areNames addressed.areNames equal))]
        exact follows.mirrors.stands others nonempty areNames
    · intro others item standing
      have standing : disk.get? (place ++ others) = some item := standing
      rw [updated] at standing
      split at standing
      · rename_i same
        exact List.append_cancel_left same ▸ addressed.areNames
      · exact follows.mirrors.named others item standing
  shallow := by
    intro name found isName stored
    rw [get?_put] at stored
    split at stored
    · rename_i same
      exact Key.text_injective isName addressed.areNames same ▸ addressed.fits
    · exact follows.shallow name found isName stored

/-- What a key is looked up in is a directory, if everything above the key is. -/
theorem parent_directory (addressed : Addressed root (steps ++ [name]))
    (grounded : Grounded catalog (Key.text (steps ++ [name]))) :
    machine.disk.kind? (place ++ steps) = some .directory := by
  by_cases top : steps = []
  · rw [top, List.append_nil]
    exact follows.directory
  · have upper := addressed.of_beginning follows.root_ne_empty top (List.prefix_append steps [name])
    have above := grounded (Key.text steps)
      (Key.isBelow_text_append addressed.areNames top (List.cons_ne_nil name []))
    exact follows.stands_of_stored upper above

theorem locateParent_eq (addressed : Addressed root (steps ++ [name]))
    (grounded : Grounded catalog (Key.text (steps ++ [name]))) :
    machine.locateParent (hostPath root (Key.text (steps ++ [name]))) =
      .ok (place ++ steps, some name) :=
  locateParent_of_stands follows.located addressed.areSteps addressed.fits
    (follows.parent_directory addressed grounded)

/-- A directory that is made at a free key. -/
theorem attempt_makeDirectory (addressed : Addressed root steps)
    (grounded : Grounded catalog (Key.text steps)) (missing : catalog.get? (Key.text steps) = none) :
    ∃ after, attempt Machine.serve (onHost (Host.makeDirectory (hostPath root (Key.text steps))))
        machine = (.ok (), after) ∧
      Follows root place initial after (catalog.put ⟨Key.text steps, .directory⟩) := by
  have free := follows.kind?_eq addressed
  rw [missing] at free
  have grown := follows.put (machine.disk.makeDirectory (place ++ steps)) .directory addressed
    grounded (.inl rfl)
  rcases addressed.exists_last with ⟨front, last, rfl⟩
  have parent := follows.parent_directory addressed grounded
  have admitted := addressed.fits.admitted last (List.mem_append_right _ (List.mem_singleton_self last))
  have made : machine.makeDirectory (hostPath root (Key.text (front ++ [last]))) =
      .ok { machine with disk := machine.disk.makeDirectory (place ++ (front ++ [last])) } := by
    rw [← List.append_assoc] at free ⊢
    rw [Machine.makeDirectory, addressed.fits.clean, follows.locateParent_eq addressed grounded]
    dsimp only [Bind.bind, Except.bind]
    rw [admitted, free]
    rfl
  refine ⟨_, ?_, grown ?_⟩
  · rw [Native.attempt_makeDirectory, made]
    rfl
  · intro other
    apply Disk.get?_makeDirectory _ free
    rw [← List.append_assoc, List.dropLast_concat]
    exact parent

/-- A file that is written where no directory is. -/
theorem attempt_write (addressed : Addressed root steps)
    (grounded : Grounded catalog (Key.text steps))
    (notDirectory : catalog.get? (Key.text steps) ≠ some .directory) :
    ∃ after, attempt Machine.serve
        (onHost (Host.write (hostPath root (Key.text steps)) content.toBytes)) machine =
          (.ok (), after) ∧
      Follows root place initial after (catalog.put ⟨Key.text steps, .file content⟩) := by
  have free : machine.disk.kind? (place ++ steps) ≠ some .directory := by
    rw [follows.kind?_eq addressed, Ne, kind_eq_directory_iff]
    exact notDirectory
  have grown := follows.put (machine.disk.putFile (place ++ steps) content.toBytes) (.file content)
    addressed grounded (.inr notDirectory)
  rcases addressed.exists_last with ⟨front, last, rfl⟩
  have parent := follows.parent_directory addressed grounded
  have admitted := addressed.fits.admitted last (List.mem_append_right _ (List.mem_singleton_self last))
  have written : machine.write (hostPath root (Key.text (front ++ [last]))) content.toBytes =
      .ok { machine with disk := machine.disk.putFile (place ++ (front ++ [last])) content.toBytes } := by
    rw [← List.append_assoc] at free ⊢
    rw [Machine.write, addressed.fits.clean, follows.locateParent_eq addressed grounded]
    dsimp only [Bind.bind, Except.bind]
    rw [endsWithSlash_hostPath addressed.areSteps addressed.nonempty, if_neg Bool.false_ne_true,
      admitted, if_neg free]
    rfl
  refine ⟨_, ?_, grown ?_⟩
  · rw [Native.attempt_write, written]
    rfl
  · intro other
    apply Disk.get?_putFile _ free
    rw [← List.append_assoc, List.dropLast_concat]
    exact parent

/-! ## Something that is taken out -/

/-- A subtree that is taken out, on the disk and in the catalog. -/
theorem take (addressed : Addressed root steps) :
    Follows root place initial { machine with disk := machine.disk.remove (place ++ steps) }
      (catalog.uproot (Key.text steps)) := by
  have updated : ∀ other, (machine.disk.remove (place ++ steps)).get? other =
      if place ++ steps <+: other then none else machine.disk.get? other := by
    intro other
    exact Disk.get?_remove (by simp [addressed.nonempty])
  refine ⟨follows.vacant, follows.here, ?_, ?_, ?_⟩
  · intro other outside
    dsimp only
    rw [updated, if_neg (outside.not_prefix_append addressed.nonempty)]
    exact follows.outside other outside
  · refine ⟨follows.tree.uproot _, ?_, ?_⟩
    · intro others nonempty areNames
      dsimp only
      rw [updated, Catalog.get?_uproot addressed.areNames addressed.nonempty areNames,
        follows.mirrors.stands others nonempty areNames]
      simp only [List.prefix_append_right_inj]
      split <;> rfl
    · intro others item standing
      have standing : (machine.disk.remove (place ++ steps)).get? (place ++ others) = some item :=
        standing
      rw [updated] at standing
      split at standing
      · cases standing
      · exact follows.mirrors.named others item standing
  · intro name found isName stored
    rw [Catalog.get?_uproot addressed.areNames addressed.nonempty isName] at stored
    split at stored
    · cases stored
    · exact follows.shallow name found isName stored

theorem attempt_removeFile (addressed : Addressed root steps)
    (file : catalog.get? (Key.text steps) = some (.file content)) :
    ∃ after, attempt Machine.serve (onHost (Host.removeFile (hostPath root (Key.text steps))))
        machine = (.ok (), after) ∧
      Follows root place initial after (catalog.uproot (Key.text steps)) := by
  refine ⟨_, ?_, follows.take addressed⟩
  rw [Native.attempt_removeFile, Machine.removeFile, follows.locate_of_stored addressed file]
  rfl

theorem attempt_removeTree (addressed : Addressed root steps)
    (directory : catalog.get? (Key.text steps) = some .directory) :
    ∃ after, attempt Machine.serve (onHost (Host.removeTree (hostPath root (Key.text steps))))
        machine = (.ok (), after) ∧
      Follows root place initial after (catalog.uproot (Key.text steps)) := by
  refine ⟨_, ?_, follows.take addressed⟩
  rw [Native.attempt_removeTree, Machine.removeTree, follows.locate_of_stored addressed directory]
  rfl

/-! ## Something that is moved -/

/-- A subtree that is moved, on the disk and in the catalog. -/
theorem move {source target : List String} {moved : Catalog} (addressed : Addressed root source)
    (addressedTarget : Addressed root target) (tree : moved.IsSaveTree)
    (moves : Moved source target catalog moved)
    (parent : machine.disk.kind? (place ++ target).dropLast = some .directory)
    (notBelow : ¬ source <+: target) (notAbove : ¬ target <+: source) :
    Follows root place initial
      { machine with disk := machine.disk.move (place ++ source) (place ++ target) } moved := by
  have updated : ∀ other, (machine.disk.move (place ++ source) (place ++ target)).get? other =
      if place ++ target <+: other then
        machine.disk.get? (place ++ source ++ other.drop (place ++ target).length)
      else if place ++ source <+: other then none else machine.disk.get? other := by
    intro other
    apply Disk.get?_move_tree (by simp [addressedTarget.nonempty]) parent
    · rwa [List.prefix_append_right_inj]
    · rwa [List.prefix_append_right_inj]
  have updatedBelow : ∀ others,
      (machine.disk.move (place ++ source) (place ++ target)).get? (place ++ others) =
        if target <+: others then machine.disk.get? (place ++ (source ++ others.drop target.length))
        else if source <+: others then none else machine.disk.get? (place ++ others) :=
    fun _ => Disk.get?_move_below addressedTarget.nonempty parent notBelow notAbove
  refine ⟨follows.vacant, follows.here, ?_, ⟨tree, ?_, ?_⟩, ?_⟩
  · intro other outside
    dsimp only
    rw [updated, if_neg (outside.not_prefix_append addressedTarget.nonempty),
      if_neg (outside.not_prefix_append addressed.nonempty)]
    exact follows.outside other outside
  · intro others nonempty areNames
    dsimp only
    rw [updatedBelow, moves others areNames]
    split
    · rename_i inside
      rcases inside with ⟨rest, rfl⟩
      rw [List.drop_left]
      apply follows.mirrors.stands _ (by simp [addressed.nonempty])
      exact Key.areNames_append_iff.mpr
        ⟨addressed.areNames, (Key.areNames_append_iff.mp areNames).2⟩
    · split
      · rfl
      · exact follows.mirrors.stands others nonempty areNames
  · intro others item standing
    have standing : (machine.disk.move (place ++ source) (place ++ target)).get? (place ++ others) =
      some item := standing
    rw [updatedBelow] at standing
    split at standing
    · rename_i inside
      rcases inside with ⟨rest, rfl⟩
      rw [List.drop_left] at standing
      have areLower := follows.mirrors.named _ item standing
      exact Key.areNames_append_iff.mpr
        ⟨addressedTarget.areNames, (Key.areNames_append_iff.mp areLower).2⟩
    · split at standing
      · cases standing
      · exact follows.mirrors.named others item standing
  · intro name found isName stored
    rw [moves _ isName] at stored
    split at stored
    · rename_i inside
      -- the only beginning of one step that is a target is the step itself
      have whole : target = [name] := by
        apply inside.eq_of_length_le
        exact List.length_pos_iff.mpr addressedTarget.nonempty
      exact whole ▸ addressedTarget.fits
    · split at stored
      · cases stored
      · exact follows.shallow name found isName stored

/-- A file or a directory is moved to a key that is free, or taken by the like with
nothing below it. -/
theorem attempt_rename {source target : List String} {moved : Catalog}
    (addressed : Addressed root source) (addressedTarget : Addressed root target)
    (stored : catalog.get? (Key.text source) = some node)
    (grounded : Grounded catalog (Key.text target))
    (alike : ∀ found, catalog.get? (Key.text target) = some found → found.kind = node.kind)
    (empty : catalog.below (Key.text target) = []) (notBelow : ¬ source <+: target)
    (tree : moved.IsSaveTree) (moves : Moved source target catalog moved) :
    ∃ after, attempt Machine.serve (onHost (Host.rename (hostPath root (Key.text source))
        (hostPath root (Key.text target)))) machine = (.ok (), after) ∧
      Follows root place initial after moved := by
  have groundedSource : Grounded catalog (Key.text source) :=
    fun above below => follows.tree.rooted stored below
  have notAbove : ¬ target <+: source := by
    intro above
    have below := (Key.isBelow_text_text_iff addressedTarget.areNames addressed.areNames
      addressedTarget.nonempty).mpr ⟨above, fun same => notBelow (same ▸ List.prefix_refl _)⟩
    rw [below_eq_nil_iff.mp empty _ _ stored] at below
    cases below
  have standing := follows.stands_of_stored addressed stored
  have free : ∀ found, machine.disk.kind? (place ++ target) = some found →
      found = node.kind ∧ (node.kind = .directory → machine.disk.children (place ++ target) = []) := by
    intro found standing
    rw [follows.kind?_eq addressedTarget] at standing
    rcases Option.map_eq_some_iff.mp standing with ⟨occupied, storedTarget, rfl⟩
    exact ⟨alike occupied storedTarget, fun _ => (follows.mirrors.children_eq_nil_iff
      addressedTarget.areNames addressedTarget.nonempty).mpr empty⟩
  have follow := follows.move addressed addressedTarget tree moves
  have bare : endsWithSlash (hostPath root (Key.text source)) = false :=
    endsWithSlash_hostPath addressed.areSteps addressed.nonempty
  have bareTarget : endsWithSlash (hostPath root (Key.text target)) = false :=
    endsWithSlash_hostPath addressedTarget.areSteps addressedTarget.nonempty
  rcases addressed.exists_last with ⟨front, last, rfl⟩
  rcases addressedTarget.exists_last with ⟨frontTarget, lastTarget, rfl⟩
  have parent := follows.parent_directory addressedTarget grounded
  have renamed : machine.rename (hostPath root (Key.text (front ++ [last])))
      (hostPath root (Key.text (frontTarget ++ [lastTarget]))) = .ok { machine with
        disk := machine.disk.move (place ++ (front ++ [last]))
          (place ++ (frontTarget ++ [lastTarget])) } := by
    rw [← List.append_assoc] at standing
    rw [← List.append_assoc] at free ⊢
    rw [← List.append_assoc]
    apply rename_of_free addressed.fits.clean addressedTarget.fits.clean
      (follows.locateParent_eq addressed groundedSource)
      (follows.locateParent_eq addressedTarget grounded)
      (addressed.fits.admitted last (by simp)) (addressedTarget.fits.admitted lastTarget (by simp))
      standing bare bareTarget _ _ free
    · rwa [List.append_assoc, List.append_assoc, List.prefix_append_right_inj]
    · rwa [List.append_assoc, List.append_assoc, List.prefix_append_right_inj]
  refine ⟨_, ?_, follow ?_ notBelow notAbove⟩
  · rw [Native.attempt_rename, renamed]
    rfl
  · rwa [← List.append_assoc, List.dropLast_concat]

end Follows

end Native
end SaveTree
