import SaveTree.Proofs.Host.Machine

namespace SaveTree
namespace Host

/-!
# Subtrees of a disk

What a disk holds after a whole subtree was removed or moved, what a directory
lists, and how a walk below a directory depends on the subtree there alone.
-/

namespace Disk

variable {disk : Disk} {place other source target : Place} {name : String} {kind : Kind}

theorem get?_remove_items :
    (disk.remove target).items.get? other =
      if target <+: other then none else disk.items.get? other := by
  rw [remove, Table.get?_filter]
  by_cases above : target <+: other
  · rw [if_pos above, List.isPrefixOf_iff_prefix.mpr above]
    rfl
  · have free : target.isPrefixOf other = false :=
      Bool.eq_false_iff.mpr fun inside => above (List.isPrefixOf_iff_prefix.mp inside)
    rw [if_neg above, free]
    rfl

/-- Removing takes out what stands at the place and below it. -/
theorem get?_remove (nonempty : target ≠ []) :
    (disk.remove target).get? other = if target <+: other then none else disk.get? other := by
  by_cases root : other = []
  · subst root
    rw [if_neg (fun above => nonempty (List.prefix_nil.mp above))]
    rfl
  · rw [get?_of_ne_nil root, get?_of_ne_nil root, get?_remove_items]

theorem not_prefix_dropLast (nonempty : place ≠ []) : ¬ place <+: place.dropLast := by
  intro above
  have shorter := above.length_le
  have positive := List.length_pos_iff.mpr nonempty
  rw [List.length_dropLast] at shorter
  omega

theorem holds_cleared (nonempty : target ≠ [])
    (parent : disk.kind? target.dropLast = some .directory) :
    Holds (disk.remove target).items target.dropLast := by
  rw [holds_iff, kind?_eq_directory_iff, get?_remove nonempty, if_neg (not_prefix_dropLast nonempty)]
  exact kind?_eq_directory_iff.mp parent

/-- What is found after a subtree was moved was found before, under another place
if it was moved along. -/
theorem get?_move_items_iff {item : Item} (nonempty : target ≠ [])
    (parent : disk.kind? target.dropLast = some .directory) (outside : ¬ source <+: target) :
    (disk.move source target).items.get? place = some item ↔
      ∃ old, disk.items.get? old = some item ∧ ¬ target <+: old ∧
        moved source target old = place := by
  have apart : ∀ k ∈ (disk.remove target).items.keys, ∀ k' ∈ (disk.remove target).items.keys,
      moved source target k = moved source target k' → k = k' :=
    fun _ member _ memberOther => moved_apart (move.free member) (move.free memberOther)
  have kept : ∀ old, (disk.remove target).items.get? old = some item ↔
      disk.items.get? old = some item ∧ ¬ target <+: old := by
    intro old
    rw [get?_remove_items]
    by_cases above : target <+: old <;> simp [above]
  rw [move, dif_pos ⟨nonempty, holds_cleared nonempty parent, outside⟩]
  constructor
  · intro found
    rcases exists_of_get?_mapKeys apart found with ⟨old, renamed, before⟩
    rcases (kept old).mp before with ⟨stood, free⟩
    exact ⟨old, stood, free, renamed⟩
  · rintro ⟨old, stood, free, rfl⟩
    exact Table.get?_mapKeys _ (moved source target) apart ((kept old).mpr ⟨stood, free⟩)

/-- A subtree that is moved is found at its new place, and nothing is left at the old
one. -/
theorem get?_move_tree (nonempty : target ≠ [])
    (parent : disk.kind? target.dropLast = some .directory) (outside : ¬ source <+: target)
    (notAbove : ¬ target <+: source) :
    (disk.move source target).get? other =
      if target <+: other then disk.get? (source ++ other.drop target.length)
      else if source <+: other then none else disk.get? other := by
  have sourceNonempty : source ≠ [] := by
    rintro rfl
    exact outside List.nil_prefix
  by_cases root : other = []
  · subst root
    rw [if_neg (fun above => nonempty (List.prefix_nil.mp above)),
      if_neg (fun above => sourceNonempty (List.prefix_nil.mp above))]
    rfl
  apply Option.ext
  intro item
  rw [get?_of_ne_nil root, get?_move_items_iff nonempty parent outside]
  constructor
  · rintro ⟨old, stood, free, rfl⟩
    by_cases inside : source <+: old
    · rw [if_pos (target_above_moved inside)]
      rcases inside with ⟨rest, rfl⟩
      rw [moved_inside (List.prefix_append source rest), List.drop_left, List.drop_left,
        get?_of_ne_nil (by simp [sourceNonempty]), stood]
    · rw [moved_outside inside] at root ⊢
      rw [if_neg free, if_neg inside, get?_of_ne_nil root, stood]
  · intro found
    split at found
    · rename_i above
      rcases above with ⟨rest, rfl⟩
      rw [List.drop_left, get?_of_ne_nil (by simp [sourceNonempty])] at found
      refine ⟨source ++ rest, found, ?_, ?_⟩
      · intro above
        rcases List.prefix_or_prefix_of_prefix (List.prefix_append source rest) above with inside | inside
        · exact outside inside
        · exact notAbove inside
      · rw [moved_inside (List.prefix_append source rest), List.drop_left]
    · rename_i free
      split at found
      · cases found
      · rename_i inside
        rw [get?_of_ne_nil root] at found
        exact ⟨other, found, free, moved_outside inside⟩

/-- A subtree that is moved inside another one. -/
theorem get?_move_below (nonempty : target ≠ [])
    (parent : disk.kind? (place ++ target).dropLast = some .directory)
    (outside : ¬ source <+: target) (notAbove : ¬ target <+: source) :
    (disk.move (place ++ source) (place ++ target)).get? (place ++ other) =
      if target <+: other then disk.get? (place ++ (source ++ other.drop target.length))
      else if source <+: other then none else disk.get? (place ++ other) := by
  rw [get?_move_tree (by simp [nonempty]) parent, List.length_append, List.drop_length_add_append,
    List.append_assoc]
  · simp only [List.prefix_append_right_inj]
  · rwa [List.prefix_append_right_inj]
  · rwa [List.prefix_append_right_inj]

/-! ## What a directory lists -/

/-- A directory lists what stands right below it. -/
theorem mem_children_iff :
    (name, kind) ∈ disk.children place ↔ disk.kind? (place ++ [name]) = some kind := by
  have nonempty : place ++ [name] ≠ [] := by simp
  rw [children, List.mem_filterMap, kind?, get?_of_ne_nil nonempty, Option.map_eq_some_iff]
  constructor
  · rintro ⟨⟨listed, item⟩, row, shown⟩
    dsimp only at shown
    split at shown
    · rename_i parent
      rcases Option.map_eq_some_iff.mp shown with ⟨last, isLast, same⟩
      cases same
      rcases List.getLast?_eq_some_iff.mp isLast with ⟨front, rfl⟩
      rw [List.dropLast_concat] at parent
      subst parent
      exact ⟨item, disk.items.get?_of_mem row, rfl⟩
    · cases shown
  · rintro ⟨item, found, rfl⟩
    refine ⟨(place ++ [name], item), disk.items.mem_of_get? found, ?_⟩
    simp

/-- No name is listed twice. -/
theorem nodup_children (disk : Disk) (place : Place) :
    ((disk.children place).map Prod.fst).Nodup := by
  have distinct := List.pairwise_map.mp disk.items.distinct
  rw [children]
  refine List.pairwise_map.mpr ((List.pairwise_filterMap.mpr ?_))
  refine distinct.imp ?_
  rintro ⟨first, item⟩ ⟨second, otherItem⟩ different ⟨name, kind⟩ shown ⟨otherName, otherKind⟩
    shownOther same
  dsimp only at shown shownOther different same
  split at shown
  · rename_i parent
    split at shownOther
    · rename_i parentOther
      rcases Option.map_eq_some_iff.mp shown with ⟨last, isLast, equal⟩
      rcases Option.map_eq_some_iff.mp shownOther with ⟨lastOther, isLastOther, equalOther⟩
      cases equal
      cases equalOther
      subst same
      rcases List.getLast?_eq_some_iff.mp isLast with ⟨front, rfl⟩
      rcases List.getLast?_eq_some_iff.mp isLastOther with ⟨frontOther, rfl⟩
      rw [List.dropLast_concat] at parent parentOther
      exact different (by rw [parent, parentOther])
    · cases shownOther
  · cases shown

/-- Directories with the same things right below them list the same, perhaps in
another order. -/
theorem children_perm {otherDisk : Disk}
    (same : ∀ name, disk.kind? (place ++ [name]) = otherDisk.kind? (other ++ [name])) :
    (disk.children place).Perm (otherDisk.children other) := by
  have nodup : ∀ (disk : Disk) (place : Place), (disk.children place).Nodup := by
    intro disk place
    refine (List.pairwise_map.mp (disk.nodup_children place)).imp ?_
    intro first second different equal
    exact different (congrArg Prod.fst equal)
  apply (List.perm_ext_iff_of_nodup (nodup disk place) (nodup otherDisk other)).mpr
  rintro ⟨name, kind⟩
  rw [mem_children_iff, mem_children_iff, same]

end Disk

/-- Named things in the order of their names. -/
def byName (children : List (String × Kind)) : List (String × Kind) :=
  children.mergeSort fun first second => first.1 ≤ second.1

theorem mem_byName_iff {children : List (String × Kind)} {child : String × Kind} :
    child ∈ byName children ↔ child ∈ children := by
  rw [byName, List.mem_mergeSort]

theorem pairwise_byName {children : List (String × Kind)}
    (distinct : (children.map Prod.fst).Nodup) :
    (byName children).Pairwise fun first second => first.1 < second.1 := by
  have sorted : (byName children).Pairwise
      fun first second => decide (first.1 ≤ second.1) = true := by
    apply List.pairwise_mergeSort
    · intro first second third early late
      exact decide_eq_true (String.le_trans (of_decide_eq_true early) (of_decide_eq_true late))
    · intro first second
      rw [Bool.or_eq_true, decide_eq_true_iff, decide_eq_true_iff]
      exact String.le_total first.1 second.1
  have apart : (byName children).Pairwise fun first second => first.1 ≠ second.1 := by
    have perm : (byName children).Perm children := List.mergeSort_perm _ _
    exact List.pairwise_map.mp ((perm.map Prod.fst).nodup_iff.mpr distinct)
  refine (sorted.and apart).imp ?_
  rintro first second ⟨early, different⟩
  apply String.not_le.mp
  intro late
  exact different (String.le_antisymm (of_decide_eq_true early) late)

/-- A list of named things in the strict order of names is fixed by its members. -/
theorem eq_of_byName {left right : List (String × Kind)}
    (sortedLeft : left.Pairwise fun first second => first.1 < second.1)
    (sortedRight : right.Pairwise fun first second => first.1 < second.1)
    (same : ∀ child, child ∈ left ↔ child ∈ right) : left = right := by
  have nodup : ∀ {list : List (String × Kind)},
      list.Pairwise (fun first second => first.1 < second.1) → list.Nodup := by
    intro list sorted
    refine sorted.imp ?_
    rintro first second early rfl
    exact String.lt_irrefl first.1 early
  have perm := (List.perm_ext_iff_of_nodup (nodup sortedLeft) (nodup sortedRight)).mpr same
  apply perm.eq_of_pairwise _ sortedLeft sortedRight
  intro first second _ _ early late
  exact absurd late (String.lt_asymm early)

/-- Sorting by name leaves nothing of the order before. -/
theorem byName_eq_of_perm {left right : List (String × Kind)} (perm : left.Perm right)
    (distinct : (left.map Prod.fst).Nodup) : byName left = byName right := by
  apply eq_of_byName (pairwise_byName distinct)
    (pairwise_byName ((perm.map Prod.fst).nodup_iff.mp distinct))
  intro child
  rw [mem_byName_iff, mem_byName_iff, perm.mem_iff]

namespace Machine

variable {disk other : Disk} {start place : Place} {segments names : List String}

/-! ## Walks as texts -/

/-- Where a segment leads if it leads anywhere. -/
def beyond (place : Place) (segment : String) : Place :=
  if segment = "." then place else if segment = ".." then place.dropLast else place ++ [segment]

theorem eq_beyond_of_enter {segment : String} {next : Place}
    (arrives : enter disk place segment = .ok next) : next = beyond place segment := by
  cases (entered_of_enter arrives).2 with
  | stay => rfl
  | up => rfl
  | down notDot notUp _ _ => rw [beyond, if_neg notDot, if_neg notUp]

/-- Where some segments lead if they lead anywhere. -/
def follow (start : Place) (segments : List String) : Place :=
  segments.foldl beyond start

theorem eq_follow_of_leads (leads : Leads disk start segments place) :
    place = follow start segments := by
  induction segments generalizing start with
  | nil => exact (leads_nil.mp leads).symm
  | cons segment rest ih =>
    rcases leads_cons.mp leads with ⟨next, entered, later⟩
    rw [ih later, eq_beyond_of_enter entered]
    rfl

/-- All places that a walk to a directory passes are directories. -/
theorem Leads.directory_follow {upper : List String} (leads : Leads disk start segments place)
    (begins : disk.kind? start = some .directory) (arrives : disk.kind? place = some .directory)
    (beginning : upper <+: segments) : disk.kind? (follow start upper) = some .directory := by
  rcases beginning with ⟨lower, rfl⟩
  rcases leads_append.mp leads with ⟨between, first, second⟩
  rcases first.stands begins with ⟨kind, stands⟩
  rw [← eq_follow_of_leads first]
  exact second.directory_start stands arrives

/-- Disks on which all places of a walk are alike lead it alike. -/
theorem foldlM_enter_congr
    (alike : ∀ upper, upper <+: segments → disk.kind? (follow start upper) =
      other.kind? (follow start upper)) :
    segments.foldlM (enter disk) start = segments.foldlM (enter other) start := by
  induction segments generalizing start with
  | nil => rfl
  | cons segment rest ih =>
    have here : disk.kind? start = other.kind? start := alike [] List.nil_prefix
    have next : disk.kind? (beyond start segment) = other.kind? (beyond start segment) :=
      alike [segment] ((List.prefix_cons_inj segment).mpr List.nil_prefix)
    have entered : enter disk start segment = enter other start segment := by
      by_cases stays : segment = "."
      · rw [enter, enter, here, stays]
        rfl
      · by_cases climbs : segment = ".."
        · rw [enter, enter, here, climbs]
          rfl
        · rw [beyond, if_neg stays, if_neg climbs] at next
          exact enter_congr here next
    rw [List.foldlM_cons, List.foldlM_cons, entered]
    cases arrives : enter other start segment with
    | error error => rfl
    | ok place =>
      have place_eq := eq_beyond_of_enter arrives
      subst place_eq
      refine ih fun upper beginning => ?_
      exact alike (segment :: upper) ((List.prefix_cons_inj segment).mpr beginning)

/-- Names lead straight down. -/
theorem follow_names (areNames : ∀ name ∈ names, name ≠ "." ∧ name ≠ "..") :
    follow place names = place ++ names := by
  induction names generalizing place with
  | nil => simp [follow]
  | cons name rest ih =>
    have isName := areNames name List.mem_cons_self
    have step : follow place (name :: rest) = follow (beyond place name) rest := rfl
    rw [step, ih fun other member => areNames other (.tail _ member), beyond, if_neg isName.1,
      if_neg isName.2, List.append_assoc]
    rfl

/-! ## Walks down some names -/

/-- A name that a walk can follow. -/
structure IsWalkable (name : String) : Prop where
  not_dot : name ≠ "."
  not_up : name ≠ ".."
  admitted : admitName name = .ok ()

/-- Names lead to whatever stands under them. -/
theorem leads_names {kind : Kind} (walkable : ∀ name ∈ names, IsWalkable name)
    (directory : disk.kind? place = some .directory)
    (stands : disk.kind? (place ++ names) = some kind) :
    Leads disk place names (place ++ names) := by
  induction names generalizing place with
  | nil => exact leads_nil.mpr (List.append_nil place).symm
  | cons name rest ih =>
    have isName := walkable name List.mem_cons_self
    have notFile : disk.kind? place ≠ some .file := by
      rw [directory]
      nofun
    have split : place ++ name :: rest = (place ++ [name]) ++ rest := by simp
    rw [split] at stands ⊢
    by_cases alone : rest = []
    · subst alone
      rw [List.append_nil] at stands ⊢
      have enters := enter_of_entered notFile
        (.down isName.not_dot isName.not_up isName.admitted stands)
      exact leads_cons.mpr ⟨place ++ [name], enters, leads_nil.mpr rfl⟩
    · have between : disk.kind? (place ++ [name]) = some .directory := by
        apply Disk.kind?_above stands (List.prefix_append _ _)
        intro same
        exact alone (List.append_right_eq_self.mp same.symm)
      have enters := enter_of_entered notFile
        (.down isName.not_dot isName.not_up isName.admitted between)
      exact leads_cons.mpr ⟨place ++ [name], enters,
        ih (fun other member => walkable other (.tail _ member)) between stands⟩

theorem enter_missing {name : String} (isName : IsWalkable name)
    (directory : disk.kind? place = some .directory)
    (missing : disk.kind? (place ++ [name]) = none) :
    enter disk place name = .error .notFound := by
  simp [enter, directory, isName.not_dot, isName.not_up, isName.admitted, missing, bind, Except.bind,
    throw, throwThe, MonadExceptOf.throw]

/-- Names under which nothing stands lead nowhere. -/
theorem walk_of_missing (walkable : ∀ name ∈ names, IsWalkable name)
    (directory : disk.kind? place = some .directory)
    (missing : disk.kind? (place ++ names) = none)
    (clear : ∀ upper, upper <+: names → disk.kind? (place ++ upper) ≠ some .file) :
    names.foldlM (enter disk) place = .error .notFound := by
  induction names generalizing place with
  | nil =>
    rw [List.append_nil, directory] at missing
    cases missing
  | cons name rest ih =>
    have isName := walkable name List.mem_cons_self
    have split : place ++ name :: rest = (place ++ [name]) ++ rest := by simp
    rw [split] at missing
    rw [List.foldlM_cons]
    cases next : disk.kind? (place ++ [name]) with
    | none =>
      rw [enter_missing isName directory next]
      rfl
    | some kind =>
      have here := clear [name] ((List.prefix_cons_inj name).mpr List.nil_prefix)
      cases kind with
      | file => exact absurd next here
      | directory =>
        have notFile : disk.kind? place ≠ some .file := by
          rw [directory]
          nofun
        rw [enter_of_entered notFile (.down isName.not_dot isName.not_up isName.admitted next)]
        apply ih (fun other member => walkable other (.tail _ member)) next missing
        intro upper beginning
        have deeper := clear (name :: upper) ((List.prefix_cons_inj name).mpr beginning)
        rwa [List.append_cons] at deeper

/-- No walk goes on behind a file. -/
theorem walk_of_blocked {upper : List String} (walkable : ∀ name ∈ names, IsWalkable name)
    (directory : disk.kind? place = some .directory) (above : upper <+: names)
    (proper : upper ≠ names) (file : disk.kind? (place ++ upper) = some .file) :
    names.foldlM (enter disk) place = .error .notADirectory := by
  rcases above with ⟨rest, rfl⟩
  have arrives : upper.foldlM (enter disk) place = .ok (place ++ upper) :=
    leads_names (fun name member => walkable name (List.mem_append_left _ member)) directory file
  cases rest with
  | nil => exact absurd (List.append_nil upper).symm proper
  | cons next rest =>
    rw [List.foldlM_append, arrives]
    have stops : (next :: rest).foldlM (enter disk) (place ++ upper) = .error .notADirectory := by
      rw [List.foldlM_cons, enter_of_file file]
      rfl
    exact stops

/-! ## Moving a subtree -/

/-- Something is moved to a place that is free or taken by the like, if neither place
is above the other. -/
theorem rename_of_free {machine : Machine} {source target sourceName targetName : String}
    {sourceParent targetParent : Place} {kind : Kind} (noZero : checkBytes source = .ok ())
    (noZeroTarget : checkBytes target = .ok ())
    (located : machine.locateParent source = .ok (sourceParent, some sourceName))
    (locatedTarget : machine.locateParent target = .ok (targetParent, some targetName))
    (admitted : admitName sourceName = .ok ()) (admittedTarget : admitName targetName = .ok ())
    (stands : machine.disk.kind? (sourceParent ++ [sourceName]) = some kind)
    (bare : Location.endsWithSlash source = false)
    (bareTarget : Location.endsWithSlash target = false)
    (notBelow : ¬ sourceParent ++ [sourceName] <+: targetParent ++ [targetName])
    (notAbove : ¬ targetParent ++ [targetName] <+: sourceParent ++ [sourceName])
    (free : ∀ found, machine.disk.kind? (targetParent ++ [targetName]) = some found →
      found = kind ∧ (kind = .directory → machine.disk.children (targetParent ++ [targetName]) = [])) :
    machine.rename source target = .ok { machine with
      disk := machine.disk.move (sourceParent ++ [sourceName]) (targetParent ++ [targetName]) } := by
  have notIn : ∀ {first parent : Place} {last : String}, ¬ first <+: parent ++ [last] →
      ¬ first.isPrefixOf parent = true := by
    intro first parent last apart inside
    exact apart ((List.isPrefixOf_iff_prefix.mp inside).trans (List.prefix_append parent [last]))
  have different : sourceParent ++ [sourceName] ≠ targetParent ++ [targetName] := by
    intro same
    exact notBelow (same ▸ List.prefix_refl _)
  have slashless : ¬ (kind = .file ∧
      (Location.endsWithSlash source = true ∨ Location.endsWithSlash target = true)) := by
    rw [bare, bareTarget]
    simp
  rw [Machine.rename, noZero, noZeroTarget, located, locatedTarget]
  dsimp only [Bind.bind, Except.bind]
  rw [admitted]
  dsimp only
  rw [stands]
  dsimp only
  rw [admittedTarget, if_neg slashless, if_neg (notIn notBelow), if_neg (notIn notAbove),
    if_neg different]
  cases found : machine.disk.kind? (targetParent ++ [targetName]) with
  | none => cases kind <;> rfl
  | some occupied =>
    rcases free occupied found with ⟨rfl, empty⟩
    cases occupied with
    | file => rfl
    | directory =>
      dsimp only
      rw [if_neg (fun occupied => occupied (empty rfl))]
      rfl

/-! ## Listing a directory -/

/-- The names in the directory that a path leads to. -/
def listed (machine : Machine) (path : String) : Except HostError (List (String × Kind)) := do
  match ← machine.locate path with
  | (_, .file) => throw .notADirectory
  | (place, .directory) => return machine.disk.children place

theorem listed_of_directory {machine : Machine} {path : String}
    (located : machine.locate path = .ok (place, .directory)) :
    machine.listed path = .ok (machine.disk.children place) := by
  rw [listed, located]
  rfl

end Machine

end Host
end SaveTree
