import SaveTree.Proofs.Native.Paths

namespace SaveTree
namespace Native

open Host Location Machine Program

/-!
# What operations see of the host

A path of steps below the root meets the places on the way to the root, and then
only places below it.  Two machines on which these are alike answer every call on
such a path in the same way, and what the call leaves is alike again.
-/

variable {root name last : String} {steps upper : List String} {left right machine : Machine}
  {place parent other : Place} {bytes : ByteArray}

/-- Where the path leads if it leads anywhere. -/
def destination (machine : Machine) (path : String) : Place :=
  follow (machine.start path) (segments path)

/-- The places that a path below the root can meet: those on the way to the root,
and all below it. -/
def Visible (machine : Machine) (root : String) (other : Place) : Prop :=
  (∃ upper, upper <+: segments root ∧ other = follow (machine.start root) upper) ∨
    destination machine root <+: other

/-- Machines that look alike from the root on.  Names that the host has given are
steps. -/
structure Alike (root : String) (left right : Machine) : Prop where
  nonempty : root ≠ ""
  here : left.here = right.here
  stands : ∀ other, Visible left root other → left.disk.get? other = right.disk.get? other
  named : ∀ rest item, left.disk.get? (destination left root ++ rest) = some item → AreSteps rest

theorem prefix_append_cases {first second : List String} (beginning : upper <+: first ++ second) :
    upper <+: first ∨ ∃ rest, rest <+: second ∧ upper = first ++ rest := by
  rcases List.prefix_or_prefix_of_prefix beginning (List.prefix_append first second) with short | long
  · exact .inl short
  · rcases long with ⟨rest, rfl⟩
    exact .inr ⟨rest, (List.prefix_append_right_inj first).mp beginning, rfl⟩

/-- The steps of a key lead down from the root. -/
theorem follow_hostPath (machine : Machine) (root : String) (areSteps : AreSteps steps) :
    follow (machine.start root) (segments root ++ steps) = destination machine root ++ steps := by
  have down : follow (destination machine root) steps = destination machine root ++ steps :=
    follow_names fun step member => ⟨(areSteps step member).not_dot, (areSteps step member).not_up⟩
  rw [follow, List.foldl_append]
  exact down

theorem visible_below (machine : Machine) (root : String) (rest : Place) :
    Visible machine root (destination machine root ++ rest) :=
  .inr (List.prefix_append _ rest)

theorem visible_of_beginning (areSteps : AreSteps steps) (beginning : upper <+: segments root ++ steps) :
    Visible machine root (follow (machine.start root) upper) := by
  rcases prefix_append_cases beginning with onTheWay | ⟨rest, inside, rfl⟩
  · exact .inl ⟨upper, onTheWay, rfl⟩
  · rw [follow_hostPath machine root (areSteps.of_beginning inside)]
    exact visible_below machine root rest

namespace Alike

theorem start_eq (alike : Alike root left right) : left.start root = right.start root :=
  start_of_here alike.here

theorem destination_eq (alike : Alike root left right) :
    destination left root = destination right root := by
  rw [destination, destination, alike.start_eq]

theorem kind?_eq (alike : Alike root left right) (visible : Visible left root other) :
    left.disk.kind? other = right.disk.kind? other := by
  rw [Disk.kind?, Disk.kind?, alike.stands other visible]

theorem kind?_below (alike : Alike root left right) (rest : Place) :
    left.disk.kind? (destination left root ++ rest) =
      right.disk.kind? (destination left root ++ rest) :=
  alike.kind?_eq (visible_below left root rest)

/-- Both machines walk alike along a beginning of a path below the root. -/
theorem walk_eq (alike : Alike root left right) (areSteps : AreSteps steps)
    (beginning : upper <+: segments root ++ steps) (key : String) :
    upper.foldlM (enter left.disk) (left.start (hostPath root key)) =
      upper.foldlM (enter right.disk) (right.start (hostPath root key)) := by
  rw [start_hostPath alike.nonempty, start_hostPath alike.nonempty, ← alike.start_eq]
  apply foldlM_enter_congr
  intro shorter inside
  exact alike.kind?_eq (visible_of_beginning areSteps (inside.trans beginning))

/-- A walk that arrives does so at a visible place. -/
theorem visible_of_leads (alike : Alike root left right) (areSteps : AreSteps steps) {disk : Disk}
    (beginning : upper <+: segments root ++ steps) {key : String}
    (leads : Leads disk (right.start (hostPath root key)) upper place) : Visible left root place := by
  rw [start_hostPath alike.nonempty, ← alike.start_eq] at leads
  rw [eq_follow_of_leads leads]
  exact visible_of_beginning areSteps beginning

theorem locate_eq (alike : Alike root left right) (areSteps : AreSteps steps) :
    left.locate (hostPath root (Key.text steps)) = right.locate (hostPath root (Key.text steps)) := by
  have whole := List.prefix_refl (segments root ++ steps)
  have path := segments_hostPath root areSteps
  apply locate_congr
  · rw [path]
    exact alike.walk_eq areSteps whole _
  · intro place leads
    rw [path] at leads
    exact alike.kind?_eq (alike.visible_of_leads areSteps whole leads)

theorem contents_eq (alike : Alike root left right) (areSteps : AreSteps steps) :
    left.contents (hostPath root (Key.text steps)) =
      right.contents (hostPath root (Key.text steps)) := by
  have whole := List.prefix_refl (segments root ++ steps)
  have path := segments_hostPath root areSteps
  apply contents_congr
  · rw [path]
    exact alike.walk_eq areSteps whole _
  · intro place leads
    rw [path] at leads
    exact alike.stands place (alike.visible_of_leads areSteps whole leads)

theorem locateParent_eq (alike : Alike root left right) (areSteps : AreSteps steps) :
    left.locateParent (hostPath root (Key.text steps)) =
      right.locateParent (hostPath root (Key.text steps)) := by
  have shorter : (segments root ++ steps).dropLast <+: segments root ++ steps :=
    List.dropLast_prefix _
  have path := segments_hostPath root areSteps
  have walks := alike.walk_eq areSteps shorter (Key.text steps)
  unfold locateParent
  dsimp only
  rw [path, walks]
  cases arrives : (segments root ++ steps).dropLast.foldlM (enter right.disk)
      (right.start (hostPath root (Key.text steps))) with
  | error error => rfl
  | ok place =>
    dsimp only [Bind.bind, Except.bind]
    rw [alike.kind?_eq (alike.visible_of_leads areSteps shorter arrives)]

end Alike

/-- The place where a path below the root leads. -/
theorem place_of_locate {kind : Kind} (nonempty : root ≠ "") (areSteps : AreSteps steps)
    (located : machine.locate (hostPath root (Key.text steps)) = .ok (place, kind)) :
    place = destination machine root ++ steps := by
  have leads := (leads_of_locate located).2.2.1
  rw [segments_hostPath root areSteps, start_hostPath nonempty] at leads
  rw [eq_follow_of_leads leads, follow_hostPath machine root areSteps]

/-- The last step of a path below the root is looked up where the others lead. -/
theorem parent_of_locateParent (nonempty : root ≠ "") (areSteps : AreSteps (steps ++ [name]))
    (located : machine.locateParent (hostPath root (Key.text (steps ++ [name]))) =
      .ok (parent, some last)) :
    parent = destination machine root ++ steps ∧ last = name ∧
      machine.disk.kind? parent = some .directory := by
  rcases leads_of_locateParent located with ⟨_, leads, directory, isLast, _⟩
  rw [segments_hostPath root areSteps, ← List.append_assoc] at leads isLast
  rw [List.dropLast_concat, start_hostPath nonempty] at leads
  rw [List.getLast?_concat] at isLast
  have areUpper := areSteps.of_beginning (List.prefix_append steps [name])
  refine ⟨?_, (Option.some.inj isLast).symm, directory⟩
  rw [eq_follow_of_leads leads, follow_hostPath machine root areUpper]

/-! ## Changes of machines that look alike -/

/-- Two changes fail alike, or leave machines that are related. -/
inductive Together (related : Machine → Machine → Prop) :
    Except HostError Machine → Except HostError Machine → Prop where
  | ok {left right : Machine} (holds : related left right) : Together related (.ok left) (.ok right)
  | error (error : HostError) : Together related (.error error) (.error error)

theorem Together.bind {α : Type} {related : Machine → Machine → Prop} {first : Except HostError α}
    {leftNext rightNext : α → Except HostError Machine}
    (later : ∀ value, first = .ok value → Together related (leftNext value) (rightNext value)) :
    Together related (first >>= leftNext) (first >>= rightNext) := by
  cases first with
  | error error => exact .error error
  | ok value => exact later value rfl

/-- Changes that branch alike. -/
theorem Together.ite {related : Machine → Machine → Prop} {condition : Prop} [Decidable condition]
    {left leftElse right rightElse : Except HostError Machine}
    (holds : condition → Together related left right)
    (fails : ¬ condition → Together related leftElse rightElse) :
    Together related (if condition then left else leftElse)
      (if condition then right else rightElse) := by
  by_cases decided : condition
  · rw [if_pos decided, if_pos decided]
    exact holds decided
  · rw [if_neg decided, if_neg decided]
    exact fails decided

namespace Alike

/-- An item that is put at the same place below the root. -/
theorem put {item : Item} {leftDisk rightDisk : Disk} (alike : Alike root left right)
    (areSteps : AreSteps steps)
    (putLeft : ∀ other, leftDisk.get? other =
      if other = destination left root ++ steps then some item else left.disk.get? other)
    (putRight : ∀ other, rightDisk.get? other =
      if other = destination left root ++ steps then some item else right.disk.get? other) :
    Alike root { left with disk := leftDisk } { right with disk := rightDisk } where
  nonempty := alike.nonempty
  here := alike.here
  stands := by
    intro other visible
    dsimp only
    rw [putLeft, putRight, alike.stands other visible]
  named := by
    intro rest found stands
    have stands : leftDisk.get? (destination left root ++ rest) = some found := stands
    rw [putLeft] at stands
    split at stands
    · rename_i same
      exact List.append_cancel_left same ▸ areSteps
    · exact alike.named rest found stands

/-- The same subtree that is removed below the root. -/
theorem remove (alike : Alike root left right) (nonempty : destination left root ++ steps ≠ []) :
    Alike root { left with disk := left.disk.remove (destination left root ++ steps) }
      { right with disk := right.disk.remove (destination left root ++ steps) } where
  nonempty := alike.nonempty
  here := alike.here
  stands := by
    intro other visible
    dsimp only
    rw [Disk.get?_remove nonempty, Disk.get?_remove nonempty, alike.stands other visible]
  named := by
    intro rest found stands
    have stands : (left.disk.remove (destination left root ++ steps)).get?
        (destination left root ++ rest) = some found := stands
    rw [Disk.get?_remove nonempty] at stands
    split at stands
    · cases stands
    · exact alike.named rest found stands

theorem parents (alike : Alike root left right)
    (directory : right.disk.kind? (destination left root ++ steps) = some .directory) :
    left.disk.kind? (destination left root ++ (steps ++ [name])).dropLast = some .directory ∧
      right.disk.kind? (destination left root ++ (steps ++ [name])).dropLast = some .directory := by
  rw [← List.append_assoc, List.dropLast_concat, alike.kind?_below]
  exact ⟨directory, directory⟩

theorem write (alike : Alike root left right) (areSteps : AreSteps (steps ++ [name])) :
    Together (Alike root) (left.write (hostPath root (Key.text (steps ++ [name]))) bytes)
      (right.write (hostPath root (Key.text (steps ++ [name]))) bytes) := by
  rw [Machine.write, Machine.write, alike.locateParent_eq areSteps]
  apply Together.bind
  intro _ _
  apply Together.bind
  rintro ⟨parent, last⟩ located
  cases last with
  | none => exact .error .isADirectory
  | some last =>
  rcases parent_of_locateParent alike.nonempty areSteps located with ⟨rfl, rfl, directory⟩
  rw [← alike.destination_eq] at directory ⊢
  dsimp only
  rw [endsWithSlash_hostPath areSteps (by simp), if_neg Bool.false_ne_true]
  apply Together.bind
  intro _ _
  rw [List.append_assoc, alike.kind?_below]
  refine .ite (fun _ => .error .isADirectory) fun free => ?_
  have freeLeft : left.disk.kind? (destination left root ++ (steps ++ [last])) ≠
      some .directory := by rwa [alike.kind?_below]
  exact .ok (alike.put areSteps
    (fun _ => Disk.get?_putFile (alike.parents directory).1 freeLeft)
    fun _ => Disk.get?_putFile (alike.parents directory).2 free)

theorem makeDirectory (alike : Alike root left right) (areSteps : AreSteps (steps ++ [name])) :
    Together (Alike root) (left.makeDirectory (hostPath root (Key.text (steps ++ [name]))))
      (right.makeDirectory (hostPath root (Key.text (steps ++ [name])))) := by
  rw [Machine.makeDirectory, Machine.makeDirectory, alike.locateParent_eq areSteps]
  apply Together.bind
  intro _ _
  apply Together.bind
  rintro ⟨parent, last⟩ located
  cases last with
  | none => exact .error .alreadyExists
  | some last =>
  rcases parent_of_locateParent alike.nonempty areSteps located with ⟨rfl, rfl, directory⟩
  rw [← alike.destination_eq] at directory ⊢
  apply Together.bind
  intro _ _
  dsimp only
  rw [List.append_assoc, alike.kind?_below]
  refine .ite (fun _ => .error .alreadyExists) fun taken => ?_
  have free : right.disk.kind? (destination left root ++ (steps ++ [last])) = none := by
    simpa using taken
  have freeLeft : left.disk.kind? (destination left root ++ (steps ++ [last])) = none := by
    rwa [alike.kind?_below]
  exact .ok (alike.put areSteps
    (fun _ => Disk.get?_makeDirectory (alike.parents directory).1 freeLeft)
    fun _ => Disk.get?_makeDirectory (alike.parents directory).2 free)

theorem removeFile (alike : Alike root left right) (areSteps : AreSteps steps)
    (nonempty : steps ≠ []) :
    Together (Alike root) (left.removeFile (hostPath root (Key.text steps)))
      (right.removeFile (hostPath root (Key.text steps))) := by
  rw [Machine.removeFile, Machine.removeFile, alike.locate_eq areSteps]
  apply Together.bind
  rintro ⟨place, kind⟩ located
  have place_eq := place_of_locate alike.nonempty areSteps located
  rw [← alike.destination_eq] at place_eq
  subst place_eq
  cases kind with
  | directory => exact .error .isADirectory
  | file => exact .ok (alike.remove (by simp [nonempty]))

theorem removeTree (alike : Alike root left right) (areSteps : AreSteps steps)
    (nonempty : steps ≠ []) :
    Together (Alike root) (left.removeTree (hostPath root (Key.text steps)))
      (right.removeTree (hostPath root (Key.text steps))) := by
  rw [Machine.removeTree, Machine.removeTree, alike.locate_eq areSteps]
  apply Together.bind
  rintro ⟨place, kind⟩ located
  have place_eq := place_of_locate alike.nonempty areSteps located
  rw [← alike.destination_eq] at place_eq
  subst place_eq
  cases kind with
  | file => exact .error .notADirectory
  | directory => exact .ok (alike.remove (by simp [nonempty]))

/-- The same directory below the root lists the same, perhaps in another order. -/
theorem children_perm (alike : Alike root left right) (rest : Place) :
    (left.disk.children (destination left root ++ rest)).Perm
      (right.disk.children (destination left root ++ rest)) := by
  apply Disk.children_perm
  intro name
  rw [List.append_assoc, alike.kind?_below]

/-- Names that the host lists are steps. -/
theorem isStep_of_mem_children {rest : Place} {child : String × Kind}
    (alike : Alike root left right)
    (member : child ∈ left.disk.children (destination left root ++ rest)) : IsStep child.1 := by
  have stands := Disk.mem_children_iff.mp member
  rw [List.append_assoc] at stands
  rcases Option.map_eq_some_iff.mp stands with ⟨item, found, _⟩
  exact alike.named _ item found child.1 (List.mem_append_right _ (List.mem_singleton_self child.1))

/-- Listing a path below the root fails on both machines alike, or on none. -/
theorem listed_cases (alike : Alike root left right) (areSteps : AreSteps steps) :
    (∃ error, left.listed (hostPath root (Key.text steps)) = .error error ∧
      right.listed (hostPath root (Key.text steps)) = .error error) ∨
    (left.listed (hostPath root (Key.text steps)) =
        .ok (left.disk.children (destination left root ++ steps)) ∧
      right.listed (hostPath root (Key.text steps)) =
        .ok (right.disk.children (destination left root ++ steps))) := by
  have same := alike.locate_eq areSteps
  cases located : right.locate (hostPath root (Key.text steps)) with
  | error error =>
    rw [located] at same
    rw [listed, listed, same, located]
    exact .inl ⟨error, rfl, rfl⟩
  | ok found =>
    rcases found with ⟨place, kind⟩
    rw [located] at same
    cases kind with
    | file =>
      rw [listed, listed, same, located]
      exact .inl ⟨.notADirectory, rfl, rfl⟩
    | directory =>
      have place_eq := place_of_locate alike.nonempty areSteps same
      subst place_eq
      exact .inr ⟨listed_of_directory same, listed_of_directory located⟩

theorem children_eq_nil_iff (alike : Alike root left right) (rest : Place) :
    left.disk.children (destination left root ++ rest) = [] ↔
      right.disk.children (destination left root ++ rest) = [] := by
  rw [← List.length_eq_zero_iff, (alike.children_perm rest).length_eq, List.length_eq_zero_iff]

/-- The same subtree that is moved below the root. -/
theorem move {source target : List String} {old new : Place} (alike : Alike root left right)
    (areTarget : AreSteps (target ++ [name]))
    (directory : right.disk.kind? (destination left root ++ target) = some .directory)
    (old_eq : old = destination left root ++ source)
    (new_eq : new = destination left root ++ (target ++ [name]))
    (outside : ¬ old <+: new) (notAbove : ¬ new <+: old) :
    Alike root { left with disk := left.disk.move old new }
      { right with disk := right.disk.move old new } := by
  have nonempty : new ≠ [] := by simp [new_eq]
  have parents : left.disk.kind? new.dropLast = some .directory ∧
      right.disk.kind? new.dropLast = some .directory := by
    rw [new_eq]
    exact alike.parents directory
  have foundLeft : ∀ other, (left.disk.move old new).get? other =
      if new <+: other then left.disk.get? (old ++ other.drop new.length)
      else if old <+: other then none else left.disk.get? other :=
    fun _ => Disk.get?_move_tree nonempty parents.1 outside notAbove
  have foundRight : ∀ other, (right.disk.move old new).get? other =
      if new <+: other then right.disk.get? (old ++ other.drop new.length)
      else if old <+: other then none else right.disk.get? other :=
    fun _ => Disk.get?_move_tree nonempty parents.2 outside notAbove
  refine ⟨alike.nonempty, alike.here, ?_, ?_⟩
  · intro other visible
    dsimp only
    rw [foundLeft, foundRight, alike.stands other visible, old_eq, List.append_assoc,
      alike.stands _ (visible_below left root _)]
  · intro rest item stands
    have stands : (left.disk.move old new).get? (destination left root ++ rest) = some item := stands
    rw [foundLeft] at stands
    split at stands
    · rename_i inside
      rw [new_eq] at inside
      rcases (List.prefix_append_right_inj _).mp inside with ⟨deeper, rfl⟩
      rw [← List.append_assoc, ← new_eq, List.drop_left, old_eq, List.append_assoc] at stands
      have areDeeper := alike.named _ item stands
      intro step member
      rcases List.mem_append.mp member with early | late
      · exact areTarget step early
      · exact areDeeper step (List.mem_append_right _ late)
    · split at stands
      · cases stands
      · exact alike.named rest item stands

theorem rename {source target : List String} {sourceName : String} (alike : Alike root left right)
    (areSource : AreSteps (source ++ [sourceName])) (areTarget : AreSteps (target ++ [name])) :
    Together (Alike root)
      (left.rename (hostPath root (Key.text (source ++ [sourceName])))
        (hostPath root (Key.text (target ++ [name]))))
      (right.rename (hostPath root (Key.text (source ++ [sourceName])))
        (hostPath root (Key.text (target ++ [name])))) := by
  rw [Machine.rename, Machine.rename, alike.locateParent_eq areSource,
    alike.locateParent_eq areTarget]
  apply Together.bind
  intro _ _
  apply Together.bind
  intro _ _
  apply Together.bind
  rintro ⟨sourceParent, sourceLast⟩ sourceLocated
  apply Together.bind
  rintro ⟨targetParent, targetLast⟩ targetLocated
  cases sourceLast with
  | none => exact .error .busy
  | some sourceLast =>
  cases targetLast with
  | none => exact .error .busy
  | some targetLast =>
  rcases parent_of_locateParent alike.nonempty areSource sourceLocated with ⟨rfl, rfl, _⟩
  rcases parent_of_locateParent alike.nonempty areTarget targetLocated with ⟨rfl, rfl, directory⟩
  rw [← alike.destination_eq] at directory ⊢
  apply Together.bind
  intro _ _
  dsimp only
  rw [List.append_assoc, List.append_assoc, alike.kind?_below, alike.kind?_below]
  cases right.disk.kind? (destination left root ++ (source ++ [sourceLast])) with
  | none => exact .error .notFound
  | some kind =>
  apply Together.bind
  intro _ _
  refine .ite (fun _ => .error .notADirectory) fun _ => ?_
  refine .ite (fun _ => .error .invalidArgument) fun outside => ?_
  refine .ite (fun _ => .error .notEmpty) fun notAbove => ?_
  refine .ite (fun _ => .ok alike) fun different => ?_
  -- neither place is inside the other, so that both machines move the same subtree
  have apart : ∀ {first base parent : Place} {last : String}, ¬ first.isPrefixOf (base ++ parent) = true →
      first ≠ base ++ (parent ++ [last]) → ¬ first <+: base ++ (parent ++ [last]) := by
    intro first base parent last free different inside
    rw [← List.append_assoc] at different inside
    rcases List.prefix_concat_iff.mp inside with whole | shorter
    · exact different whole
    · exact free (List.isPrefixOf_iff_prefix.mpr shorter)
  have moved := alike.move areTarget directory rfl rfl (apart outside different)
    (apart notAbove (Ne.symm different))
  cases right.disk.kind? (destination left root ++ (target ++ [targetLast])) with
  | none => cases kind <;> exact .ok moved
  | some occupied =>
    cases kind with
    | file =>
      cases occupied with
      | file => exact .ok moved
      | directory => exact .error .isADirectory
    | directory =>
      cases occupied with
      | file => exact .error .notADirectory
      | directory =>
        dsimp only
        by_cases empty : right.disk.children (destination left root ++ (target ++ [targetLast])) = []
        · rw [if_neg (not_not.mpr ((alike.children_eq_nil_iff _).mpr empty)),
            if_neg (not_not.mpr empty)]
          exact .ok moved
        · rw [if_pos (fun none => empty ((alike.children_eq_nil_iff _).mp none)), if_pos empty]
          exact .error .notEmpty

end Alike

end Native
end SaveTree
