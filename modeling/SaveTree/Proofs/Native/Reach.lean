import SaveTree.Proofs.Native.Paths

namespace SaveTree
namespace Native

open Host Location Machine

/-!
# Paths below a root that is there

If the root is a directory and the host admits a path below it, then the path
leads to what stands under its steps.  If nothing stands there, the walk ends at
the first name that is missing, or at a file that is in its way.
-/

variable {root name : String} {steps upper : List String} {machine : Machine} {place : Place}
  {kind : Kind}

/-- The host admits the path of these steps: no byte of it is zero, and neither
the path nor a name in it is too long. -/
structure Fits (root : String) (steps : List String) : Prop where
  clean : checkBytes (hostPath root (Key.text steps)) = .ok ()
  short : admitLength (hostPath root (Key.text steps)) = .ok ()
  admitted : ∀ step ∈ steps, admitName step = .ok ()

theorem hostPath_ne_empty (nonempty : root ≠ "") (key : String) : hostPath root key ≠ "" := by
  rw [hostPath]
  split
  · exact nonempty
  · intro empty
    have beginning := isPrefix_join root key
    rw [empty] at beginning
    exact nonempty (String.toList_inj.mp (List.prefix_nil.mp beginning))

/-- The paths above an admitted path are admitted. -/
theorem Fits.of_beginning (fits : Fits root steps) (nonempty : root ≠ "") (areSteps : AreSteps steps)
    (beginning : upper <+: steps) : Fits root upper where
  clean := checkBytes_of_isPrefix (hostPath_isPrefix areSteps beginning) fits.clean
  short := admitLength_of_isPrefix (hostPath_isPrefix areSteps beginning)
    (hostPath_ne_empty nonempty _) fits.short
  admitted := fun step member => fits.admitted step (beginning.subset member)

section Located

variable (located : machine.locate root = .ok (place, .directory)) (areSteps : AreSteps steps)
  (fits : Fits root steps)

include areSteps fits in
theorem isWalkable : ∀ step ∈ steps, IsWalkable step :=
  fun step member =>
    ⟨(areSteps step member).not_dot, (areSteps step member).not_up, fits.admitted step member⟩

include located areSteps

/-- The walk along a path below the root goes on from the root. -/
theorem walk_hostPath :
    (segments (hostPath root (Key.text steps))).foldlM (enter machine.disk)
        (machine.start (hostPath root (Key.text steps))) =
      steps.foldlM (enter machine.disk) place := by
  have arrives : (segments root).foldlM (enter machine.disk) (machine.start root) = .ok place :=
    (leads_of_locate located).2.2.1
  rw [segments_hostPath root areSteps, start_hostPath (root_ne_empty located), List.foldlM_append,
    arrives]
  rfl

include fits

theorem locate_of_walk {error : HostError}
    (stops : steps.foldlM (enter machine.disk) place = .error error) :
    machine.locate (hostPath root (Key.text steps)) = .error error := by
  rw [locate, fits.clean, fits.short, walk_hostPath located areSteps, stops]
  rfl

theorem locate_of_missing (missing : machine.disk.kind? (place ++ steps) = none)
    (clear : ∀ upper, upper <+: steps → machine.disk.kind? (place ++ upper) ≠ some .file) :
    machine.locate (hostPath root (Key.text steps)) = .error .notFound := by
  have directory := (leads_of_locate located).2.2.2
  exact locate_of_walk located areSteps fits
    (walk_of_missing (isWalkable areSteps fits) directory missing clear)

theorem locate_of_blocked (above : upper <+: steps) (proper : upper ≠ steps)
    (file : machine.disk.kind? (place ++ upper) = some .file) :
    machine.locate (hostPath root (Key.text steps)) = .error .notADirectory := by
  have directory := (leads_of_locate located).2.2.2
  exact locate_of_walk located areSteps fits
    (walk_of_blocked (isWalkable areSteps fits) directory above proper file)

theorem locate_of_stands (stands : machine.disk.kind? (place ++ steps) = some kind) :
    machine.locate (hostPath root (Key.text steps)) = .ok (place ++ steps, kind) := by
  have directory := (leads_of_locate located).2.2.2
  have leads : Leads machine.disk (machine.start (hostPath root (Key.text steps)))
      (segments (hostPath root (Key.text steps))) (place ++ steps) := by
    rw [Leads, walk_hostPath located areSteps]
    exact leads_names (isWalkable areSteps fits) directory stands
  cases kind with
  | directory => exact locate_directory fits.clean fits.short leads stands
  | file =>
    have nonempty : steps ≠ [] := by
      rintro rfl
      rw [List.append_nil, directory] at stands
      cases stands
    exact locate_file fits.clean fits.short leads stands (endsWithSlash_hostPath areSteps nonempty)

end Located

/-- The last step of a path below the root is looked up where the others lead. -/
theorem locateParent_of_stands (located : machine.locate root = .ok (place, .directory))
    (areSteps : AreSteps (steps ++ [name])) (fits : Fits root (steps ++ [name]))
    (parent : machine.disk.kind? (place ++ steps) = some .directory) :
    machine.locateParent (hostPath root (Key.text (steps ++ [name]))) =
      .ok (place ++ steps, some name) := by
  have beginning : steps <+: steps ++ [name] := List.prefix_append steps [name]
  have areUpper := areSteps.of_beginning beginning
  have upperFits := fits.of_beginning (root_ne_empty located) areSteps beginning
  have path := segments_hostPath root areSteps
  rw [← List.append_assoc] at path
  have leads : Leads machine.disk (machine.start (hostPath root (Key.text (steps ++ [name]))))
      (segments (hostPath root (Key.text (steps ++ [name])))).dropLast (place ++ steps) := by
    have upperLeads := (leads_of_locate (locate_of_stands located areUpper upperFits parent)).2.2.1
    rw [segments_hostPath root areUpper, start_hostPath (root_ne_empty located)] at upperLeads
    rw [path, List.dropLast_concat, start_hostPath (root_ne_empty located)]
    exact upperLeads
  have isStep := areSteps name (List.mem_append_right _ (List.mem_singleton_self name))
  have named : lastName? (hostPath root (Key.text (steps ++ [name]))) = some name := by
    apply lastName?_eq_some_iff.mpr
    rw [path, List.getLast?_concat]
    exact ⟨rfl, isStep.not_dot, isStep.not_up⟩
  rw [locateParent_of_leads fits.short leads parent, named]

end Native
end SaveTree
