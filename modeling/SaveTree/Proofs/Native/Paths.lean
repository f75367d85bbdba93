import SaveTree.Native.Tree
import SaveTree.Proofs.Host.Directories
import SaveTree.Proofs.Host.Subtree
import SaveTree.Proofs.Key.Steps
import SaveTree.Proofs.Program.Attempt

namespace SaveTree

/-!
# Host paths of keys

The host path of a key leads to the root and from there along the steps of the
key.  What a call on such a path gives, and the machine it leaves, is said here
once for each call.
-/

namespace Host.Location

/-- A segment that leads one place down. -/
structure IsStep (segment : String) : Prop where
  nonempty : segment ≠ ""
  not_dot : segment ≠ "."
  not_up : segment ≠ ".."
  no_slash : '/' ∉ segment.toList

theorem isStep_of_isName {name : String} (isName : Path.IsName name.toList) : IsStep name where
  nonempty := Key.ne_empty_of_isName isName
  not_dot := by
    rintro rfl
    exact isName.not_dot rfl
  not_up := by
    rintro rfl
    exact isName.not_dots rfl
  no_slash := isName.no_slash

/-- Every segment leads one place down. -/
def AreSteps (segments : List String) : Prop :=
  ∀ segment ∈ segments, IsStep segment

variable {steps upper : List String}

theorem areSteps_of_areNames (areNames : Key.AreNames steps) : AreSteps steps :=
  fun step member => isStep_of_isName (areNames step member)

theorem AreSteps.of_beginning (areSteps : AreSteps steps) (beginning : upper <+: steps) :
    AreSteps upper :=
  fun step member => areSteps step (beginning.subset member)

/-- The segments of a text of steps are these steps. -/
theorem segments_text (areSteps : AreSteps steps) : segments (Key.text steps) = steps := by
  have clean : ∀ part ∈ steps.map String.toList, '/' ∉ part := by
    intro part member
    rcases List.mem_map.mp member with ⟨step, inside, rfl⟩
    exact (areSteps step inside).no_slash
  have kept : (steps.map String.toList).filter (· ≠ []) = steps.map String.toList := by
    apply List.filter_eq_self.mpr
    intro part member
    rcases List.mem_map.mp member with ⟨step, inside, rfl⟩
    apply decide_eq_true
    exact fun empty => (areSteps step inside).nonempty (String.toList_inj.mp empty)
  rw [segments_eq, Key.text, Key.toList_ofNames, segmentsOf_intercalate clean, kept,
    Key.map_ofList_toList]

/-- A text of steps does not end with a slash. -/
theorem getLast?_text (areSteps : AreSteps steps) : (Key.text steps).toList.getLast? ≠ some '/' := by
  rcases List.eq_nil_or_concat steps with empty | ⟨front, last, rfl⟩
  · rw [empty]
    exact nofun
  · rw [List.concat_eq_append] at areSteps ⊢
    have isStep := areSteps last (List.mem_append_right _ (List.mem_singleton_self last))
    have nonempty : last.toList ≠ [] :=
      fun empty => isStep.nonempty (String.toList_inj.mp empty)
    rw [Key.text, Key.toList_ofNames, List.map_append, List.map_singleton,
      Path.getLast?_intercalate_concat _ nonempty]
    intro slash
    exact isStep.no_slash (List.mem_of_getLast? slash)

end Host.Location

namespace Native

open Host Location Machine Program

variable {root : String} {steps upper : List String} {machine : Machine}

theorem hostPath_text (areSteps : AreSteps steps) (nonempty : steps ≠ []) :
    hostPath root (Key.text steps) = join root (Key.text steps) := by
  rw [hostPath, if_neg]
  rw [Key.text_eq_empty_iff fun step member => (areSteps step member).nonempty]
  exact nonempty

/-- The host path of a key leads to the root and on along the steps. -/
theorem segments_hostPath (root : String) (areSteps : AreSteps steps) :
    segments (hostPath root (Key.text steps)) = segments root ++ steps := by
  by_cases top : steps = []
  · rw [top, List.append_nil]
    rfl
  · rw [hostPath_text areSteps top, segments_join, segments_text areSteps]

/-- A path that leads somewhere is not empty. -/
theorem root_ne_empty {place : Place} {kind : Kind} (located : machine.locate root = .ok (place, kind)) :
    root ≠ "" := by
  rintro rfl
  cases (leads_of_locate located).2.1

theorem start_hostPath (nonempty : root ≠ "") (key : String) :
    machine.start (hostPath root key) = machine.start root := by
  rw [hostPath]
  split
  · rfl
  · rw [start, start, isAbsolute_join_of_ne nonempty]

theorem endsWithSlash_hostPath (areSteps : AreSteps steps) (nonempty : steps ≠ []) :
    endsWithSlash (hostPath root (Key.text steps)) = false := by
  have chars : (Key.text steps).toList ≠ [] := by
    intro empty
    have text := String.toList_inj.mp (empty.trans String.toList_empty.symm)
    rw [Key.text_eq_empty_iff fun step member => (areSteps step member).nonempty] at text
    exact nonempty text
  have last : ∀ front, (front ++ (Key.text steps).toList).getLast? =
      (Key.text steps).toList.getLast? := by
    intro front
    rw [List.getLast?_append, List.getLast?_eq_some_getLast chars]
    rfl
  rw [hostPath_text areSteps nonempty, endsWithSlash, join]
  apply decide_eq_false
  split
  · rw [String.toList_append, last]
    exact getLast?_text areSteps
  · rw [String.toList_append, last]
    exact getLast?_text areSteps

/-- The host path of a key begins with that of every key above it. -/
theorem hostPath_isPrefix (areSteps : AreSteps steps) (beginning : upper <+: steps) :
    (hostPath root (Key.text upper)).toList <+: (hostPath root (Key.text steps)).toList := by
  rcases beginning with ⟨rest, rfl⟩
  by_cases whole : rest = []
  · have same : upper ++ rest = upper := by rw [whole, List.append_nil]
    exact same.symm ▸ List.prefix_refl _
  by_cases top : upper = []
  · subst top
    rw [hostPath_text areSteps (by simpa using whole)]
    exact isPrefix_join root _
  · have areUpper := areSteps.of_beginning (List.prefix_append upper rest)
    rw [hostPath_text areSteps (by simp [top]), hostPath_text areUpper top, join, join]
    have texts := Key.toList_text_append top whole
    have longer : ∀ front : String,
        (front ++ Key.text upper).toList <+: (front ++ Key.text (upper ++ rest)).toList := by
      intro front
      rw [String.toList_append, String.toList_append, texts, List.prefix_append_right_inj]
      exact List.prefix_append _ _
    split
    · exact longer root
    · exact longer (root ++ "/")

/-! ## Attempts of single calls -/

/-- What is known of a place after a look at it. -/
def seen : Except HostError (Place × Kind) → Except FsError (Option Kind)
  | .ok (_, kind) => .ok (some kind)
  | .error .notFound => .ok none
  | .error error => .error (.host error)

/-- What a change gives and leaves, as an operation sees it. -/
def settled (machine : Machine) : Except HostError Machine → Except FsError Unit × Machine
  | .ok after => (.ok (), after)
  | .error error => (.error (.host error), machine)

section Calls

variable (machine : Machine) (root path : String)

theorem attempt_kind? (key : String) :
    attempt Machine.serve (kind? root key) machine =
      (seen (machine.locate (hostPath root key)), machine) := by
  obtain ⟨next, asked, answers, missing, fails⟩ :
      ∃ next : Except HostError Kind → Host.Program (Except FsError (Option Kind)),
        (kind? root key).run = .call (.kind (hostPath root key)) next ∧
        (∀ kind, next (.ok kind) = .done (.ok (some kind))) ∧
        next (.error .notFound) = .done (.ok none) ∧
        ∀ error, error ≠ .notFound → next (.error error) = .done (.error (.host error)) := by
    refine ⟨_, rfl, fun kind => rfl, rfl, ?_⟩
    intro error different
    cases error <;> first | rfl | exact absurd rfl different
  have replied : attempt Machine.serve (kind? root key) machine =
      (Program.run Machine.serve (next ((machine.locate (hostPath root key)).map Prod.snd)) :
        StateM Machine (Except FsError (Option Kind))).run machine := by
    rw [attempt, asked]
    rfl
  rw [replied]
  cases machine.locate (hostPath root key) with
  | ok found =>
    rw [Except.map, answers]
    rfl
  | error error =>
    by_cases gone : error = .notFound
    · rw [gone, Except.map, missing]
      rfl
    · rw [Except.map, fails error gone, seen]
      · rfl
      · exact gone

theorem attempt_read :
    attempt Machine.serve (onHost (Host.read path)) machine =
      ((machine.contents path).mapError .host, machine) :=
  rfl

theorem attempt_list :
    attempt Machine.serve (onHost (Host.list path)) machine =
      ((machine.listed path).mapError .host, machine) :=
  rfl

/-- A call that changes the machine. -/
theorem attempt_change  (result : Machine → Except HostError Machine)
    {action : Host.Action Unit}
    (served : attempt Machine.serve (onHost action) machine =
      ((((change result).run machine).1).mapError .host, ((change result).run machine).2)) :
    attempt Machine.serve (onHost action) machine = settled machine (result machine) := by
  rw [served, run_change]
  cases result machine <;> rfl

theorem attempt_write (bytes : ByteArray) :
    attempt Machine.serve (onHost (Host.write path bytes)) machine =
      settled machine (machine.write path bytes) :=
  attempt_change machine (·.write path bytes) rfl

theorem attempt_makeDirectory :
    attempt Machine.serve (onHost (Host.makeDirectory path)) machine =
      settled machine (machine.makeDirectory path) :=
  attempt_change machine (·.makeDirectory path) rfl

theorem attempt_removeFile :
    attempt Machine.serve (onHost (Host.removeFile path)) machine =
      settled machine (machine.removeFile path) :=
  attempt_change machine (·.removeFile path) rfl

theorem attempt_removeTree :
    attempt Machine.serve (onHost (Host.removeTree path)) machine =
      settled machine (machine.removeTree path) :=
  attempt_change machine (·.removeTree path) rfl

theorem attempt_rename (target : String) :
    attempt Machine.serve (onHost (Host.rename path target)) machine =
      settled machine (machine.rename path target) :=
  attempt_change machine (·.rename path target) rfl

end Calls

end Native
end SaveTree
