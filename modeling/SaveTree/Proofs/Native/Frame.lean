import SaveTree.Proofs.Native.Simulation

namespace SaveTree

/-!
# What operations leave alone

An operation changes nothing but what stands strictly below its root.  Each of its
changes is a call on a path of steps, and such a path leads below the root or
nowhere.  That holds as well when the path to the root has stopped leading there,
because what it leads to, if anything, depends on its text alone.

So an operation keeps a machine within its frame, and so do operations one after
the other.
-/

/-- A place outside both subtrees does not notice that one of them is moved to the
other. -/
theorem Host.Disk.get?_move_of_apart {disk : Disk} {source target other : Place}
    (notOld : ¬ source <+: other) (notNew : ¬ target <+: other) :
    (disk.move source target).get? other = disk.get? other := by
  by_cases fits : target ≠ [] ∧ Holds (disk.remove target).items target.dropLast ∧ ¬ source <+: target
  · rcases fits with ⟨nonempty, holds, outside⟩
    have parent : disk.kind? target.dropLast = some .directory := by
      rw [holds_iff, kind?_eq_directory_iff, get?_remove nonempty,
        if_neg (not_prefix_dropLast nonempty)] at holds
      exact kind?_eq_directory_iff.mpr holds
    by_cases top : other = []
    · rw [top]
      rfl
    rw [get?_of_ne_nil top, get?_of_ne_nil top]
    apply Option.ext
    intro item
    rw [get?_move_items_iff nonempty parent outside]
    constructor
    · rintro ⟨old, stood, _, moved_eq⟩
      by_cases inside : source <+: old
      · exact absurd (moved_eq ▸ target_above_moved inside) notNew
      · rw [moved_outside inside] at moved_eq
        exact moved_eq ▸ stood
    · intro stood
      exact ⟨other, stood, notNew, moved_outside notOld⟩
  · rw [move, dif_neg fits]

namespace Native

open Host Location Machine Program

variable {α β : Type} {root path name : String} {steps : List String} {place : Place}
  {machine before between last : Machine} {bytes : ByteArray}

/-- Nothing differs but strictly below the root, where all names are steps. -/
structure Framed (root : String) (before after : Machine) : Prop where
  here : after.here = before.here
  outside : ∀ other, Outside (destination before root) other →
    after.disk.get? other = before.disk.get? other
  /-- What stands below the root stands under steps. -/
  alike : Alike root after after

namespace Framed

theorem refl (alike : Alike root machine machine) : Framed root machine machine :=
  ⟨rfl, fun _ _ => rfl, alike⟩

theorem destination_eq (framed : Framed root before last) :
    destination last root = destination before root := by
  rw [destination, destination, start_of_here framed.here]

theorem trans (first : Framed root before between) (second : Framed root between last) :
    Framed root before last where
  here := second.here.trans first.here
  outside := by
    intro other outside
    rw [second.outside other (first.destination_eq.symm ▸ outside), first.outside other outside]
  alike := second.alike

end Framed

/-! ## Single changes -/

section Changes

variable (alike : Alike root machine machine)

include alike

/-- A file or a directory that is put somewhere below the root. -/
theorem framed_of_put {item : Item} {disk : Disk} (areSteps : AreSteps steps) (nonempty : steps ≠ [])
    (found : ∀ other, disk.get? other =
      if other = destination machine root ++ steps then some item else machine.disk.get? other) :
    Framed root machine { machine with disk := disk } := by
  refine ⟨rfl, ?_, alike.put areSteps found found⟩
  intro other outside
  dsimp only
  rw [found, if_neg]
  rintro rfl
  exact outside.not_prefix_append nonempty (List.prefix_refl _)

theorem framed_of_write (areSteps : AreSteps (steps ++ [name]))
    (written : machine.write (hostPath root (Key.text (steps ++ [name]))) bytes = .ok last) :
    Framed root machine last := by
  rcases exists_of_write written with ⟨parent, segment, located, free, rfl⟩
  rcases parent_of_locateParent alike.nonempty areSteps located with ⟨rfl, rfl, directory⟩
  rw [List.append_assoc] at free ⊢
  exact framed_of_put alike areSteps (by simp)
    fun _ => Disk.get?_putFile (alike.parents directory).1 free

theorem framed_of_makeDirectory (areSteps : AreSteps (steps ++ [name]))
    (made : machine.makeDirectory (hostPath root (Key.text (steps ++ [name]))) = .ok last) :
    Framed root machine last := by
  rcases exists_of_makeDirectory made with ⟨parent, segment, _, _, located, free, rfl⟩
  rcases parent_of_locateParent alike.nonempty areSteps located with ⟨rfl, rfl, directory⟩
  rw [List.append_assoc] at free ⊢
  exact framed_of_put alike areSteps (by simp)
    fun _ => Disk.get?_makeDirectory (alike.parents directory).1 free

/-- A removal, of a file or of a whole directory. -/
theorem framed_of_remove (nonempty : steps ≠ []) :
    Framed root machine { machine with disk := machine.disk.remove (destination machine root ++ steps) } := by
  have top : destination machine root ++ steps ≠ [] := by simp [nonempty]
  refine ⟨rfl, ?_, alike.remove top⟩
  intro other outside
  rw [Disk.get?_remove top, if_neg (outside.not_prefix_append nonempty)]

theorem framed_of_removeFile (areSteps : AreSteps steps) (nonempty : steps ≠ [])
    (removed : machine.removeFile (hostPath root (Key.text steps)) = .ok last) :
    Framed root machine last := by
  rcases exists_of_bind removed with ⟨⟨place, kind⟩, located, removed⟩
  have place_eq := place_of_locate alike.nonempty areSteps located
  subst place_eq
  cases kind with
  | directory => cases removed
  | file =>
    cases removed
    exact framed_of_remove alike nonempty

theorem framed_of_removeTree (areSteps : AreSteps steps) (nonempty : steps ≠ [])
    (removed : machine.removeTree (hostPath root (Key.text steps)) = .ok last) :
    Framed root machine last := by
  rcases exists_of_bind removed with ⟨⟨place, kind⟩, located, removed⟩
  have place_eq := place_of_locate alike.nonempty areSteps located
  subst place_eq
  cases kind with
  | file => cases removed
  | directory =>
    cases removed
    exact framed_of_remove alike nonempty

theorem framed_of_rename {target : List String} {targetName : String}
    (areSteps : AreSteps (steps ++ [name])) (areTarget : AreSteps (target ++ [targetName]))
    (different : steps ++ [name] ≠ target ++ [targetName])
    (renamed : machine.rename (hostPath root (Key.text (steps ++ [name])))
      (hostPath root (Key.text (target ++ [targetName]))) = .ok last) :
    Framed root machine last := by
  have together := alike.rename areSteps areTarget
  rw [renamed] at together
  cases together with
  | ok alikeAfter =>
  rcases nonempty_renaming renamed with ⟨moving⟩
  have moves := moving.moves
  rcases parent_of_locateParent alike.nonempty areSteps moving.sourceLocated with ⟨source_eq, last_eq, _⟩
  rcases parent_of_locateParent alike.nonempty areTarget moving.targetLocated with
    ⟨target_eq, lastTarget_eq, _⟩
  rw [source_eq, last_eq, target_eq, lastTarget_eq, List.append_assoc, List.append_assoc] at moves
  rcases moves (fun same => different (List.append_cancel_left same)) with ⟨_, here, moved⟩
  refine ⟨here, ?_, alikeAfter⟩
  intro other outside
  rw [moved]
  exact Disk.get?_move_of_apart (outside.not_prefix_append (by simp))
    (outside.not_prefix_append (by simp))

end Changes

/-! ## Programs -/

/-- Whatever the program does, it does below the root. -/
def Frames (root : String) (program : Act α) : Prop :=
  ∀ machine, Alike root machine machine →
    Framed root machine (attempt Machine.serve program machine).2

namespace Frames

variable {program : Act α} {next : α → Act β}

/-- A program that changes nothing at all. -/
theorem of_unchanged (unchanged : ∀ machine, (attempt Machine.serve program machine).2 = machine) :
    Frames root program := by
  intro machine alike
  rw [unchanged]
  exact .refl alike

theorem pure (value : α) : Frames root (Pure.pure value : Act α) :=
  of_unchanged fun _ => rfl

theorem throw (error : FsError) : Frames root (MonadExcept.throw error : Act α) :=
  of_unchanged fun _ => rfl

theorem kind (key : String) : Frames root (kind? root key) :=
  of_unchanged fun machine => by rw [attempt_kind?]

theorem read (path : String) : Frames root (onHost (Host.read path)) :=
  of_unchanged fun machine => by rw [attempt_read]

theorem listed (path : String) : Frames root (onHost (Host.list path)) :=
  of_unchanged fun machine => by rw [attempt_list]

theorem bind (first : Frames root program) (later : ∀ value, Frames root (next value)) :
    Frames root (program >>= next) := by
  intro machine alike
  have framed := first machine alike
  cases ends : attempt Machine.serve program machine with
  | mk outcome between =>
  rw [ends] at framed
  cases outcome with
  | error error =>
    rw [attempt_bind_of_error ends]
    exact framed
  | ok value =>
    rw [attempt_bind_of_ok ends]
    exact framed.trans (later value between framed.alike)

theorem answer (first : Frames root program) (result : α → β) :
    Frames root (do return result (← program)) :=
  first.bind fun value => pure (result value)

/-- A path that is admitted, or nothing happens. -/
theorem require {next : String → Act β}
    (later : ∀ steps, Key.AreNames steps → steps ≠ [] → Frames root (next (Key.text steps))) :
    Frames root (do next (← (Key.require path : Except FsError String))) := by
  cases admitted : Key.require path with
  | error error => exact throw error
  | ok key =>
    rcases (Key.canonical_of_require admitted).exists_steps with ⟨steps, nonempty, areNames, rfl⟩
    exact later steps areNames nonempty

theorem ite {condition : Prop} [Decidable condition] {other : Act α}
    (holds : Frames root program) (fails : Frames root other) :
    Frames root (if condition then program else other) := by
  split
  · exact holds
  · exact fails

theorem forM {list : List β} {body : β → Act Unit} (each : ∀ item ∈ list, Frames root (body item)) :
    Frames root (list.forM body) := by
  induction list with
  | nil => exact pure ()
  | cons item rest ih =>
    apply bind (each item List.mem_cons_self)
    intro _
    exact ih fun other member => each other (.tail _ member)

theorem mapM {list : List α} {body : α → Act β} (each : ∀ item, Frames root (body item)) :
    Frames root (list.mapM body) := by
  induction list with
  | nil => exact pure []
  | cons item rest ih =>
    rw [List.mapM_cons]
    exact (each item).bind fun first => ih.answer fun others => first :: others

/-- One change, which is made or is refused. -/
theorem change {action : Host.Action Unit} {result : Machine → Except HostError Machine}
    (served : ∀ machine, attempt Machine.serve (onHost action) machine =
      settled machine (result machine))
    (framed : ∀ machine after, Alike root machine machine → result machine = .ok after →
      Framed root machine after) :
    Frames root (onHost action) := by
  intro machine alike
  rw [served]
  cases outcome : result machine with
  | error error => exact .refl alike
  | ok after => exact framed machine after alike outcome

theorem write (areNames : Key.AreNames steps) (nonempty : steps ≠ []) :
    Frames root (onHost (Host.write (hostPath root (Key.text steps)) bytes)) := by
  rcases Confined.exists_last areNames nonempty with ⟨front, last, rfl, areSteps⟩
  exact change (fun machine => attempt_write machine _ bytes)
    fun _ _ alike written => framed_of_write alike areSteps written

theorem makeDirectory (areNames : Key.AreNames steps) (nonempty : steps ≠ []) :
    Frames root (onHost (Host.makeDirectory (hostPath root (Key.text steps)))) := by
  rcases Confined.exists_last areNames nonempty with ⟨front, last, rfl, areSteps⟩
  exact change (fun machine => attempt_makeDirectory machine _)
    fun _ _ alike made => framed_of_makeDirectory alike areSteps made

theorem removeFile (areSteps : AreSteps steps) (nonempty : steps ≠ []) :
    Frames root (onHost (Host.removeFile (hostPath root (Key.text steps)))) :=
  change (fun machine => attempt_removeFile machine _)
    fun _ _ alike removed => framed_of_removeFile alike areSteps nonempty removed

theorem removeTree (areSteps : AreSteps steps) (nonempty : steps ≠ []) :
    Frames root (onHost (Host.removeTree (hostPath root (Key.text steps)))) :=
  change (fun machine => attempt_removeTree machine _)
    fun _ _ alike removed => framed_of_removeTree alike areSteps nonempty removed

theorem rename {target : List String} (areNames : Key.AreNames steps) (nonempty : steps ≠ [])
    (areTarget : Key.AreNames target) (nonemptyTarget : target ≠ []) (different : steps ≠ target) :
    Frames root (onHost (Host.rename (hostPath root (Key.text steps))
      (hostPath root (Key.text target)))) := by
  rcases Confined.exists_last areNames nonempty with ⟨front, last, rfl, areSteps⟩
  rcases Confined.exists_last areTarget nonemptyTarget with ⟨frontTarget, lastTarget, rfl, areStepsTarget⟩
  exact change (fun machine => attempt_rename machine _ _)
    fun _ _ alike renamed => framed_of_rename alike areSteps areStepsTarget different renamed

end Frames

/-! ## Operations -/

theorem ensureDirectories_frames (areNames : Key.AreNames steps) :
    Frames root (ensureDirectories root (Key.text steps)) := by
  rw [ensureDirectories, Key.chain_text areNames]
  apply Frames.forM
  intro place member
  rcases List.mem_map.mp member with ⟨upper, inside, rfl⟩
  rcases Key.mem_beginnings_iff.mp inside with ⟨nonempty, beginning⟩
  apply Frames.bind (.kind (Key.text upper))
  intro found
  cases found with
  | none => exact .makeDirectory (areNames.of_beginning beginning) nonempty
  | some kind =>
    cases kind with
    | file => exact .throw (.notADirectory (Key.text upper))
    | directory => exact .pure ()

theorem putFile_frames (areNames : Key.AreNames steps) (nonempty : steps ≠ []) :
    Frames root (putFile root (Key.text steps) bytes) := by
  rcases parent_text areNames nonempty with ⟨upper, areUpper, parent_eq⟩
  rw [putFile, parent_eq]
  apply Frames.bind (ensureDirectories_frames areUpper)
  intro _
  apply Frames.bind (.kind (Key.text steps))
  intro found
  exact .ite (.throw (.conflict (Key.text steps))) (.write areNames nonempty)

theorem bytesAt_frames (key : String) : Frames root (bytesAt root key) := by
  apply Frames.bind (.kind key)
  intro found
  exact .ite (.throw (.fileNotFound key)) (.read (hostPath root key))

theorem writeFile_frames : Frames root (writeFile root path bytes) :=
  .require fun _ areNames nonempty => putFile_frames areNames nonempty

theorem readText_frames : Frames root (readText root path) := by
  apply Frames.require
  intro steps _ _
  apply Frames.bind (bytesAt_frames (Key.text steps))
  intro bytes
  cases String.fromUTF8? bytes with
  | none => exact .throw (.invalidUtf8 (Key.text steps))
  | some text => exact .pure text

theorem readBytes_frames : Frames root (readBytes root path) :=
  .require fun steps _ _ => bytesAt_frames (Key.text steps)

theorem find_frames (path : String) : Frames root (find root path) :=
  .ite (.pure true) ((Frames.kind (Key.ofPath path)).answer Option.isSome)

theorem makeDirectory_frames {recursive : Bool} :
    Frames root (makeDirectory root path recursive) := by
  apply Frames.require
  intro steps areNames _
  have finish : Frames root (do
      if (← kind? root (Key.text steps)) = some .file then throw (.conflict (Key.text steps))
      ensureDirectories root (Key.text steps)) := by
    apply Frames.bind (.kind (Key.text steps))
    intro found
    exact .ite (.throw (.conflict (Key.text steps))) (ensureDirectories_frames areNames)
  cases recursive with
  | true => exact finish
  | false =>
    apply Frames.bind (find_frames (Key.parent (Key.text steps)))
    intro found
    cases found with
    | true => exact finish
    | false => exact .throw (.parentMissing (Key.parent (Key.text steps)))

theorem listLevels_frames {recursive : Bool} (levels : Nat) (key : String) :
    Frames root (listLevels root recursive levels key) := by
  induction levels generalizing key with
  | zero => exact .pure []
  | succ levels ih =>
    apply Frames.bind (.listed (hostPath root key))
    intro found
    apply Frames.mapM
    rintro ⟨name, kind⟩
    exact .ite ((ih _).answer fun children => Listed.mk _ name kind (some children)) (.pure _)

theorem list_frames {recursive : Bool} : Frames root (list root path recursive) := by
  apply Frames.bind (.kind (Key.ofPath path))
  intro found
  cases found with
  | none => exact .ite (.pure []) (.throw (.directoryNotFound (Key.ofPath path)))
  | some kind =>
    cases kind with
    | file => exact .pure []
    | directory => exact listLevels_frames deepest (Key.ofPath path)

theorem removeChild_frames {name : String} {kind : Kind} (isStep : IsStep name) :
    Frames root (removeChild root (name, kind)) := by
  rcases hostPath_name isStep root with ⟨single, path_eq⟩
  have nonempty := List.cons_ne_nil name []
  cases kind with
  | directory =>
    have removes : Frames root _ := .removeTree single nonempty
    rwa [path_eq] at removes
  | file =>
    have removes : Frames root _ := .removeFile single nonempty
    rwa [path_eq] at removes

/-- Emptying the root leaves the root itself. -/
theorem removeAll_frames : Frames root (removeAll root) := by
  rw [removeAll_eq]
  apply Frames.bind (.kind "")
  intro found
  refine .ite ?_ (.pure ())
  -- the names to be removed are known to be steps only because the root has listed them
  intro machine alike
  have outcome := attempt_list machine root
  have areNone : AreSteps [] := fun _ member => nomatch member
  have lists := alike.listed_cases areNone
  rw [List.append_nil] at lists
  rcases lists with ⟨error, fails, _⟩ | ⟨lists, _⟩
  · rw [show machine.listed root = _ from fails] at outcome
    rw [attempt_bind_of_error outcome]
    exact .refl alike
  · rw [show machine.listed root = _ from lists] at outcome
    rw [attempt_bind_of_ok outcome]
    refine Frames.forM ?_ machine alike
    rintro ⟨name, kind⟩ member
    rw [← List.append_nil (destination machine root)] at member
    exact removeChild_frames (alike.isStep_of_mem_children member)

theorem remove_frames {recursive : Bool} : Frames root (remove root path recursive) := by
  refine .ite ?_ (.require ?_)
  · cases recursive with
    | true => exact removeAll_frames
    | false => exact .throw .rootRemoval
  · intro steps areNames nonempty
    have areSteps := areSteps_of_areNames areNames
    apply Frames.bind (.kind (Key.text steps))
    intro found
    cases found with
    | none => exact .pure ()
    | some kind =>
      cases kind with
      | file => exact .removeFile areSteps nonempty
      | directory =>
        exact .ite (.throw (.directoryNotEmpty (Key.text steps))) (.removeTree areSteps nonempty)

theorem copy_frames {source target : String} : Frames root (copy root source target) := by
  apply Frames.require
  intro source _ _
  apply Frames.require
  intro target areTarget nonempty
  apply Frames.bind (bytesAt_frames (Key.text source))
  intro bytes
  exact putFile_frames areTarget nonempty

theorem rename_frames {source target : String} : Frames root (rename root source target) := by
  apply Frames.require
  intro source areSource nonemptySource
  apply Frames.require
  intro target areTarget nonempty
  rcases parent_text areTarget nonempty with ⟨upper, areUpper, parent_eq⟩
  rw [parent_eq]
  apply Frames.bind (.kind (Key.text source))
  intro found
  cases found with
  | none => exact .throw (.fileNotFound (Key.text source))
  | some kind =>
  dsimp only
  split
  · exact .pure ()
  rename_i different
  refine .ite (.throw (.moveIntoItself (Key.text source))) ?_
  apply Frames.bind (ensureDirectories_frames areUpper)
  intro _
  apply Frames.bind (.kind (Key.text target))
  intro occupied
  have moves : Frames root (onHost (Host.rename (hostPath root (Key.text source))
      (hostPath root (Key.text target)))) :=
    .rename areSource nonemptySource areTarget nonempty fun same => different (congrArg Key.text same)
  cases occupied with
  | none => exact moves
  | some occupied =>
    refine .ite (.throw (.conflict (Key.text target))) (.ite ?_ moves)
    apply Frames.bind (.listed (hostPath root (Key.text target)))
    intro found
    exact .ite (.throw (.destinationNotEmpty (Key.text target))) moves

theorem perform_frames (operation : Operation) : Frames root (perform root operation) := by
  cases operation with
  | writeText path text => exact writeFile_frames.answer fun _ => Answer.done
  | write path bytes => exact writeFile_frames.answer fun _ => Answer.done
  | readText path => exact readText_frames.answer Answer.text
  | read path => exact readBytes_frames.answer Answer.bytes
  | find path => exact (find_frames path).answer Answer.found
  | makeDirectory path recursive => exact makeDirectory_frames.answer fun _ => Answer.done
  | list path recursive => exact list_frames.answer Answer.listing
  | remove path recursive => exact remove_frames.answer fun _ => Answer.done
  | copy source target => exact copy_frames.answer fun _ => Answer.done
  | rename source target => exact rename_frames.answer fun _ => Answer.done

/-- Operations one after the other, whether they succeed or fail. -/
theorem after_framed (operations : List Operation) (alike : Alike root machine machine) :
    Framed root machine (after root operations machine) := by
  induction operations generalizing machine with
  | nil => exact .refl alike
  | cons operation rest ih =>
    have step := perform_frames operation machine alike
    exact step.trans (ih step.alike)

/-- From a root that is a directory on, operations change nothing outside it, and
the root stays a directory. -/
theorem changes_only_below_root {root : String} {place : Place} {machine : Machine}
    (located : machine.locate root = .ok (place, .directory))
    (named : ∀ rest item, machine.disk.get? (place ++ rest) = some item → AreSteps rest)
    (operations : List Operation) :
    (after root operations machine).here = machine.here ∧
      (after root operations machine).disk.get? place = some .directory ∧
      ∀ other, ¬ place <+: other →
        (after root operations machine).disk.get? other = machine.disk.get? other := by
  rcases leads_of_locate located with ⟨_, _, leads, directory⟩
  have place_eq : destination machine root = place := (eq_follow_of_leads leads).symm
  have alike : Alike root machine machine :=
    ⟨root_ne_empty located, rfl, fun _ _ => rfl, place_eq.symm ▸ named⟩
  have framed := after_framed operations alike
  have outside := framed.outside
  rw [place_eq] at outside
  refine ⟨framed.here, ?_, fun other apart => outside other (.inl apart)⟩
  rw [outside place (.inr rfl)]
  exact Disk.kind?_eq_directory_iff.mp directory

/-- Paths that try to climb out of the root, and the removal of all it holds. -/
def climbing : List Operation :=
  [.writeText "../secret" "z", .rename "save" "\\..\\..//secret", .makeDirectory "./../other" true,
    .remove "//." true]

theorem changes_only_below_root_when_climbing :
    secretive.locate "root" = .ok (["root"], .directory) ∧
      (after "root" climbing secretive).disk.get? ["root"] = some .directory ∧
      (after "root" climbing secretive).disk.get? ["secret"] = some (.file "y".toUTF8) := by
  have kept := changes_only_below_root rooted_secretive.located rooted_secretive.named climbing
  refine ⟨rooted_secretive.located, kept.2.1, ?_⟩
  rw [kept.2.2 ["secret"] (by decide)]
  rfl

end Native
end SaveTree
