import SaveTree.Proofs.Native.Visible

namespace SaveTree
namespace Native

open Host Location Machine Program

/-!
# Operations that see only their root

An operation is confined to a root if it does the same on all machines that look
alike from there.  A program is confined if its calls are, and an operation makes
calls on paths of steps only, with one exception: looking for a path and listing a
path take a key as it is, and a key that climbs leads out of the root.
-/

variable {α β : Type} {root path key : String} {steps : List String} {left right : Machine}

/-- The program does the same on all machines that look alike. -/
def Confined (root : String) (program : Act α) : Prop :=
  ∀ left right, Alike root left right →
    Agree (Alike root) (attempt Machine.serve program left) (attempt Machine.serve program right)

theorem Together.agree {leftResult rightResult : Except HostError Machine}
    (together : Together (Alike root) leftResult rightResult) (alike : Alike root left right) :
    Agree (Alike root) (settled left leftResult) (settled right rightResult) := by
  cases together with
  | ok holds => exact ⟨rfl, holds⟩
  | error error => exact ⟨rfl, alike⟩

namespace Confined

variable {program : Act α} {next : α → Act β} {name : String} {bytes : ByteArray}

theorem pure (value : α) : Confined root (Pure.pure value : Act α) :=
  fun _ _ alike => ⟨rfl, alike⟩

theorem throw (error : FsError) : Confined root (MonadExcept.throw error : Act α) :=
  fun _ _ alike => ⟨rfl, alike⟩

theorem bind (first : Confined root program) (later : ∀ value, Confined root (next value)) :
    Confined root (program >>= next) := by
  intro left right alike
  apply (first left right alike).bind
  intro value after afterOther _ _ related
  exact later value after afterOther related

theorem answer (first : Confined root program) (result : α → β) :
    Confined root (do return result (← program)) :=
  first.bind fun value => pure (result value)

/-- A path that is admitted, or nothing happens. -/
theorem require {next : String → Act β}
    (later : ∀ steps, Key.AreNames steps → steps ≠ [] → Confined root (next (Key.text steps))) :
    Confined root (do next (← (Key.require path : Except FsError String))) := by
  cases admitted : Key.require path with
  | error error => exact throw error
  | ok key =>
    rcases (Key.canonical_of_require admitted).exists_steps with ⟨steps, nonempty, areNames, rfl⟩
    exact later steps areNames nonempty

theorem ite {condition : Prop} [Decidable condition] {other : Act α}
    (holds : Confined root program) (fails : Confined root other) :
    Confined root (if condition then program else other) := by
  split
  · exact holds
  · exact fails

theorem forM {list : List β} {body : β → Act Unit} (each : ∀ item ∈ list, Confined root (body item)) :
    Confined root (list.forM body) := by
  induction list with
  | nil => exact pure ()
  | cons item rest ih =>
    apply bind (each item List.mem_cons_self)
    intro _
    exact ih fun other member => each other (.tail _ member)

theorem mapM {list : List α} {body : α → Act β} (each : ∀ item ∈ list, Confined root (body item)) :
    Confined root (list.mapM body) := by
  induction list with
  | nil => exact pure []
  | cons item rest ih =>
    rw [List.mapM_cons]
    apply bind (each item List.mem_cons_self)
    intro first
    apply bind (ih fun other member => each other (.tail _ member))
    intro others
    exact pure (first :: others)

/-- A loop whose body goes on in any case. -/
theorem forIn {list : List α} {body : α → PUnit → Act (ForInStep PUnit)}
    (each : ∀ item ∈ list, ∃ act : Act Unit, Confined root act ∧
      body item ⟨⟩ = (do act; Pure.pure (.yield ⟨⟩))) :
    Confined root (ForIn.forIn list PUnit.unit body) := by
  induction list with
  | nil => exact pure ()
  | cons item rest ih =>
    rcases each item List.mem_cons_self with ⟨act, confined, body_eq⟩
    rw [List.forIn_cons, body_eq, bind_assoc]
    apply bind confined
    intro _
    rw [pure_bind]
    exact ih fun other member => each other (.tail _ member)

/-! ## Single calls -/

theorem kind (areSteps : AreSteps steps) : Confined root (kind? root (Key.text steps)) := by
  intro left right alike
  rw [attempt_kind?, attempt_kind?, alike.locate_eq areSteps]
  exact ⟨rfl, alike⟩

theorem read (areSteps : AreSteps steps) :
    Confined root (onHost (Host.read (hostPath root (Key.text steps)))) := by
  intro left right alike
  rw [attempt_read, attempt_read, alike.contents_eq areSteps]
  exact ⟨rfl, alike⟩

/-- A path of steps that is not the root's has a last step. -/
theorem exists_last (areNames : Key.AreNames steps) (nonempty : steps ≠ []) :
    ∃ front last, steps = front ++ [last] ∧ AreSteps (front ++ [last]) := by
  rcases List.eq_nil_or_concat steps with empty | ⟨front, last, split⟩
  · exact absurd empty nonempty
  · rw [List.concat_eq_append] at split
    exact ⟨front, last, split, split ▸ areSteps_of_areNames areNames⟩

theorem write (areNames : Key.AreNames steps) (nonempty : steps ≠ []) :
    Confined root (onHost (Host.write (hostPath root (Key.text steps)) bytes)) := by
  intro left right alike
  rcases exists_last areNames nonempty with ⟨front, last, rfl, areSteps⟩
  rw [attempt_write, attempt_write]
  exact (alike.write areSteps).agree alike

theorem makeDirectory (areNames : Key.AreNames steps) (nonempty : steps ≠ []) :
    Confined root (onHost (Host.makeDirectory (hostPath root (Key.text steps)))) := by
  intro left right alike
  rcases exists_last areNames nonempty with ⟨front, last, rfl, areSteps⟩
  rw [attempt_makeDirectory, attempt_makeDirectory]
  exact (alike.makeDirectory areSteps).agree alike

theorem removeFile (areSteps : AreSteps steps) (nonempty : steps ≠ []) :
    Confined root (onHost (Host.removeFile (hostPath root (Key.text steps)))) := by
  intro left right alike
  rw [attempt_removeFile, attempt_removeFile]
  exact (alike.removeFile areSteps nonempty).agree alike

theorem removeTree (areSteps : AreSteps steps) (nonempty : steps ≠ []) :
    Confined root (onHost (Host.removeTree (hostPath root (Key.text steps)))) := by
  intro left right alike
  rw [attempt_removeTree, attempt_removeTree]
  exact (alike.removeTree areSteps nonempty).agree alike

theorem rename {target : List String} (areNames : Key.AreNames steps) (nonempty : steps ≠ [])
    (areTarget : Key.AreNames target) (nonemptyTarget : target ≠ []) :
    Confined root (onHost (Host.rename (hostPath root (Key.text steps))
      (hostPath root (Key.text target)))) := by
  intro left right alike
  rcases exists_last areNames nonempty with ⟨front, last, rfl, areSteps⟩
  rcases exists_last areTarget nonemptyTarget with ⟨frontTarget, lastTarget, rfl, areStepsTarget⟩
  rw [attempt_rename, attempt_rename]
  exact (alike.rename areSteps areStepsTarget).agree alike

/-- What is done with the names in a directory must not depend on their order. -/
theorem listed {next : List (String × Kind) → Act β} (areSteps : AreSteps steps)
    (later : ∀ left right found foundRight, Alike root left right → found.Perm foundRight →
      (found.map Prod.fst).Nodup → (∀ child ∈ found, IsStep child.1) →
      Agree (Alike root) (attempt Machine.serve (next found) left)
        (attempt Machine.serve (next foundRight) right)) :
    Confined root (onHost (Host.list (hostPath root (Key.text steps))) >>= next) := by
  intro left right alike
  have outcomeLeft := attempt_list left (hostPath root (Key.text steps))
  have outcomeRight := attempt_list right (hostPath root (Key.text steps))
  rcases alike.listed_cases areSteps with ⟨error, failsLeft, failsRight⟩ | ⟨listsLeft, listsRight⟩
  · rw [failsLeft] at outcomeLeft
    rw [failsRight] at outcomeRight
    rw [attempt_bind_of_error outcomeLeft, attempt_bind_of_error outcomeRight]
    exact ⟨rfl, alike⟩
  · rw [listsLeft] at outcomeLeft
    rw [listsRight] at outcomeRight
    rw [attempt_bind_of_ok outcomeLeft, attempt_bind_of_ok outcomeRight]
    exact later _ _ _ _ alike (alike.children_perm steps) (left.disk.nodup_children _)
      fun child member => alike.isStep_of_mem_children member

end Confined

/-! ## Operations -/

theorem ensureDirectories_confined (areNames : Key.AreNames steps) :
    Confined root (ensureDirectories root (Key.text steps)) := by
  rw [ensureDirectories, Key.chain_text areNames]
  apply Confined.forM
  intro place member
  rcases List.mem_map.mp member with ⟨upper, inside, rfl⟩
  rcases Key.mem_beginnings_iff.mp inside with ⟨nonempty, beginning⟩
  have areUpper := areNames.of_beginning beginning
  apply Confined.bind (.kind (areSteps_of_areNames areUpper))
  intro found
  cases found with
  | none => exact .makeDirectory areUpper nonempty
  | some kind =>
    cases kind with
    | file => exact .throw (.notADirectory (Key.text upper))
    | directory => exact .pure ()

/-- The parent of a key that is not the root's. -/
theorem parent_text (areNames : Key.AreNames steps) (nonempty : steps ≠ []) :
    ∃ upper, Key.AreNames upper ∧ Key.parent (Key.text steps) = Key.text upper := by
  rcases List.eq_nil_or_concat steps with empty | ⟨upper, name, rfl⟩
  · exact absurd empty nonempty
  · rw [List.concat_eq_append, Key.areNames_append_iff] at areNames
    rw [List.concat_eq_append]
    have isName := areNames.2 name (List.mem_singleton_self name)
    exact ⟨upper, areNames.1, Key.parent_text_concat isName⟩

theorem putFile_confined {bytes : ByteArray} (areNames : Key.AreNames steps) (nonempty : steps ≠ []) :
    Confined root (putFile root (Key.text steps) bytes) := by
  rcases parent_text areNames nonempty with ⟨upper, areUpper, parent_eq⟩
  rw [putFile, parent_eq]
  apply Confined.bind (ensureDirectories_confined areUpper)
  intro _
  apply Confined.bind (.kind (areSteps_of_areNames areNames))
  intro found
  split
  · exact .throw (.conflict (Key.text steps))
  · exact .write areNames nonempty

theorem bytesAt_confined (areNames : Key.AreNames steps) :
    Confined root (bytesAt root (Key.text steps)) := by
  apply Confined.bind (.kind (areSteps_of_areNames areNames))
  intro found
  dsimp only
  split
  · exact .throw (.fileNotFound (Key.text steps))
  · exact .read (areSteps_of_areNames areNames)

theorem writeFile_confined {bytes : ByteArray} : Confined root (writeFile root path bytes) :=
  .require fun _ areNames nonempty => putFile_confined areNames nonempty

theorem readText_confined : Confined root (readText root path) := by
  apply Confined.require
  intro steps areNames _
  apply Confined.bind (bytesAt_confined areNames)
  intro bytes
  cases String.fromUTF8? bytes with
  | none => exact .throw (.invalidUtf8 (Key.text steps))
  | some text => exact .pure text

theorem readBytes_confined : Confined root (readBytes root path) :=
  .require fun _ areNames _ => bytesAt_confined areNames

theorem find_confined (stays : Key.climbs (Key.ofPath path) = false) : Confined root (find root path) := by
  rcases Key.exists_steps_of_stays stays with ⟨steps, areNames, key_eq⟩
  rw [find, key_eq]
  split
  · exact .pure true
  · apply Confined.bind (.kind (areSteps_of_areNames areNames))
    intro found
    exact .pure found.isSome

/-- A key below the root does not climb. -/
theorem find_text_confined (areNames : Key.AreNames steps) :
    Confined root (find root (Key.text steps)) := by
  apply find_confined
  rw [Key.ofPath_text areNames]
  exact Key.climbs_ofNames areNames.toList

theorem makeDirectory_confined {recursive : Bool} :
    Confined root (makeDirectory root path recursive) := by
  apply Confined.require
  intro steps areNames nonempty
  rcases parent_text areNames nonempty with ⟨upper, areUpper, parent_eq⟩
  -- what follows the look at the parent, whichever branch it is reached by
  have finish : Confined root (do
      if (← kind? root (Key.text steps)) = some .file then throw (.conflict (Key.text steps))
      ensureDirectories root (Key.text steps)) := by
    apply Confined.bind (.kind (areSteps_of_areNames areNames))
    intro found
    split
    · exact .throw (.conflict (Key.text steps))
    · exact ensureDirectories_confined areNames
  rw [parent_eq]
  cases recursive with
  | true => exact finish
  | false =>
    apply Confined.bind (find_text_confined areUpper)
    intro found
    cases found with
    | true => exact finish
    | false => exact .throw (.parentMissing (Key.text upper))

theorem listLevels_confined {recursive : Bool} (levels : Nat) (areSteps : AreSteps steps) :
    Confined root (listLevels root recursive levels (Key.text steps)) := by
  induction levels generalizing steps with
  | zero => exact .pure []
  | succ levels ih =>
    apply Confined.listed areSteps
    intro left right found foundRight alike perm distinct areNamed
    have sorted : found.mergeSort (fun first second => first.1 ≤ second.1) =
        foundRight.mergeSort fun first second => first.1 ≤ second.1 := byName_eq_of_perm perm distinct
    rw [← sorted]
    refine Confined.mapM ?_ left right alike
    rintro ⟨name, kind⟩ member
    have isStep := areNamed (name, kind) (List.mem_mergeSort.mp member)
    have areDeeper : AreSteps (steps ++ [name]) := by
      intro step inside
      rcases List.mem_append.mp inside with early | late
      · exact areSteps step early
      · exact List.mem_singleton.mp late ▸ isStep
    have path_eq := Key.text_concat (fun step inside => (areSteps step inside).nonempty) name
    dsimp only
    rw [← path_eq]
    split
    · apply Confined.bind (ih areDeeper)
      intro children
      exact .pure _
    · exact .pure _

theorem list_confined {recursive : Bool} (stays : Key.climbs (Key.ofPath path) = false) :
    Confined root (list root path recursive) := by
  rcases Key.exists_steps_of_stays stays with ⟨steps, areNames, key_eq⟩
  rw [list, key_eq]
  apply Confined.bind (.kind (areSteps_of_areNames areNames))
  intro found
  cases found with
  | none =>
    dsimp only
    split
    · exact .pure []
    · exact .throw (.directoryNotFound (Key.text steps))
  | some kind =>
    cases kind with
    | file => exact .pure []
    | directory => exact listLevels_confined deepest (areSteps_of_areNames areNames)

theorem copy_confined {source target : String} : Confined root (copy root source target) := by
  apply Confined.require
  intro source areSource _
  apply Confined.require
  intro target areTarget nonempty
  apply Confined.bind (bytesAt_confined areSource)
  intro bytes
  exact putFile_confined areTarget nonempty

theorem rename_confined {source target : String} : Confined root (rename root source target) := by
  apply Confined.require
  intro source areSource nonemptySource
  apply Confined.require
  intro target areTarget nonempty
  rcases parent_text areTarget nonempty with ⟨upper, areUpper, parent_eq⟩
  rw [parent_eq]
  apply Confined.bind (.kind (areSteps_of_areNames areSource))
  intro found
  cases found with
  | none => exact .throw (.fileNotFound (Key.text source))
  | some kind =>
  dsimp only
  split
  · exact .pure ()
  split
  · exact .throw (.moveIntoItself (Key.text source))
  apply Confined.bind (ensureDirectories_confined areUpper)
  intro _
  apply Confined.bind (.kind (areSteps_of_areNames areTarget))
  intro occupied
  have moves : Confined root (onHost (Host.rename (hostPath root (Key.text source))
    (hostPath root (Key.text target)))) := .rename areSource nonemptySource areTarget nonempty
  cases occupied with
  | none => exact moves
  | some occupied =>
    refine .ite (.throw (.conflict (Key.text target))) (.ite ?_ moves)
    apply Confined.listed (areSteps_of_areNames areTarget)
    intro left right found foundRight alike perm _ _
    by_cases empty : found = []
    · have emptyRight : foundRight = [] := List.perm_nil.mp (empty ▸ perm.symm)
      rw [if_neg (not_not.mpr empty), if_neg (not_not.mpr emptyRight)]
      exact moves left right alike
    · have occupiedRight : foundRight ≠ [] := fun none => empty (List.perm_nil.mp (none ▸ perm))
      rw [if_pos empty, if_pos occupiedRight]
      exact Confined.throw (.destinationNotEmpty (Key.text target)) left right alike

theorem hostPath_name {name : String} (isStep : IsStep name) (root : String) :
    AreSteps [name] ∧ hostPath root (Key.text [name]) = Location.join root name := by
  have single : AreSteps [name] := fun step inside => List.mem_singleton.mp inside ▸ isStep
  refine ⟨single, ?_⟩
  rw [hostPath_text single (List.cons_ne_nil name []), Key.text_singleton]

theorem removeChildTree_confined {name : String} (isStep : IsStep name) :
    Confined root (onHost (Host.removeTree (Location.join root name))) := by
  rcases hostPath_name isStep root with ⟨single, path_eq⟩
  rw [← path_eq]
  exact .removeTree single (List.cons_ne_nil name [])

theorem removeChildFile_confined {name : String} (isStep : IsStep name) :
    Confined root (onHost (Host.removeFile (Location.join root name))) := by
  rcases hostPath_name isStep root with ⟨single, path_eq⟩
  rw [← path_eq]
  exact .removeFile single (List.cons_ne_nil name [])

/-- Emptying the root does the same on machines that also list it in the same order. -/
theorem removeAll_agrees (alike : Alike root left right)
    (order : left.disk.children (destination left root) =
      right.disk.children (destination left root)) :
    Agree (Alike root) (attempt Machine.serve (removeAll root) left)
      (attempt Machine.serve (removeAll root) right) := by
  have areSteps : AreSteps [] := fun _ member => nomatch member
  have looks := Confined.kind areSteps left right alike
  rw [Key.text_nil] at looks
  apply looks.bind
  intro found leftAfter rightAfter leftLooks rightLooks _
  rw [attempt_kind?] at leftLooks rightLooks
  have leftSame : left = leftAfter := congrArg Prod.snd leftLooks
  have rightSame : right = rightAfter := congrArg Prod.snd rightLooks
  subst leftSame rightSame
  split
  · have outcomeLeft := attempt_list left root
    have outcomeRight := attempt_list right root
    rcases alike.listed_cases areSteps with ⟨error, failsLeft, failsRight⟩ | ⟨listsLeft, listsRight⟩
    · rw [show left.listed root = _ from failsLeft] at outcomeLeft
      rw [show right.listed root = _ from failsRight] at outcomeRight
      rw [attempt_bind_of_error outcomeLeft, attempt_bind_of_error outcomeRight]
      exact ⟨rfl, alike⟩
    · rw [List.append_nil] at listsLeft listsRight
      rw [show left.listed root = _ from listsLeft] at outcomeLeft
      rw [show right.listed root = _ from listsRight, ← order] at outcomeRight
      rw [attempt_bind_of_ok outcomeLeft, attempt_bind_of_ok outcomeRight]
      refine Confined.bind (.forIn ?_) (fun _ => .pure ()) left right alike
      rintro ⟨name, kind⟩ member
      have isStep : IsStep name :=
        alike.isStep_of_mem_children ((List.append_nil (destination left root)).symm ▸ member)
      cases kind with
      | directory => exact ⟨_, removeChildTree_confined isStep, rfl⟩
      | file => exact ⟨_, removeChildFile_confined isStep, rfl⟩
  · exact Confined.pure () left right alike

/-- The operation removes the root's whole content, in the order in which the host
lists it. -/
def Empties : Operation → Prop
  | .remove path true => Key.ofPath path = ""
  | _ => False

theorem remove_agrees {recursive : Bool} (alike : Alike root left right)
    (order : Empties (.remove path recursive) →
      left.disk.children (destination left root) = right.disk.children (destination left root)) :
    Agree (Alike root) (attempt Machine.serve (remove root path recursive) left)
      (attempt Machine.serve (remove root path recursive) right) := by
  unfold remove
  split
  · rename_i whole
    cases recursive with
    | true => exact removeAll_agrees alike (order whole)
    | false => exact Confined.throw .rootRemoval left right alike
  · refine Confined.require ?_ left right alike
    intro steps areNames nonempty
    have areSteps := areSteps_of_areNames areNames
    apply Confined.bind (.kind areSteps)
    intro found
    cases found with
    | none => exact .pure ()
    | some kind =>
      cases kind with
      | file => exact .removeFile areSteps nonempty
      | directory =>
        exact .ite (.throw (.directoryNotEmpty (Key.text steps))) (.removeTree areSteps nonempty)

/-- The operation does not look at a path that climbs. -/
def Stays : Operation → Prop
  | .find path | .list path _ => Key.climbs (Path.normalize path) = false
  | _ => True

theorem perform_agrees {operation : Operation} (stays : Stays operation)
    (alike : Alike root left right)
    (order : Empties operation →
      left.disk.children (destination left root) = right.disk.children (destination left root)) :
    Agree (Alike root) (attempt Machine.serve (perform root operation) left)
      (attempt Machine.serve (perform root operation) right) := by
  cases operation with
  | writeText path text => exact writeFile_confined.answer (fun _ => Answer.done) left right alike
  | write path bytes => exact writeFile_confined.answer (fun _ => Answer.done) left right alike
  | readText path => exact readText_confined.answer Answer.text left right alike
  | read path => exact readBytes_confined.answer Answer.bytes left right alike
  | find path =>
    have stays : Key.climbs (Path.normalize path) = false := stays
    rw [Key.climbs_normalize] at stays
    exact (find_confined stays).answer Answer.found left right alike
  | makeDirectory path recursive =>
    exact makeDirectory_confined.answer (fun _ => Answer.done) left right alike
  | list path recursive =>
    have stays : Key.climbs (Path.normalize path) = false := stays
    rw [Key.climbs_normalize] at stays
    exact (list_confined stays).answer Answer.listing left right alike
  | remove path recursive =>
    apply (remove_agrees alike order).bind
    intro _ leftAfter rightAfter _ _ related
    exact Confined.pure Answer.done leftAfter rightAfter related
  | copy source target => exact copy_confined.answer (fun _ => Answer.done) left right alike
  | rename source target => exact rename_confined.answer (fun _ => Answer.done) left right alike

/-! ## Two states of a host -/

/-- The root is a directory of the host, in which every name is a step. -/
structure Rooted (machine : Machine) (root : String) (place : Place) : Prop where
  begins : machine.disk.kind? machine.here = some .directory
  located : machine.locate root = .ok (place, .directory)
  named : ∀ rest item, machine.disk.get? (place ++ rest) = some item → AreSteps rest

namespace Rooted

variable {machine : Machine} {place : Place}

theorem destination_eq (rooted : Rooted machine root place) : destination machine root = place :=
  (eq_follow_of_leads (leads_of_locate rooted.located).2.2.1).symm

/-- Everything on the way to the root is a directory. -/
theorem follow_directory (rooted : Rooted machine root place) {upper : List String}
    (beginning : upper <+: segments root) :
    machine.disk.get? (follow (machine.start root) upper) = some .directory := by
  rcases leads_of_locate rooted.located with ⟨_, _, leads, directory⟩
  apply Disk.kind?_eq_directory_iff.mp
  exact leads.directory_follow (start_directory rooted.begins root) directory beginning

/-- States with the same below the root look alike from there. -/
theorem alike (leftRooted : Rooted left root place) (rightRooted : Rooted right root place)
    (here : left.here = right.here)
    (same : ∀ rest, left.disk.get? (place ++ rest) = right.disk.get? (place ++ rest)) :
    Alike root left right where
  nonempty := root_ne_empty leftRooted.located
  here := here
  stands := by
    rintro other (⟨upper, beginning, rfl⟩ | below)
    · rw [leftRooted.follow_directory beginning, start_of_here here,
        rightRooted.follow_directory beginning]
    · rw [leftRooted.destination_eq] at below
      rcases below with ⟨rest, rfl⟩
      exact same rest
  named := by
    rw [leftRooted.destination_eq]
    exact leftRooted.named

end Rooted

/-- Two states of a host with the same below the root answer every operation in the
same way, unless it looks at a path that climbs. -/
theorem sees_only_below_root {place : Place} {operation : Operation}
    (leftRooted : Rooted left root place) (rightRooted : Rooted right root place)
    (here : left.here = right.here)
    (same : ∀ rest, left.disk.get? (place ++ rest) = right.disk.get? (place ++ rest))
    (order : Empties operation → left.disk.children place = right.disk.children place)
    (stays : Stays operation) :
    (attempt Machine.serve (perform root operation) left).1 =
      (attempt Machine.serve (perform root operation) right).1 := by
  rw [← leftRooted.destination_eq] at order
  exact (perform_agrees stays (leftRooted.alike rightRooted here same) order).same

/-- A host with a root that holds one save. -/
def quiet : Machine where
  disk := (Disk.empty.makeDirectory ["root"]).putFile ["root", "save"] "x".toUTF8
  here := []

/-- The same host with one file more, beside the root. -/
def secretive : Machine where
  disk := quiet.disk.putFile ["secret"] "y".toUTF8
  here := []

theorem get?_quiet (other : Place) :
    quiet.disk.get? other =
      if other = ["root", "save"] then some (.file "x".toUTF8)
      else if other = ["root"] then some .directory else Disk.empty.get? other := by
  have made : ∀ other, (Disk.empty.makeDirectory ["root"]).get? other =
      if other = ["root"] then some .directory else Disk.empty.get? other :=
    fun other => Disk.get?_makeDirectory rfl rfl
  rw [← made]
  exact Disk.get?_putFile rfl nofun

theorem get?_secretive (rest : Place) :
    secretive.disk.get? (["root"] ++ rest) = quiet.disk.get? (["root"] ++ rest) := by
  have put : ∀ other, secretive.disk.get? other =
      if other = ["secret"] then some (.file "y".toUTF8) else quiet.disk.get? other :=
    fun other => Disk.get?_putFile rfl nofun
  rw [put, if_neg (by simp)]

theorem areSteps_quiet (rest : Place) (item : Item)
    (stands : quiet.disk.get? (["root"] ++ rest) = some item) : AreSteps rest := by
  rw [get?_quiet] at stands
  split at stands
  · rename_i file
    cases file
    intro step member
    cases List.mem_singleton.mp member
    exact ⟨by decide, by decide, by decide, by decide⟩
  · split at stands
    · rename_i directory
      cases directory
      intro step member
      cases member
    · cases stands

theorem rooted_quiet : Rooted quiet "root" ["root"] :=
  ⟨rfl, rfl, areSteps_quiet⟩

theorem rooted_secretive : Rooted secretive "root" ["root"] :=
  ⟨rfl, rfl, fun rest item stands => areSteps_quiet rest item (get?_secretive rest ▸ stands)⟩

theorem sees_only_below_root_beside_secret :
    quiet.disk.kind? ["secret"] ≠ secretive.disk.kind? ["secret"] ∧
      (attempt Machine.serve (perform "root" (.list "/" true)) quiet).1 =
        (attempt Machine.serve (perform "root" (.list "/" true)) secretive).1 :=
  ⟨nofun, sees_only_below_root rooted_quiet rooted_secretive rfl
    (fun rest => (get?_secretive rest).symm) nofun rfl⟩

/-- A path that climbs tells the two hosts apart. -/
theorem find_sees_beside_root :
    Rooted quiet "root" ["root"] ∧ Rooted secretive "root" ["root"] ∧
      quiet.here = secretive.here ∧
      (∀ rest, quiet.disk.get? (["root"] ++ rest) = secretive.disk.get? (["root"] ++ rest)) ∧
      (attempt Machine.serve (perform "root" (.find "../secret")) quiet).1 = .ok (.found false) ∧
      (attempt Machine.serve (perform "root" (.find "../secret")) secretive).1 = .ok (.found true) :=
  ⟨rooted_quiet, rooted_secretive, rfl, fun rest => (get?_secretive rest).symm, rfl, rfl⟩

end Native
end SaveTree
